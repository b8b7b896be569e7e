import FileSpec.Proofs.Path.Flavor

/-!
# Roots

`Flavor.Roots` says by rules where the root of a path ends: behind a drive and one separator, a
server or its share, or a single separator. Every path is divided by one of the rules,
`PathStyle.roots_root`, and `PathStyle.root_append` says that no two of them disagree. What follows
a root can be cut off at any place, and the root stays.
-/

set_option autoImplicit false

namespace FileSpec

namespace Flavor

/-- The name of a server or of a share. -/
def IsShareName (flavor : Flavor) (name : Path) : Prop :=
  name ≠ [] ∧ ∀ character ∈ name, flavor.isSeparator character = false

instance (flavor : Flavor) (name : Path) : Decidable (flavor.IsShareName name) :=
  decidable_of_iff (name ≠ [] ∧ (name.all fun character => !flavor.isSeparator character) = true)
    (by simp [IsShareName])

/-- `Roots flavor root rest`: the root of `root ++ rest` is `root`. -/
inductive Roots (flavor : Flavor) : Path → Path → Prop where
  | relative {path} :
      flavor.beginsWithSeparator path = false →
      (flavor.hasDriveRoots = true → ∀ letter rest, path = letter :: ':' :: rest →
        isDriveLetter letter = false) →
      Roots flavor [] path
  /-- A separator that does not begin a share. -/
  | separator {first rest} :
      flavor.isSeparator first = true →
      (flavor.hasDriveRoots = true → flavor.beginsWithSeparator rest = true →
        flavor.beginsWithName rest.tail = false) →
      Roots flavor [first] rest
  | drive {letter rest} :
      flavor.hasDriveRoots = true → isDriveLetter letter = true →
      flavor.beginsWithSeparator rest = false →
      Roots flavor [letter, ':'] rest
  | driveDirectory {letter separator rest} :
      flavor.hasDriveRoots = true → isDriveLetter letter = true →
      flavor.isSeparator separator = true →
      Roots flavor [letter, ':', separator] rest
  /-- A server, behind which no share is named. -/
  | server {first second server rest} :
      flavor.hasDriveRoots = true →
      flavor.isSeparator first = true → flavor.isSeparator second = true →
      flavor.IsShareName server →
      flavor.beginsWithName rest = false → flavor.beginsWithName rest.tail = false →
      Roots flavor (first :: second :: server) rest
  | share {first second server separator share rest} :
      flavor.hasDriveRoots = true →
      flavor.isSeparator first = true → flavor.isSeparator second = true →
      flavor.IsShareName server → flavor.isSeparator separator = true →
      flavor.IsShareName share → flavor.beginsWithName rest = false →
      Roots flavor (first :: second :: (server ++ separator :: share)) rest

variable {flavor : Flavor}

theorem exists_shareName {text : Path} (begins : flavor.beginsWithName text = true) :
    ∃ name rest, text = name ++ rest ∧ flavor.IsShareName name ∧
      flavor.beginsWithName rest = false := by
  refine ⟨text.takeWhile fun character => !flavor.isSeparator character,
    text.dropWhile fun character => !flavor.isSeparator character,
    List.takeWhile_append_dropWhile.symm, ⟨?_, ?_⟩, beginsWithName_dropWhile text⟩
  · cases text with
    | nil => simp at begins
    | cons first rest =>
        have plain : flavor.isSeparator first = false := by simpa using begins
        simp [plain]
  · intro character member
    simpa using List.all_eq_true.mp List.all_takeWhile character member

theorem exists_roots (flavor : Flavor) (path : Path) :
    ∃ root rest, path = root ++ rest ∧ flavor.Roots root rest := by
  cases path with
  | nil => exact ⟨[], [], rfl, .relative rfl (by simp)⟩
  | cons first rest =>
      by_cases separates : flavor.isSeparator first = true
      · by_cases shared : flavor.hasDriveRoots = true ∧ flavor.beginsWithSeparator rest = true ∧
            flavor.beginsWithName rest.tail = true
        · obtain ⟨drives, again, named⟩ := shared
          obtain ⟨second, rest, rfl⟩ := List.exists_cons_of_ne_nil
            (by rintro rfl; simp at again : rest ≠ [])
          obtain ⟨server, left, rfl, isServer, ends⟩ := exists_shareName named
          by_cases sharesName : flavor.beginsWithName left.tail = true
          · obtain ⟨separator, left, rfl⟩ := List.exists_cons_of_ne_nil
              (by rintro rfl; simp at sharesName : left ≠ [])
            obtain ⟨share, rest, rfl, isShare, shareEnds⟩ := exists_shareName sharesName
            exact ⟨first :: second :: (server ++ separator :: share), rest, by simp,
              .share drives separates again isServer (by simpa using ends) isShare shareEnds⟩
          · exact ⟨first :: second :: server, left, by simp,
              .server drives separates again isServer ends (by simpa using sharesName)⟩
        · refine ⟨[first], rest, rfl, .separator separates fun drives again => ?_⟩
          rw [← Bool.not_eq_true]
          exact fun named => shared ⟨drives, again, named⟩
      · by_cases driven : flavor.hasDriveRoots = true ∧ ∃ letter others,
            first :: rest = letter :: ':' :: others ∧ isDriveLetter letter = true
        · obtain ⟨drives, letter, others, shape, isLetter⟩ := driven
          rw [shape]
          by_cases again : flavor.beginsWithSeparator others = true
          · obtain ⟨separator, others, rfl⟩ := List.exists_cons_of_ne_nil
              (by rintro rfl; simp at again : others ≠ [])
            exact ⟨[letter, ':', separator], others, rfl, .driveDirectory drives isLetter again⟩
          · exact ⟨[letter, ':'], others, rfl, .drive drives isLetter (by simpa using again)⟩
        · refine ⟨[], first :: rest, rfl, .relative (by simpa using separates) ?_⟩
          intro drives letter others shape
          rw [← Bool.not_eq_true]
          exact fun isLetter => driven ⟨drives, letter, others, shape, isLetter⟩

/-- A text that is cut off begins as before or is empty. -/
theorem beginsWithName_of_isPrefix {cut text : Path} (isCut : cut <+: text)
    (plain : flavor.beginsWithName text = false) : flavor.beginsWithName cut = false := by
  obtain ⟨left, rfl⟩ := isCut
  cases cut with
  | nil => rfl
  | cons first cut => exact plain

theorem beginsWithSeparator_of_isPrefix {cut text : Path} (isCut : cut <+: text)
    (begins : flavor.beginsWithSeparator cut = true) :
    flavor.beginsWithSeparator text = true := by
  obtain ⟨left, rfl⟩ := isCut
  cases cut with
  | nil => simp at begins
  | cons first cut => exact begins

theorem tail_isPrefix {cut text : Path} (isCut : cut <+: text) : cut.tail <+: text.tail := by
  obtain ⟨left, rfl⟩ := isCut
  cases cut with
  | nil => exact List.nil_prefix
  | cons first cut => exact List.prefix_append cut left

/-- A path keeps its root when something is cut off behind the root. -/
theorem Roots.of_isPrefix {root rest cut : Path} (roots : flavor.Roots root rest)
    (isCut : cut <+: rest) : flavor.Roots root cut := by
  have noSeparator : flavor.beginsWithSeparator rest = false →
      flavor.beginsWithSeparator cut = false := by
    simp only [← Bool.not_eq_true]
    exact mt (beginsWithSeparator_of_isPrefix isCut)
  cases roots with
  | relative plain noDrive =>
      refine .relative (noSeparator plain) fun drives letter others shape => ?_
      obtain ⟨left, rfl⟩ := isCut
      exact noDrive drives letter (others ++ left) (by simp [shape])
  | separator separates noShare =>
      refine .separator separates fun drives again => ?_
      exact beginsWithName_of_isPrefix (tail_isPrefix isCut)
        (noShare drives (beginsWithSeparator_of_isPrefix isCut again))
  | drive drives isLetter plain => exact .drive drives isLetter (noSeparator plain)
  | driveDirectory drives isLetter separates => exact .driveDirectory drives isLetter separates
  | server drives first second isServer ends noShare =>
      exact .server drives first second isServer (beginsWithName_of_isPrefix isCut ends)
        (beginsWithName_of_isPrefix (tail_isPrefix isCut) noShare)
  | share drives first second isServer separates isShare ends =>
      exact .share drives first second isServer separates isShare
        (beginsWithName_of_isPrefix isCut ends)

theorem driveRoot?_of_not_isDriveLetter {first : Char} (plain : isDriveLetter first = false)
    (rest : Path) : flavor.driveRoot? (first :: rest) = none := by
  unfold driveRoot?
  split
  · next letter _ shape =>
      simp only [List.cons.injEq] at shape
      simp [← shape.1, plain]
  · rfl

theorem shareRoot?_server {first second : Char} {server rest : Path}
    (firstSeparates : flavor.isSeparator first = true)
    (secondSeparates : flavor.isSeparator second = true) (isServer : flavor.IsShareName server)
    (ends : flavor.beginsWithName rest = false) :
    flavor.shareRoot? (first :: second :: (server ++ rest)) =
      some (first :: second :: (server ++ flavor.shareAfterServer rest)) := by
  have taken := takeWhile_not_isSeparator isServer.2 ends
  simp [shareRoot?, firstSeparates, secondSeparates, taken, isServer.1]

theorem shareAfterServer_of_not_beginsWithName {rest : Path}
    (noShare : flavor.beginsWithName rest.tail = false) : flavor.shareAfterServer rest = [] := by
  cases rest with
  | nil => rfl
  | cons separator rest =>
      have taken := takeWhile_not_isSeparator (List.forall_mem_nil _) noShare
      simp only [List.nil_append, List.tail_cons] at taken
      simp [shareAfterServer, taken]

theorem shareAfterServer_share {separator : Char} {share rest : Path}
    (isShare : flavor.IsShareName share) (ends : flavor.beginsWithName rest = false) :
    flavor.shareAfterServer (separator :: (share ++ rest)) = separator :: share := by
  have taken := takeWhile_not_isSeparator isShare.2 ends
  simp [shareAfterServer, taken, isShare.1]

theorem shareRoot?_of_not_beginsWithName {first : Char} {rest : Path}
    (noShare : flavor.beginsWithSeparator rest = true →
      flavor.beginsWithName rest.tail = false) :
    flavor.shareRoot? (first :: rest) = none := by
  cases rest with
  | nil => rfl
  | cons second rest =>
      by_cases again : flavor.isSeparator second = true
      · have taken := takeWhile_not_isSeparator (List.forall_mem_nil _) (noShare again)
        simp only [List.nil_append, List.tail_cons] at taken
        simp [shareRoot?, taken]
      · simp [shareRoot?, again]

/-- The rules leave one root, where letters of drives are no separators. -/
theorem Roots.root?_eq {root rest : Path} (roots : flavor.Roots root rest)
    (lettersPlain : ∀ letter, isDriveLetter letter = true → flavor.isSeparator letter = false) :
    flavor.root? (root ++ rest) = if root = [] then none else some root := by
  have separatorsPlain : ∀ separator, flavor.isSeparator separator = true →
      isDriveLetter separator = false := by
    intro separator separates
    rw [← Bool.not_eq_true]
    intro isLetter
    simp [lettersPlain separator isLetter] at separates
  have noDrive : ∀ {separator}, flavor.isSeparator separator = true → ∀ others,
      flavor.driveRoot? (separator :: others) = none := fun separates =>
    driveRoot?_of_not_isDriveLetter (separatorsPlain _ separates)
  cases roots with
  | relative plain noDrive =>
      have single : flavor.separatorRoot? rest = none := by
        cases rest with
        | nil => rfl
        | cons first rest =>
            have plain : flavor.isSeparator first = false := plain
            simp [separatorRoot?, plain]
      have share : flavor.shareRoot? rest = none := by
        unfold shareRoot?
        split
        · next first _ _ =>
            have plain : flavor.isSeparator first = false := plain
            simp [plain]
        · rfl
      have drive : flavor.hasDriveRoots = true → flavor.driveRoot? rest = none := by
        intro drives
        unfold driveRoot?
        split
        · next letter others => simp [noDrive drives letter others rfl]
        · rfl
      by_cases drives : flavor.hasDriveRoots = true
      · simp [root?, drives, drive drives, share, single]
      · simp [root?, drives, single]
  | @separator first rest separates noShare =>
      have single : flavor.separatorRoot? (first :: rest) = some [first] := by
        simp [separatorRoot?, separates]
      by_cases drives : flavor.hasDriveRoots = true
      · simp [root?, drives, noDrive separates, shareRoot?_of_not_beginsWithName (noShare drives),
          single]
      · simp [root?, drives, single]
  | @drive letter rest drives isLetter plain =>
      have nothing : (rest.take 1).filter flavor.isSeparator = [] := by
        cases rest with
        | nil => rfl
        | cons first rest =>
            have plain : flavor.isSeparator first = false := plain
            simp [plain]
      simp [root?, drives, driveRoot?, isLetter, nothing]
  | driveDirectory drives isLetter separates =>
      simp [root?, drives, driveRoot?, isLetter, separates]
  | @server first second server rest drives firstSeparates secondSeparates isServer ends noShare =>
      have share := shareRoot?_server firstSeparates secondSeparates isServer ends
      rw [shareAfterServer_of_not_beginsWithName noShare, List.append_nil] at share
      simp [root?, drives, noDrive firstSeparates, share]
  | @share first second server separator share rest drives firstSeparates secondSeparates isServer
      separates isShare ends =>
      have found := shareRoot?_server firstSeparates secondSeparates isServer
        (by simpa using separates : flavor.beginsWithName (separator :: (share ++ rest)) = false)
      rw [shareAfterServer_share isShare ends] at found
      simp [root?, drives, noDrive firstSeparates, found]

end Flavor

namespace PathStyle

variable (style : PathStyle)

theorem isSeparator_of_isDriveLetter (letter : Char)
    (isLetter : Flavor.isDriveLetter letter = true) :
    style.flavor.isSeparator letter = false := by
  have plain : (style.flavor.separators.all fun separator =>
      !Flavor.isDriveLetter separator) = true := by
    cases style <;> decide
  rw [← Bool.not_eq_true, Flavor.isSeparator_iff_mem]
  intro member
  simpa [isLetter] using List.all_eq_true.mp plain letter member

theorem root_append {root rest : Path} (roots : style.flavor.Roots root rest) :
    style.flavor.root (root ++ rest) = root := by
  rw [Flavor.root, roots.root?_eq style.isSeparator_of_isDriveLetter]
  split
  · next nothing => exact nothing.symm
  · rfl

theorem dropRoot_append {root rest : Path} (roots : style.flavor.Roots root rest) :
    style.flavor.dropRoot (root ++ rest) = rest := by
  rw [Flavor.dropRoot, style.root_append roots, List.drop_left]

theorem isRooted_append {root rest : Path} (roots : style.flavor.Roots root rest) :
    style.flavor.isRooted (root ++ rest) = !root.isEmpty := by
  rw [Flavor.isRooted, style.root_append roots]

theorem roots_root (path : Path) :
    style.flavor.Roots (style.flavor.root path) (style.flavor.dropRoot path) := by
  obtain ⟨root, rest, rfl, roots⟩ := style.flavor.exists_roots path
  rwa [style.root_append roots, style.dropRoot_append roots]

@[simp]
theorem root_append_dropRoot (path : Path) :
    style.flavor.root path ++ style.flavor.dropRoot path = path := by
  obtain ⟨root, rest, rfl, roots⟩ := style.flavor.exists_roots path
  rw [style.root_append roots, style.dropRoot_append roots]

end PathStyle

end FileSpec
