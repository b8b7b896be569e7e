import FileSpec.Proofs.Path.Root
import FileSpec.Proofs.Pattern.Renaming

/-!
# Specifications relative to the root

A specification that begins at the root is compared with what is below the root of a path, whatever
the root is: `accepts_below_any_root`. Two different separators at the front are taken for such a
beginning too, as `isRootRelative_iff` says.
-/

set_option autoImplicit false

namespace FileSpec

open Text

/-- Any directories are at the front, or one separator with no other behind it. -/
inductive BeginsAtRoot (flavor : Flavor) : List Char → Prop where
  | anyDirectories {separator rest} :
      flavor.isSeparator separator = true →
      BeginsAtRoot flavor ('*' :: '*' :: separator :: rest)
  | separator {separator rest} :
      flavor.isSeparator separator = true → flavor.beginsWithSeparator rest = false →
      BeginsAtRoot flavor (separator :: rest)

/-- Two separators of different kinds are at the front. -/
inductive BeginsMixed (flavor : Flavor) : List Char → Prop where
  | separators {first second rest} :
      flavor.isSeparator first = true → flavor.isSeparator second = true → second ≠ first →
      BeginsMixed flavor (first :: second :: rest)

theorem beginsWithAnyDirectories_iff {flavor : Flavor} {specification : List Char} :
    beginsWithAnyDirectories flavor specification = true ↔
      ∃ separator rest, specification = '*' :: '*' :: separator :: rest ∧
        flavor.isSeparator separator = true := by
  constructor
  · intro begins
    unfold beginsWithAnyDirectories at begins
    split at begins
    · exact ⟨_, _, rfl, begins⟩
    · cases begins
  · rintro ⟨separator, rest, rfl, separates⟩
    exact separates

theorem beginsWithOneSeparator_iff {flavor : Flavor} {specification : List Char} :
    beginsWithOneSeparator flavor specification = true ↔
      ∃ separator rest, specification = separator :: rest ∧
        flavor.isSeparator separator = true ∧ rest.head? ≠ some separator := by
  cases specification with
  | nil => simp [beginsWithOneSeparator]
  | cons separator rest => simp [beginsWithOneSeparator]

theorem isRootRelative_iff {flavor : Flavor} {specification : List Char} :
    isRootRelative flavor specification = true ↔
      BeginsAtRoot flavor specification ∨ BeginsMixed flavor specification := by
  rw [isRootRelative, Bool.or_eq_true, beginsWithAnyDirectories_iff, beginsWithOneSeparator_iff]
  constructor
  · rintro (⟨separator, rest, rfl, separates⟩ | ⟨separator, rest, rfl, separates, single⟩)
    · exact .inl (.anyDirectories separates)
    · cases rest with
      | nil => exact .inl (.separator separates rfl)
      | cons second rest =>
          by_cases again : flavor.isSeparator second = true
          · exact .inr (.separators separates again (by simpa using single))
          · exact .inl (.separator separates (by simpa using again))
  · rintro (atRoot | mixed)
    · cases atRoot with
      | anyDirectories separates => exact .inl ⟨_, _, rfl, separates⟩
      | @separator separator rest separates ends =>
          refine .inr ⟨separator, rest, rfl, separates, fun again => ?_⟩
          simp [Flavor.beginsWithSeparator, again, separates] at ends
    · cases mixed with
      | separators separates _ different =>
          exact .inr ⟨_, _, rfl, separates, by simpa using different⟩

/-- What is relative to the root begins with any directories or with a separator. -/
theorem beginsWithSeparator_of_isRootRelative {flavor : Flavor} {specification : List Char}
    (relative : isRootRelative flavor specification = true)
    (notDirectories : ¬ beginsWithAnyDirectories flavor specification = true) :
    flavor.beginsWithSeparator specification = true := by
  rw [isRootRelative, Bool.or_eq_true] at relative
  obtain ⟨separator, rest, rfl, separates, _⟩ :=
    beginsWithOneSeparator_iff.mp (relative.resolve_left notDirectories)
  exact separates

theorem beginsAtRoot_map_iff {flavor : Flavor} {change : Char → Char}
    (keeps : flavor.KeepsMarks change) {specification : List Char} :
    BeginsAtRoot flavor (specification.map change) ↔ BeginsAtRoot flavor specification := by
  constructor
  · intro atRoot
    generalize shape : specification.map change = changed at atRoot
    cases atRoot with
    | anyDirectories separates =>
        obtain ⟨first, rest, rfl, isFirst, shape⟩ := List.map_eq_cons_iff.mp shape
        obtain ⟨second, rest, rfl, isSecond, shape⟩ := List.map_eq_cons_iff.mp shape
        obtain ⟨separator, rest, rfl, rfl, _⟩ := List.map_eq_cons_iff.mp shape
        rw [(keeps.asterisk first).mp isFirst, (keeps.asterisk second).mp isSecond]
        exact .anyDirectories (by rwa [keeps.isSeparator] at separates)
    | separator separates ends =>
        obtain ⟨separator, rest, rfl, rfl, rfl⟩ := List.map_eq_cons_iff.mp shape
        rw [keeps.isSeparator] at separates
        rw [keeps.beginsWithSeparator_map] at ends
        exact .separator separates ends
  · intro atRoot
    cases atRoot with
    | anyDirectories separates =>
        have asterisk : change '*' = '*' := (keeps.asterisk '*').mpr rfl
        rw [List.map_cons, List.map_cons, List.map_cons, asterisk]
        exact .anyDirectories (by rwa [keeps.isSeparator])
    | separator separates ends =>
        exact .separator (by rwa [keeps.isSeparator])
          (by rwa [keeps.beginsWithSeparator_map])

namespace PathStyle

variable (style : PathStyle) (ignoreCase : Bool)

/-- Below the root or as a whole, a path is compared with the tokens of a specification. -/
theorem accepts_matcher (specification : List Char) (path : Path) :
    (style.matcher ignoreCase specification).accepts path =
      if isRootRelative style.flavor specification = true ∧
          style.flavor.isRooted path = true then
        (Token.comparedRegex style.flavor ignoreCase (Token.scan style.flavor
            (specification.dropWhile style.flavor.isSeparator))).isMatch
          ((Matcher.pathBelowRoot style.flavor path).map (comparedAs ignoreCase))
      else
        (Token.comparedRegex style.flavor ignoreCase
            (Token.scan style.flavor specification)).isMatch
          (path.map (comparedAs ignoreCase)) := by
  by_cases relative : isRootRelative style.flavor specification = true
  · by_cases rooted : style.flavor.isRooted path = true <;>
      simp [Matcher.accepts, matcher, relative, rooted]
  · simp [Matcher.accepts, matcher, relative]

variable {style} (noDrives : style.flavor.hasDriveRoots = false)

include noDrives

/-- Without drives, a root is one separator, and all separators behind it are cut off with it. -/
theorem root_of_noDrives (path : Path) :
    style.flavor.isRooted path = style.flavor.beginsWithSeparator path ∧
      Matcher.pathBelowRoot style.flavor path = path.dropWhile style.flavor.isSeparator := by
  obtain ⟨root, rest, rfl, roots⟩ := style.flavor.exists_roots path
  rw [style.isRooted_append roots, Matcher.pathBelowRoot, style.dropRoot_append roots]
  cases roots with
  | relative plain => exact ⟨plain.symm, rfl⟩
  | separator separates =>
      exact ⟨separates.symm, (List.dropWhile_cons_of_pos separates).symm⟩
  | drive drives | driveDirectory drives | server drives | share drives =>
      simp [noDrives] at drives

theorem accepts_of_noDrives (specification : List Char) (path : Path) :
    (style.matcher ignoreCase specification).accepts path =
      if isRootRelative style.flavor specification = true ∧
          style.flavor.beginsWithSeparator path = true then
        (Token.comparedRegex style.flavor ignoreCase (Token.scan style.flavor
            (specification.dropWhile style.flavor.isSeparator))).isMatch
          ((path.dropWhile style.flavor.isSeparator).map (comparedAs ignoreCase))
      else
        (Token.comparedRegex style.flavor ignoreCase
            (Token.scan style.flavor specification)).isMatch
          (path.map (comparedAs ignoreCase)) := by
  obtain ⟨rooted, below⟩ := root_of_noDrives noDrives path
  rw [accepts_matcher, rooted, below]

end PathStyle

namespace Flavor

/-- The ways to root a path where there are drives. -/
inductive RootText (flavor : Flavor) : Path → Prop where
  | drive {letter} : isDriveLetter letter = true → RootText flavor [letter, ':']
  | driveDirectory {letter separator} :
      isDriveLetter letter = true → flavor.isSeparator separator = true →
      RootText flavor [letter, ':', separator]
  | separator {separator} : flavor.isSeparator separator = true → RootText flavor [separator]
  | share {first second server third share fourth} :
      flavor.isSeparator first = true → flavor.isSeparator second = true →
      flavor.IsShareName server → flavor.isSeparator third = true →
      flavor.IsShareName share → flavor.isSeparator fourth = true →
      RootText flavor (first :: second :: (server ++ third :: (share ++ [fourth])))

end Flavor

/-- The root takes nothing of what follows, and at most the last separator is left. -/
theorem isRooted_pathBelowRoot {root tail : Path}
    (isRoot : PathStyle.windows.flavor.RootText root)
    (below : PathStyle.windows.flavor.beginsWithSeparator tail = false) :
    PathStyle.windows.flavor.isRooted (root ++ tail) = true ∧
      Matcher.pathBelowRoot PathStyle.windows.flavor (root ++ tail) = tail := by
  have noRun : ∀ character ∈ ([] : Path),
      PathStyle.windows.flavor.isSeparator character = true := List.forall_mem_nil _
  have tail_kept : tail.dropWhile PathStyle.windows.flavor.isSeparator = tail :=
    Flavor.dropWhile_isSeparator noRun below
  have onlyRoot {whole : Path} (nonempty : whole ≠ [])
      (roots : PathStyle.windows.flavor.Roots whole tail) :
      PathStyle.windows.flavor.isRooted (whole ++ tail) = true ∧
        Matcher.pathBelowRoot PathStyle.windows.flavor (whole ++ tail) = tail := by
    rw [Matcher.pathBelowRoot, PathStyle.isRooted_append _ roots,
      PathStyle.dropRoot_append _ roots]
    exact ⟨by simp [nonempty], tail_kept⟩
  cases isRoot with
  | drive isLetter => exact onlyRoot (by simp) (.drive rfl isLetter below)
  | driveDirectory isLetter separates =>
      exact onlyRoot (by simp) (.driveDirectory rfl isLetter separates)
  | separator separates =>
      exact onlyRoot (by simp) (.separator separates fun _ again => by simp [below] at again)
  | @share first second server third share fourth firstSeparates secondSeparates isServer
      thirdSeparates isShare fourthSeparates =>
      have roots : PathStyle.windows.flavor.Roots (first :: second :: (server ++ third :: share))
          (fourth :: tail) :=
        .share rfl firstSeparates secondSeparates isServer thirdSeparates isShare
          (by simp [fourthSeparates])
      have shape : (first :: second :: (server ++ third :: (share ++ [fourth]))) ++ tail =
          (first :: second :: (server ++ third :: share)) ++ fourth :: tail := by simp
      rw [shape, Matcher.pathBelowRoot, PathStyle.isRooted_append _ roots,
        PathStyle.dropRoot_append _ roots, List.dropWhile_cons_of_pos fourthSeparates]
      exact ⟨rfl, tail_kept⟩

/-- Whatever roots a path, the answer is whether what is below matches the specification without
the separators at its front. -/
theorem accepts_below_any_root (ignoreCase : Bool) {specification : List Char}
    (atRoot : BeginsAtRoot PathStyle.windows.flavor specification) :
    ∃ matcher below,
      Matcher.ofSpecification? PathStyle.windows.flavor ignoreCase specification = some matcher ∧
      Matcher.regex? PathStyle.windows.flavor ignoreCase
        (specification.dropWhile PathStyle.windows.flavor.isSeparator) = some below ∧
      ∀ root tail, PathStyle.windows.flavor.RootText root →
        PathStyle.windows.flavor.beginsWithSeparator tail = false →
        matcher.accepts (root ++ tail) = below.isMatch (tail.map (comparedAs ignoreCase)) := by
  refine ⟨_, _, PathStyle.windows.ofSpecification?_eq ignoreCase specification,
    PathStyle.windows.regex?_eq ignoreCase _, fun root tail isRoot below => ?_⟩
  obtain ⟨rooted, onlyTail⟩ := isRooted_pathBelowRoot isRoot below
  rw [PathStyle.accepts_matcher, if_pos ⟨isRootRelative_iff.mpr (.inl atRoot), rooted⟩, onlyTail]

theorem accepts_below_share_or_drive :
    BeginsAtRoot PathStyle.windows.flavor "\\data/*.TXT".toList ∧
      PathStyle.windows.flavor.RootText "/\\server\\share/".toList ∧
      PathStyle.windows.flavor.RootText "D:".toList ∧
      PathStyle.windows.flavor.beginsWithSeparator "data\\a.txt".toList = false ∧
      ∃ matcher,
        Matcher.ofSpecification? PathStyle.windows.flavor true "\\data/*.TXT".toList =
          some matcher ∧
        matcher.accepts "/\\server\\share/data\\a.txt".toList =
          matcher.accepts "D:data\\a.txt".toList := by
  have atRoot : BeginsAtRoot PathStyle.windows.flavor "\\data/*.TXT".toList :=
    .separator (by decide) (by decide)
  have isServer : PathStyle.windows.flavor.IsShareName "server".toList := by decide
  have isShare : PathStyle.windows.flavor.IsShareName "share".toList := by decide
  have share : PathStyle.windows.flavor.RootText "/\\server\\share/".toList :=
    .share (by decide) (by decide) isServer (by decide) isShare (by decide)
  have drive : PathStyle.windows.flavor.RootText "D:".toList := .drive (by decide)
  have below : PathStyle.windows.flavor.beginsWithSeparator "data\\a.txt".toList = false := by
    decide
  obtain ⟨matcher, _, found, _, same⟩ := accepts_below_any_root true atRoot
  exact ⟨atRoot, share, drive, below, matcher, found,
    (same _ _ share below).trans (same _ _ drive below).symm⟩

end FileSpec
