import FileSpec.Path.Validity
import FileSpec.Proofs.Path.Components

/-!
# Repaired paths

A path is repaired character by character, and only a first piece that names a volume stays as it
is: `validPath_eq_append`. All that is not kept in this way is legal afterwards, so a second repair
finds nothing to do, and what can still be wrong with a repaired path is wrong with the front that
was kept: `validPath_accepted_iff`.
-/

set_option autoImplicit false

namespace FileSpec

open Text

theorem Text.intercalate_append_cons (separator front text : List Char) (others : List (List Char)) :
    separator.intercalate ((front ++ text) :: others) =
      front ++ separator.intercalate (text :: others) := by
  cases others <;> simp

namespace Flavor

variable (flavor : Flavor)

/-- What is in front of the first separator of a path. -/
def firstPiece (path : Path) : Path :=
  path.takeWhile fun character => !flavor.isSeparator character

/-- A volume separator stands behind the first character of a piece that does not begin with one. -/
def HoldsVolume (piece : Path) : Prop :=
  flavor.isSeparator flavor.volumeSeparator = false ∧
    flavor.volumeSeparator ∈ piece.tail ∧ piece.head? ≠ some flavor.volumeSeparator

theorem namesVolume_iff (piece : Path) :
    flavor.namesVolume piece = true ↔ flavor.HoldsVolume piece := by
  cases piece with
  | nil => simp [namesVolume, HoldsVolume]
  | cons first rest =>
      simp only [namesVolume, HoldsVolume, Bool.and_eq_true, Bool.not_eq_true', List.head?_cons,
        Option.any_some, beq_eq_false_iff_ne, List.contains_iff_mem, List.mem_cons, List.tail_cons,
        ne_eq, Option.some.injEq]
      constructor
      · rintro ⟨⟨plain, different⟩, rfl | later⟩
        · exact absurd rfl different
        · exact ⟨plain, later, different⟩
      · rintro ⟨plain, later, different⟩
        exact ⟨⟨plain, different⟩, .inr later⟩

instance (piece : Path) : Decidable (flavor.HoldsVolume piece) :=
  decidable_of_iff _ (flavor.namesVolume_iff piece)

/-- The front of a path that no repair changes. -/
def keptFront (path : Path) : Path :=
  if flavor.HoldsVolume (flavor.firstPiece path) then flavor.firstPiece path else []

/-- What a repair puts in the place of a character. -/
def repaired (replacement : Path) (character : Char) : Path :=
  if flavor.isSeparator character then [flavor.separator]
  else if character ∈ flavor.invalidNameChars then replacement
  else [character]

variable {flavor} {replacement : Path}

theorem pieces_eq_splitOnP (text : Path) :
    flavor.pieces text = text.splitOnP flavor.isSeparator := by
  induction text with
  | nil => rfl
  | cons first rest inductionHypothesis =>
      obtain ⟨piece, others, found⟩ :=
        List.exists_cons_of_ne_nil (flavor.pieces_ne_nil rest)
      rw [List.splitOnP_cons_eq_if_modifyHead, ← inductionHypothesis]
      by_cases separates : flavor.isSeparator first = true
      · rw [if_pos separates, pieces_separator separates]
      · rw [if_neg separates, pieces_cons (by simpa using separates) found, found,
          List.modifyHead_cons]

theorem flatMap_splitOn (first second : Char) (text : List Char) :
    (text.splitOn first).flatMap (List.splitOn second) =
      text.splitOnP fun character => character == first || character == second := by
  induction text with
  | nil => rfl
  | cons character rest inductionHypothesis =>
      rw [List.splitOnP_cons_eq_if_modifyHead, List.splitOn_cons_eq_if_modifyHead,
        ← inductionHypothesis]
      obtain ⟨piece, others, found⟩ := List.exists_cons_of_ne_nil (List.splitOn_ne_nil first rest)
      by_cases isFirst : (character == first) = true
      · rw [if_pos isFirst, if_pos (by simp [isFirst])]
        rfl
      · obtain ⟨part, parts, foundPart⟩ :=
          List.exists_cons_of_ne_nil (List.splitOn_ne_nil second piece)
        rw [if_neg isFirst, found, List.modifyHead_cons, List.flatMap_cons, List.flatMap_cons,
          List.splitOn_cons_eq_if_modifyHead, foundPart]
        by_cases isSecond : (character == second) = true <;> simp [isSecond, isFirst]

/-- The pieces of a path are what splitting it at one separator after the other leaves. -/
theorem pieces_eq_foldl_splitOn (text : Path) :
    flavor.pieces text =
      flavor.separators.foldl (fun pieces separator => pieces.flatMap (List.splitOn separator))
        [text] := by
  rw [pieces_eq_splitOnP]
  by_cases same : flavor.altSeparator = flavor.separator
  · have single : flavor.isSeparator = fun character => character == flavor.separator := by
      funext character
      simp [isSeparator, same]
    simp [separators, same, single, List.splitOn_eq_splitOnP]
  · have both : flavor.isSeparator = fun character =>
        character == flavor.separator || character == flavor.altSeparator := rfl
    simp [separators, same, both, flatMap_splitOn]

theorem flatMap_repaired_of_plain {name : Path}
    (plain : ∀ character ∈ name, flavor.isSeparator character = false) :
    name.flatMap (flavor.repaired replacement) = flavor.validName replacement name := by
  apply List.flatMap_congr
  intro character member
  simp [repaired, plain character member]

/-- Legal names that are joined again are what the characters one after the other become. -/
theorem intercalate_pieces (text : Path) :
    [flavor.separator].intercalate ((flavor.pieces text).map (flavor.validName replacement)) =
      text.flatMap (flavor.repaired replacement) := by
  induction text with
  | nil => simp [pieces, validName]
  | cons first rest inductionHypothesis =>
      by_cases separates : flavor.isSeparator first = true
      · rw [pieces_separator separates, List.map_cons,
          List.intercalate_cons_of_ne_nil (by simp),
          inductionHypothesis]
        simp [validName, repaired, separates]
      · have plain : flavor.isSeparator first = false := by simpa using separates
        obtain ⟨piece, others, found⟩ := List.exists_cons_of_ne_nil (pieces_ne_nil rest)
        have repairedFirst : flavor.validName replacement (first :: piece) =
            flavor.repaired replacement first ++ flavor.validName replacement piece := by
          simp [validName, repaired, plain]
        rw [pieces_cons plain found, List.flatMap_cons, ← inductionHypothesis, found,
          List.map_cons, List.map_cons, repairedFirst, intercalate_append_cons]

theorem firstPiece_append {name rest : Path}
    (plain : ∀ character ∈ name, flavor.isSeparator character = false)
    (ends : flavor.beginsWithName rest = false) : flavor.firstPiece (name ++ rest) = name :=
  takeWhile_not_isSeparator plain ends

theorem firstPiece_plain (path : Path) :
    ∀ character ∈ flavor.firstPiece path, flavor.isSeparator character = false := by
  intro character member
  simpa using List.all_eq_true.mp List.all_takeWhile character member

/-- Behind its first piece a path ends or goes on with a separator. -/
theorem exists_firstPiece (flavor : Flavor) (path : Path) :
    ∃ name rest, path = name ++ rest ∧
      (∀ character ∈ name, flavor.isSeparator character = false) ∧
      flavor.beginsWithName rest = false :=
  ⟨flavor.firstPiece path, path.dropWhile fun character => !flavor.isSeparator character,
    List.takeWhile_append_dropWhile.symm, firstPiece_plain path, beginsWithName_dropWhile path⟩

theorem keptFront_plain (path : Path) :
    ∀ character ∈ flavor.keptFront path, flavor.isSeparator character = false := by
  unfold keptFront
  split
  · exact firstPiece_plain path
  · exact List.forall_mem_nil _

theorem keptFront_append {name rest : Path}
    (plain : ∀ character ∈ name, flavor.isSeparator character = false)
    (ends : flavor.beginsWithName rest = false) :
    flavor.keptFront (name ++ rest) = if flavor.HoldsVolume name then name else [] := by
  rw [keptFront, firstPiece_append plain ends]

theorem validPath_append {name rest : Path}
    (plain : ∀ character ∈ name, flavor.isSeparator character = false)
    (ends : flavor.beginsWithName rest = false) :
    flavor.validPath replacement (name ++ rest) =
      (if flavor.HoldsVolume name then name else flavor.validName replacement name) ++
        rest.flatMap (flavor.repaired replacement) := by
  cases rest with
  | nil => simp [validPath, pieces_of_plain plain, namesVolume_iff]
  | cons separator rest =>
      have separates : flavor.isSeparator separator = true := by simpa using ends
      simp only [validPath, pieces_append_separator separates, pieces_of_plain plain,
        List.singleton_append, namesVolume_iff]
      rw [List.intercalate_cons_of_ne_nil (by simp),
        intercalate_pieces, List.flatMap_cons, repaired, if_pos separates, List.append_assoc]

/-- Behind a front that is kept each character is repaired by itself. -/
theorem validPath_eq_append (path : Path) :
    flavor.validPath replacement path =
      flavor.keptFront path ++
        (path.drop (flavor.keptFront path).length).flatMap (flavor.repaired replacement) := by
  obtain ⟨name, rest, rfl, plain, ends⟩ := flavor.exists_firstPiece path
  rw [validPath_append plain ends, keptFront_append plain ends]
  by_cases kept : flavor.HoldsVolume name
  · rw [if_pos kept, if_pos kept, List.drop_left]
  · rw [if_neg kept, if_neg kept, ← flatMap_repaired_of_plain plain, ← List.flatMap_append]
    rfl

theorem beginsWithName_flatMap_repaired {rest : Path} (ends : flavor.beginsWithName rest = false) :
    flavor.beginsWithName (rest.flatMap (flavor.repaired replacement)) = false := by
  cases rest with
  | nil => rfl
  | cons separator rest =>
      have separates : flavor.isSeparator separator = true := by simpa using ends
      simp [repaired, separates]

section Legal

variable (legal : ∀ character ∈ replacement, character ∉ flavor.invalidNameChars)
include legal

theorem legal_of_mem_validName {name : Path} :
    ∀ character ∈ flavor.validName replacement name, character ∉ flavor.invalidNameChars := by
  intro character member
  obtain ⟨source, -, member⟩ := List.mem_flatMap.mp member
  split at member
  · exact legal character member
  · next valid =>
      rw [List.mem_singleton.mp member]
      simpa using valid

theorem legal_of_mem_flatMap_repaired {text : Path} {character : Char}
    (member : character ∈ text.flatMap (flavor.repaired replacement))
    (plain : flavor.isSeparator character = false) : character ∉ flavor.invalidNameChars := by
  obtain ⟨source, -, member⟩ := List.mem_flatMap.mp member
  unfold repaired at member
  split at member
  · rw [List.mem_singleton.mp member, isSeparator_separator] at plain
    exact absurd plain Bool.true_eq_false.mp
  split at member
  · exact legal character member
  · next valid => rwa [List.mem_singleton.mp member]

end Legal

theorem validName_of_legal {name : Path}
    (legal : ∀ character ∈ name, character ∉ flavor.invalidNameChars) :
    flavor.validName replacement name = name := by
  calc
    flavor.validName replacement name = name.flatMap fun character => [character] := by
      apply List.flatMap_congr
      intro character member
      rw [if_neg (by simpa using legal character member)]
    _ = name := List.flatMap_singleton' name

theorem flatMap_repaired_flatMap_repaired (separates : flavor.SeparatesNames)
    (legal : ∀ character ∈ replacement, character ∉ flavor.invalidNameChars) (text : Path) :
    (text.flatMap (flavor.repaired replacement)).flatMap (flavor.repaired replacement) =
      text.flatMap (flavor.repaired replacement) := by
  have unchanged : ∀ {name : Path}, (∀ character ∈ name, character ∉ flavor.invalidNameChars) →
      name.flatMap (flavor.repaired replacement) = name := by
    intro name legalName
    rw [flatMap_repaired_of_plain fun character member =>
      separates.not_isSeparator (legalName character member), validName_of_legal legalName]
  rw [List.flatMap_assoc]
  apply List.flatMap_congr
  intro character _
  unfold repaired
  split
  · simp
  split
  · exact unchanged legal
  · next valid => exact unchanged (by simpa using valid)

end Flavor

namespace PathStyle

variable (style : PathStyle) {replacement : Path}

theorem not_holdsVolume_of_legal {name : Path}
    (legal : ∀ character ∈ name, character ∉ style.flavor.invalidNameChars) :
    ¬ style.flavor.HoldsVolume name := by
  rintro ⟨plain, later, -⟩
  have invalid : style.flavor.isSeparator style.flavor.volumeSeparator = false →
      style.flavor.volumeSeparator ∈ style.flavor.invalidNameChars := by
    cases style <;> decide
  exact legal _ (List.mem_of_mem_tail later) (invalid plain)

theorem validPath_validPath
    (legal : ∀ character ∈ replacement, character ∉ style.flavor.invalidNameChars) (path : Path) :
    style.flavor.validPath replacement (style.flavor.validPath replacement path) =
      style.flavor.validPath replacement path := by
  obtain ⟨name, rest, rfl, plain, ends⟩ := style.flavor.exists_firstPiece path
  have endsAgain : style.flavor.beginsWithName
      (rest.flatMap (style.flavor.repaired replacement)) = false :=
    Flavor.beginsWithName_flatMap_repaired ends
  have restAgain :=
    Flavor.flatMap_repaired_flatMap_repaired style.separatesNames legal rest
  rw [Flavor.validPath_append plain ends]
  by_cases kept : style.flavor.HoldsVolume name
  · rw [if_pos kept, Flavor.validPath_append plain endsAgain, if_pos kept, restAgain]
  · have legalName : ∀ character ∈ style.flavor.validName replacement name,
        character ∉ style.flavor.invalidNameChars := Flavor.legal_of_mem_validName legal
    have plainName : ∀ character ∈ style.flavor.validName replacement name,
        style.flavor.isSeparator character = false := fun character member =>
      style.separatesNames.not_isSeparator (legalName character member)
    rw [if_neg kept, Flavor.validPath_append plainName endsAgain,
      if_neg (style.not_holdsVolume_of_legal legalName), Flavor.validName_of_legal legalName,
      restAgain]

theorem underscore_legal :
    ∀ character ∈ "_".toList, character ∉ windows.flavor.invalidNameChars :=
  List.forall_mem_singleton.mpr (by decide)

/--
The pieces that splitting at one separator after the other leaves are repaired and joined so that
each character gets its own image, behind a first piece that is kept because a volume separator
stands behind its first character and none at its front. A legal replacement leaves nothing to
repair.
-/
theorem validPath_by_characters (replacement path : Path) :
    style.flavor.pieces path =
      style.flavor.separators.foldl
        (fun pieces separator => pieces.flatMap (List.splitOn separator)) [path] ∧
    style.flavor.validPath replacement path =
      style.flavor.keptFront path ++
        (path.drop (style.flavor.keptFront path).length).flatMap
          (style.flavor.repaired replacement) ∧
    ((∀ character ∈ replacement, character ∉ style.flavor.invalidNameChars) →
      style.flavor.validPath replacement (style.flavor.validPath replacement path) =
        style.flavor.validPath replacement path) :=
  ⟨Flavor.pieces_eq_foldl_splitOn path, Flavor.validPath_eq_append path,
    fun legal => style.validPath_validPath legal path⟩

theorem validPath_by_characters_drive :
    (∀ character ∈ "_".toList, character ∉ windows.flavor.invalidNameChars) ∧
      windows.flavor.keptFront "C:/my:dir//fi?le".toList = "C:".toList ∧
      windows.flavor.validPath "_".toList "C:/my:dir//fi?le".toList =
        "C:\\my_dir\\\\fi_le".toList ∧
      windows.flavor.validPath "_".toList "C:\\my_dir\\\\fi_le".toList =
        "C:\\my_dir\\\\fi_le".toList := by
  obtain ⟨-, image, again⟩ := windows.validPath_by_characters "_".toList "C:/my:dir//fi?le".toList
  have repaired : windows.flavor.validPath "_".toList "C:/my:dir//fi?le".toList =
      "C:\\my_dir\\\\fi_le".toList := by
    rw [image]
    decide
  refine ⟨underscore_legal, by decide, repaired, ?_⟩
  simpa only [repaired] using again underscore_legal

/-- A piece that begins with a volume separator is repaired, also if another one follows in it. -/
theorem leading_volume_separator_replaced :
    windows.flavor.isSeparator windows.flavor.volumeSeparator = false ∧
      windows.flavor.firstPiece ":a:b".toList = ":a:b".toList ∧
      windows.flavor.volumeSeparator ∈ (":a:b".toList).tail ∧
      windows.flavor.validPath "_".toList ":a:b".toList = "_a_b".toList := by
  decide

end PathStyle

namespace Flavor

/-- A path without the letter and the colon of a drive at its front. -/
def withoutDrive : Path → Path
  | letter :: ':' :: rest => if isDriveLetter letter then rest else letter :: ':' :: rest
  | path => path

theorem withoutDrive_subset (path : Path) : withoutDrive path ⊆ path := by
  unfold withoutDrive
  split
  · split
    · exact List.subset_cons_of_subset _ (List.subset_cons_self _ _)
    · exact List.Subset.refl _
  · exact List.Subset.refl _

/-- A text of two characters tells whether there is a drive at the front. -/
theorem withoutDrive_append (first second : Char) (front rest : Path) :
    withoutDrive (first :: second :: front ++ rest) =
      withoutDrive (first :: second :: front) ++ rest := by
  by_cases colon : second = ':'
  · subst colon
    by_cases isLetter : isDriveLetter first = true <;> simp [withoutDrive, isLetter]
  · simp [withoutDrive, colon]

variable {flavor : Flavor} {replacement : Path}

theorem validatePath_eq_ok_iff (path : Path) :
    flavor.validatePath (some path) = .ok () ↔
      isBlank path = false ∧ ∀ character ∈ path, character ∉ flavor.invalidPathChars := by
  have nothingFound : charactersIn flavor.invalidPathChars path = [] ↔
      ∀ character ∈ path, character ∉ flavor.invalidPathChars := by
    simp [charactersIn, List.eq_nil_iff_forall_not_mem, List.mem_eraseDups]
  simp only [validatePath, List.isEmpty_iff, nothingFound]
  by_cases blank : isBlank path = true
  · simp [blank]
  by_cases valid : ∀ character ∈ path, character ∉ flavor.invalidPathChars
  · rw [if_neg blank, if_pos valid]
    exact ⟨fun _ => ⟨by simpa using blank, valid⟩, fun _ => rfl⟩
  · rw [if_neg blank, if_neg valid]
    simp [valid]

/-- A front that is kept has at least two characters. -/
theorem withoutDrive_keptFront_append {path : Path} (kept : flavor.keptFront path ≠ [])
    (rest : Path) :
    withoutDrive (flavor.keptFront path ++ rest) =
      withoutDrive (flavor.keptFront path) ++ rest := by
  by_cases volume : flavor.HoldsVolume (flavor.firstPiece path)
  · have later := volume.2.1
    rw [keptFront, if_pos volume]
    generalize flavor.firstPiece path = name at later
    match name, later with
    | first :: second :: front, _ => exact withoutDrive_append first second front rest
  · rw [keptFront, if_neg volume] at kept
    exact absurd rfl kept

end Flavor

namespace PathStyle

variable (style : PathStyle) {replacement : Path}

theorem legal_of_invalidPathChars {character : Char}
    (invalid : character ∈ style.flavor.invalidPathChars) :
    character ∈ style.flavor.invalidNameChars ∧ style.flavor.isSeparator character = false := by
  have all : (style.flavor.invalidPathChars.all fun character =>
      style.flavor.invalidNameChars.contains character &&
        !style.flavor.isSeparator character) = true := by
    cases style <;> decide
  simpa using List.all_eq_true.mp all character invalid

section Legal

variable (legal : ∀ character ∈ replacement, character ∉ style.flavor.invalidNameChars)
include legal

theorem validatePath_validPath_iff (path : Path) :
    style.flavor.validatePath (some (style.flavor.validPath replacement path)) = .ok () ↔
      isBlank (style.flavor.validPath replacement path) = false ∧
        ∀ character ∈ style.flavor.keptFront path,
          character ∉ style.flavor.invalidPathChars := by
  rw [Flavor.validatePath_eq_ok_iff, Flavor.validPath_eq_append, List.forall_mem_append]
  refine and_congr_right fun _ => and_iff_left ?_
  intro character member invalid
  obtain ⟨invalidInName, plain⟩ := style.legal_of_invalidPathChars invalid
  exact Flavor.legal_of_mem_flatMap_repaired legal member plain invalidInName

theorem validPath_legal_iff (path : Path) :
    (∀ character ∈ Flavor.withoutDrive (style.flavor.validPath replacement path),
        style.flavor.isSeparator character = false →
          character ∉ style.flavor.invalidNameChars) ↔
      ∀ character ∈ Flavor.withoutDrive (style.flavor.keptFront path),
        character ∉ style.flavor.invalidNameChars := by
  rw [Flavor.validPath_eq_append]
  by_cases kept : style.flavor.keptFront path = []
  · rw [kept, List.nil_append]
    refine ⟨fun _ character member => absurd member List.not_mem_nil, ?_⟩
    intro _ character member plain
    exact Flavor.legal_of_mem_flatMap_repaired legal (Flavor.withoutDrive_subset _ member) plain
  · rw [Flavor.withoutDrive_keptFront_append kept, List.forall_mem_append]
    constructor
    · intro legalPath character member
      apply legalPath.1 character member
      exact Flavor.keptFront_plain path character (Flavor.withoutDrive_subset _ member)
    · intro legalFront
      exact ⟨fun character member _ => legalFront character member,
        fun character member plain => Flavor.legal_of_mem_flatMap_repaired legal member plain⟩

end Legal

/--
A path that is repaired with legal characters and is not blank is accepted exactly if the front
that was kept holds no invalid path character. Its characters other than separators and a drive at
the front are legal exactly if those of that front behind such a drive are.
-/
theorem validPath_accepted_iff {replacement : Path}
    (legal : ∀ character ∈ replacement, character ∉ windows.flavor.invalidNameChars)
    (path : Path) :
    (windows.flavor.validatePath (some (windows.flavor.validPath replacement path)) = .ok () ↔
        isBlank (windows.flavor.validPath replacement path) = false ∧
          ∀ character ∈ windows.flavor.keptFront path,
            character ∉ windows.flavor.invalidPathChars) ∧
      ((∀ character ∈ Flavor.withoutDrive (windows.flavor.validPath replacement path),
          windows.flavor.isSeparator character = false →
            character ∉ windows.flavor.invalidNameChars) ↔
        ∀ character ∈ Flavor.withoutDrive (windows.flavor.keptFront path),
          character ∉ windows.flavor.invalidNameChars) :=
  ⟨windows.validatePath_validPath_iff legal path, windows.validPath_legal_iff legal path⟩

/-- A drive is kept without harm, but so is a second colon behind it. -/
theorem validPath_accepted_iff_drive :
    (∀ character ∈ "_".toList, character ∉ windows.flavor.invalidNameChars) ∧
      windows.flavor.keptFront "C:a:b/c|d".toList = "C:a:b".toList ∧
      windows.flavor.validatePath
        (some (windows.flavor.validPath "_".toList "C:a:b/c|d".toList)) = .ok () ∧
      ¬ ∀ character ∈
          Flavor.withoutDrive (windows.flavor.validPath "_".toList "C:a:b/c|d".toList),
        windows.flavor.isSeparator character = false →
          character ∉ windows.flavor.invalidNameChars := by
  obtain ⟨accepted, legalBehind⟩ := validPath_accepted_iff underscore_legal "C:a:b/c|d".toList
  have kept : windows.flavor.keptFront "C:a:b/c|d".toList = "C:a:b".toList := by decide
  have validFront : ∀ character ∈ "C:a:b".toList,
      character ∉ windows.flavor.invalidPathChars := by
    simpa using (by decide : ("C:a:b".toList.all fun character =>
      !windows.flavor.invalidPathChars.contains character) = true)
  refine ⟨underscore_legal, kept, accepted.mpr ⟨by decide, kept ▸ validFront⟩, ?_⟩
  intro allLegal
  exact legalBehind.mp allLegal ':' (by decide) (by decide)

/-- What stands in front of a colon is kept even if it is no drive and cannot be in a path. -/
theorem illegal_volume_kept :
    (∀ character ∈ "_".toList, character ∉ windows.flavor.invalidNameChars) ∧
      windows.flavor.validPath "_".toList "a|:b".toList = "a|:b".toList ∧
      isBlank "a|:b".toList = false ∧
      windows.flavor.validatePath (some "a|:b".toList) =
        .error (.invalidCharacters "a|:b".toList ['|']) ∧
      '|' ∈ Flavor.withoutDrive "a|:b".toList ∧ windows.flavor.isSeparator '|' = false ∧
      '|' ∈ windows.flavor.invalidNameChars :=
  ⟨underscore_legal, by decide, by decide, rfl, by decide, by decide, by decide⟩

end PathStyle

end FileSpec
