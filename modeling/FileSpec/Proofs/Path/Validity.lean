import FileSpec.Path.Validity
import FileSpec.Proofs.Path.Components
import Mathlib.Data.List.DropRight

/-!
# Valid names and the components of a path

The examination of a path goes from component to component towards the root. In each it looks at
the name only, which begins behind a colon, and it takes a blank name for the end of the root:
`legal_of_isValidName`. What it passes over is what these two rules hide, and nothing else. Where
there are no drives it can refuse a directory for a NUL only: `isValidName_posix_iff`.
-/

set_option autoImplicit false

namespace FileSpec

open Text

namespace Flavor

variable {flavor : Flavor}

/-- What one step of the examination asks for. -/
theorem isValidName_iff (path : Path) :
    flavor.isValidName path = true ↔
      isBlank path = false ∧ isBlank (flavor.fileName path) = false ∧
      (∀ character ∈ flavor.fileName path, character ∉ flavor.invalidNameChars) ∧
      ∀ directory, flavor.parent? path = some directory → isBlank directory = true ∨
        ((∀ character ∈ directory, character ∉ flavor.invalidPathChars) ∧
          (isBlank (flavor.fileName directory) = true ∨
            flavor.isValidName directory = true)) := by
  rw [isValidName]
  split
  · next refused =>
      simp only [Bool.or_eq_true, List.any_eq_true, List.contains_iff_mem] at refused
      simp only [Bool.false_eq_true, false_iff]
      rintro ⟨notBlank, named, legal, _⟩
      rcases refused with (blank | blankName) | ⟨character, member, invalid⟩
      · simp [blank] at notBlank
      · simp [blankName] at named
      · exact legal character member invalid
  · next examined =>
      have ⟨⟨notBlank, named⟩, legal⟩ :
          (isBlank path = false ∧ isBlank (flavor.fileName path) = false) ∧
            ∀ character ∈ flavor.fileName path, character ∉ flavor.invalidNameChars := by
        simpa using examined
      rw [and_iff_right notBlank, and_iff_right named, and_iff_right legal]
      split
      · next above => simp [above]
      · next directory above =>
          simp only [above, Option.some.injEq, forall_eq']
          by_cases blank : isBlank directory = true
          · simp [blank]
          by_cases invalid : directory.any flavor.invalidPathChars.contains = true
          · simp only [blank, invalid, if_true, if_false, Bool.false_eq_true, false_or, false_iff]
            rintro ⟨valid, _⟩
            obtain ⟨character, member, isInvalid⟩ := List.any_eq_true.mp invalid
            exact valid character member (List.contains_iff_mem.mp isInvalid)
          · have valid : ∀ character ∈ directory, character ∉ flavor.invalidPathChars := by
              simpa using invalid
            by_cases blankName : isBlank (flavor.fileName directory) = true <;>
              simp [blank, invalid, blankName, and_iff_right valid]

end Flavor

theorem Text.isBlank_of_subset {text whole : List Char} (included : text ⊆ whole)
    (blank : isBlank whole = true) : isBlank text = true := by
  rw [isBlank, List.all_eq_true] at blank ⊢
  exact fun character member => blank character (included member)

namespace PathStyle

variable (style : PathStyle)

/-- Components whose name is looked at: those behind the last one with a blank name. -/
def examined (path : Path) : List Path :=
  (style.flavor.components path).rtakeWhile fun component =>
    !isBlank (style.flavor.fileName component)

/-- Nothing above a blank directory, or one with a blank name, is looked at. -/
theorem examined_eq_nil {directory : Path}
    (ends : style.flavor.endsWithSeparator (style.flavor.dropRoot directory) = false)
    (blank : isBlank directory = true ∨ isBlank (style.flavor.fileName directory) = true) :
    style.examined directory = [] := by
  rcases (style.flavor.components directory).eq_nil_or_concat' with nothing | ⟨others, last, parts⟩
  · rw [examined, nothing, List.rtakeWhile_nil]
  · have isLast : (style.flavor.components directory).getLast? = some last := by simp [parts]
    have isComponent : last ∈ style.flavor.components directory := by simp [parts]
    have blankName : isBlank (style.flavor.fileName last) = true := by
      rcases blank with blank | blank
      · refine isBlank_of_subset (fun character member => ?_) blank
        have inLast := List.takeWhile_subset _ (List.mem_reverse.mp member)
        exact ((Flavor.mem_of_mem_components isComponent).2 character
          (List.mem_reverse.mp inLast)).1
      · rwa [← style.fileName_eq_of_getLast? ends isLast]
    rw [examined, parts, List.rtakeWhile_concat_neg _ _ _ (by simp [blankName])]

theorem legal_of_isValidName {path : Path} (valid : style.flavor.isValidName path = true) :
    ∀ component ∈ style.examined path,
      style.flavor.IsLegalName (style.flavor.fileName component) := by
  induction bound : path.length using Nat.strongRecOn generalizing path with
  | ind length inductionHypothesis =>
      subst bound
      obtain ⟨_, blankName, legal, directories⟩ := (Flavor.isValidName_iff path).mp valid
      by_cases inside : style.flavor.dropRoot path = []
      · simp [examined, Flavor.components, inside, Flavor.namesIn, Flavor.pieces]
      have named : style.flavor.fileName path ≠ [] := by
        intro nothing
        simp [nothing, isBlank] at blankName
      obtain ⟨directory, last, above, parts, sameName, ends⟩ := style.exists_parent inside named
      rw [examined, parts, List.rtakeWhile_concat_pos _ _ _ (by simp [← sameName, blankName])]
      intro component member
      rcases List.mem_append.mp member with member | member
      · -- The directory is examined in the same way, or nothing in it is looked at.
        rcases directories directory above with blank | ⟨_, blank | validDirectory⟩
        · rw [← examined, style.examined_eq_nil ends (.inl blank)] at member
          simp at member
        · rw [← examined, style.examined_eq_nil ends (.inr blank)] at member
          simp at member
        · have shorter := style.flavor.parent?_length_lt path directory above
          exact inductionHypothesis _ shorter validDirectory rfl component member
      · rw [List.mem_singleton.mp member, ← sameName]
        exact ⟨named, legal⟩

theorem fileName_eq_self {component : Path}
    (plain : ∀ character ∈ component, style.flavor.isNameDelimiter character = false) :
    style.flavor.fileName component = component :=
  afterLast_of_plain plain

end PathStyle

/-- In an accepted path the names that are examined are legal. Its components are then all legal
exactly when none of them is blank or holds a colon. -/
theorem components_legal_iff {path : Path}
    (valid : PathStyle.windows.flavor.isValidName path = true) :
    (∀ component ∈ PathStyle.windows.examined path,
        PathStyle.windows.flavor.IsLegalName (PathStyle.windows.flavor.fileName component)) ∧
      ((∀ component ∈ PathStyle.windows.flavor.components path, isBlank component = false ∧
          ∀ character ∈ component, character ∉ PathStyle.windows.flavor.invalidNameChars) ↔
        ∀ component ∈ PathStyle.windows.flavor.components path,
          isBlank component = false ∧ ':' ∉ component) := by
  have examinedLegal := PathStyle.windows.legal_of_isValidName valid
  refine ⟨examinedLegal, ?_, ?_⟩
  · intro legal component isComponent
    obtain ⟨notBlank, legalComponent⟩ := legal component isComponent
    exact ⟨notBlank, fun member => legalComponent ':' member (by decide)⟩
  · intro plain
    have whole : ∀ component ∈ PathStyle.windows.flavor.components path,
        PathStyle.windows.flavor.fileName component = component := by
      intro component isComponent
      apply PathStyle.fileName_eq_self
      intro character member
      have noSeparator := ((Flavor.mem_of_mem_components isComponent).2 character member).2
      have noColon : character ≠ ':' := by
        rintro rfl
        exact (plain component isComponent).2 member
      have volume : PathStyle.windows.flavor.volumeSeparator = ':' := rfl
      simp [Flavor.isNameDelimiter, noSeparator, volume, noColon]
    have all : PathStyle.windows.examined path = PathStyle.windows.flavor.components path := by
      apply List.rtakeWhile_eq_self_iff.mpr
      intro component isComponent
      simp [whole component isComponent, (plain component isComponent).1]
    intro component isComponent
    have legal := examinedLegal component (by rw [all]; exact isComponent)
    rw [whole component isComponent] at legal
    exact ⟨(plain component isComponent).1, legal.2⟩

theorem components_legal_iff_plain :
    PathStyle.windows.flavor.isValidName "C:\\my data/a.txt".toList = true ∧
      ∀ component ∈ PathStyle.windows.flavor.components "C:\\my data/a.txt".toList,
        isBlank component = false ∧
          ∀ character ∈ component, character ∉ PathStyle.windows.flavor.invalidNameChars :=
  ⟨by decide +kernel, (components_legal_iff (by decide +kernel)).2.mpr (by decide +kernel)⟩

/-- A blank directory hides those above it, and a colon hides what is in front of it. -/
theorem illegal_components_hidden :
    (PathStyle.windows.flavor.isValidName "a?\\ \\b".toList = true ∧
        PathStyle.windows.flavor.components "a?\\ \\b".toList =
          ["a?".toList, " ".toList, "b".toList]) ∧
      (PathStyle.windows.flavor.isValidName "x\\a?:b".toList = true ∧
        PathStyle.windows.flavor.components "x\\a?:b".toList =
          ["x".toList, "a?:b".toList]) ∧
      isBlank " ".toList = true ∧ '?' ∈ PathStyle.windows.flavor.invalidNameChars := by
  decide +kernel

namespace PathStyle

theorem noInvalidPathChars_posix {path : Path} (noNul : '\x00' ∉ path) :
    ∀ character ∈ path, character ∉ posix.flavor.invalidPathChars := by
  rintro character member invalid
  obtain rfl : character = '\x00' := List.mem_singleton.mp invalid
  exact noNul member

theorem isValidName_of_named_posix {path : Path} (noNul : '\x00' ∉ path)
    (named : isBlank (posix.flavor.fileName path) = false) :
    posix.flavor.isValidName path = true := by
  induction bound : path.length using Nat.strongRecOn generalizing path with
  | ind length inductionHypothesis =>
      subst bound
      have suffix := afterLast_isSuffix posix.flavor.isNameDelimiter path
      rw [Flavor.isValidName_iff]
      refine ⟨?_, named, ?_, ?_⟩
      · rw [← Bool.not_eq_true] at named ⊢
        exact mt (isBlank_of_subset suffix.subset) named
      · intro character member invalid
        rcases List.mem_cons.mp invalid with rfl | isSlash
        · exact noNul (suffix.subset member)
        · have plain := isSeparator_of_mem_fileName_posix character member
          rw [List.mem_singleton.mp isSlash] at plain
          exact absurd plain (by decide)
      · intro directory above
        right
        have included := (posix.parent?_isPrefix above).subset
        have noNulAbove : '\x00' ∉ directory := fun member => noNul (included member)
        refine ⟨noInvalidPathChars_posix noNulAbove, ?_⟩
        by_cases blank : isBlank (posix.flavor.fileName directory) = true
        · exact .inl blank
        · have shorter := posix.flavor.parent?_length_lt path directory above
          exact .inr (inductionHypothesis _ shorter noNulAbove (by simpa using blank) rfl)

theorem noNul_of_isValidName_posix {path : Path}
    (valid : posix.flavor.isValidName path = true) : '\x00' ∉ path := by
  obtain ⟨-, named, legal, directories⟩ := (Flavor.isValidName_iff path).mp valid
  have nonempty : posix.flavor.fileName path ≠ [] := by
    intro nothing
    simp [nothing, isBlank] at named
  obtain ⟨front, run, splits, above, whole⟩ :=
    exists_directory_posix (inside_of_named_posix nonempty)
  rw [whole]
  intro member
  rcases List.mem_append.mp member with inDirectory | inRest
  · rcases directories _ above with blank | ⟨validDirectory, -⟩
    · exact absurd (List.all_eq_true.mp blank _ inDirectory) (by decide)
    · exact validDirectory _ inDirectory (by decide)
  · rcases List.mem_append.mp inRest with inRun | inName
    · exact absurd (splits.separators _ inRun) (by decide)
    · exact legal _ inName (by decide)

/--
Without drives a path is accepted exactly if it holds no NUL and its file name is not blank. The
directory that is examined next is shorter, and no directory is refused but for a NUL in it.
-/
theorem isValidName_posix_iff (path : Path) :
    (posix.flavor.isValidName path = true ↔
      '\x00' ∉ path ∧ isBlank (posix.flavor.fileName path) = false) ∧
    ∀ directory, posix.flavor.parent? path = some directory →
      directory.length < path.length ∧
        ('\x00' ∉ directory →
          (∀ character ∈ directory, character ∉ posix.flavor.invalidPathChars) ∧
            (isBlank (posix.flavor.fileName directory) = true ∨
              posix.flavor.isValidName directory = true)) := by
  refine ⟨⟨fun valid => ⟨noNul_of_isValidName_posix valid, ?_⟩, ?_⟩, fun directory above => ⟨?_, ?_⟩⟩
  · exact ((Flavor.isValidName_iff path).mp valid).2.1
  · rintro ⟨noNul, named⟩
    exact isValidName_of_named_posix noNul named
  · exact posix.flavor.parent?_length_lt path directory above
  · intro noNul
    refine ⟨noInvalidPathChars_posix noNul, ?_⟩
    by_cases blank : isBlank (posix.flavor.fileName directory) = true
    · exact .inl blank
    · exact .inr (isValidName_of_named_posix noNul (by simpa using blank))

/-- A directory named by blanks is passed over, and so is all that is above it. -/
theorem isValidName_posix_iff_blankDirectory :
    posix.flavor.parent? "/a/ /b.txt".toList = some "/a/ ".toList ∧
      posix.flavor.isValidName "/a/ ".toList = false ∧
      posix.flavor.isValidName "/a/ /b.txt".toList = true ∧
      isBlank (posix.flavor.fileName "/a/ ".toList) = true := by
  have above : posix.flavor.parent? "/a/ /b.txt".toList = some "/a/ ".toList := by decide
  obtain ⟨accepted, directories⟩ := isValidName_posix_iff "/a/ /b.txt".toList
  have refused : posix.flavor.isValidName "/a/ ".toList = false := by decide +kernel
  refine ⟨above, refused, accepted.mpr ⟨by decide, by decide⟩, ?_⟩
  obtain ⟨-, checked⟩ := directories _ above
  exact (checked (by decide)).2.resolve_right (by rw [refused]; exact Bool.false_ne_true)

end PathStyle

end FileSpec
