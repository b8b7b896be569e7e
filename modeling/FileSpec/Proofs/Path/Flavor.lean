import FileSpec.Path.Root

/-!
# Separators and the built-in flavors

A text begins with a separator, with the character of a name, or not at all. Both built-in
flavors keep separators and what roots a path out of names.
-/

set_option autoImplicit false

namespace FileSpec

namespace Flavor

def beginsWithSeparator (flavor : Flavor) (text : List Char) : Bool :=
  text.head?.any flavor.isSeparator

/-- Whether a text goes on with the character of a name. -/
def beginsWithName (flavor : Flavor) (text : List Char) : Bool :=
  text.head?.any fun character => !flavor.isSeparator character

section Runs

variable {flavor : Flavor}

@[simp]
theorem beginsWithSeparator_nil : flavor.beginsWithSeparator [] = false := rfl

@[simp]
theorem beginsWithSeparator_cons (first : Char) (rest : List Char) :
    flavor.beginsWithSeparator (first :: rest) = flavor.isSeparator first := rfl

@[simp]
theorem beginsWithName_nil : flavor.beginsWithName [] = false := rfl

@[simp]
theorem beginsWithName_cons (first : Char) (rest : List Char) :
    flavor.beginsWithName (first :: rest) = !flavor.isSeparator first := rfl

theorem dropWhile_isSeparator {run rest : List Char}
    (whole : ∀ character ∈ run, flavor.isSeparator character = true)
    (ends : flavor.beginsWithSeparator rest = false) :
    (run ++ rest).dropWhile flavor.isSeparator = rest := by
  rw [List.dropWhile_append_of_pos whole]
  cases rest with
  | nil => rfl
  | cons first rest => exact List.dropWhile_cons_of_neg (by simpa using ends)

@[simp]
theorem beginsWithSeparator_dropWhile (text : List Char) :
    flavor.beginsWithSeparator (text.dropWhile flavor.isSeparator) = false := by
  cases left : text.dropWhile flavor.isSeparator with
  | nil => rfl
  | cons first rest =>
      have stopped := List.head?_dropWhile_not flavor.isSeparator text
      simpa [left] using stopped

@[simp]
theorem beginsWithName_dropWhile (text : List Char) :
    flavor.beginsWithName (text.dropWhile fun character => !flavor.isSeparator character) =
      false := by
  cases left : text.dropWhile fun character => !flavor.isSeparator character with
  | nil => rfl
  | cons first rest =>
      have stopped := List.head?_dropWhile_not
        (fun character => !flavor.isSeparator character) text
      simpa [left] using stopped

/-- A name at the front of a text ends where no character of a name follows. -/
theorem takeWhile_not_isSeparator {name rest : List Char}
    (plain : ∀ character ∈ name, flavor.isSeparator character = false)
    (ends : flavor.beginsWithName rest = false) :
    (name ++ rest).takeWhile (fun character => !flavor.isSeparator character) = name := by
  rw [List.takeWhile_append_of_pos (by simpa using plain)]
  cases rest with
  | nil => simp
  | cons first rest =>
      have separates : flavor.isSeparator first = true := by simpa using ends
      simp [separates]

end Runs

def SeparatesNames (flavor : Flavor) : Prop :=
  ∀ character, flavor.isSeparator character = true → character ∈ flavor.invalidNameChars

/-- A name that an entry of a directory can have. -/
def IsLegalName (flavor : Flavor) (name : Path) : Prop :=
  name ≠ [] ∧ ∀ character ∈ name, character ∉ flavor.invalidNameChars

instance (flavor : Flavor) (name : Path) : Decidable (flavor.IsLegalName name) :=
  decidable_of_iff
    (name ≠ [] ∧ (name.all fun character => !flavor.invalidNameChars.contains character) = true) <|
    by simp [IsLegalName]

variable {flavor : Flavor}

@[simp]
theorem isSeparator_separator : flavor.isSeparator flavor.separator = true := by
  simp [isSeparator]

theorem SeparatesNames.not_isSeparator (separates : flavor.SeparatesNames) {character : Char}
    (legal : character ∉ flavor.invalidNameChars) : flavor.isSeparator character = false := by
  rw [← Bool.not_eq_true]
  exact mt (separates character) legal

theorem IsLegalName.not_isSeparator {name : Path} (legal : flavor.IsLegalName name)
    (separates : flavor.SeparatesNames) :
    ∀ character ∈ name, flavor.isSeparator character = false :=
  fun character member => separates.not_isSeparator (legal.2 character member)

theorem driveRoot?_of_not_mem {path : Path} (noVolume : ':' ∉ path) :
    flavor.driveRoot? path = none := by
  unfold driveRoot?
  split
  · simp at noVolume
  · rfl

/-- A path without separators is rooted by a drive only. -/
theorem root?_of_not_isSeparator {path : Path}
    (noSeparator : ∀ character ∈ path, flavor.isSeparator character = false) :
    flavor.root? path = if flavor.hasDriveRoots then flavor.driveRoot? path else none := by
  have share : flavor.shareRoot? path = none := by
    unfold shareRoot?
    split
    · next first second rest => simp [noSeparator first (by simp)]
    · rfl
  have single : flavor.separatorRoot? path = none := by
    cases path with
    | nil => rfl
    | cons first rest => simp [separatorRoot?, noSeparator first (by simp)]
  simp [root?, share, single]

end Flavor

namespace PathStyle

theorem isSeparator_posix_iff (character : Char) :
    PathStyle.posix.flavor.isSeparator character = true ↔ character = '/' := by
  simp [PathStyle.flavor, Flavor.posix, Flavor.isSeparator]

@[simp]
theorem not_isSeparator_asterisk (style : PathStyle) : style.flavor.isSeparator '*' = false := by
  cases style <;> decide

theorem separatesNames (style : PathStyle) : style.flavor.SeparatesNames := by
  intro character isSeparator
  rw [Flavor.isSeparator_iff_mem] at isSeparator
  have included : style.flavor.separators.all style.flavor.invalidNameChars.contains = true := by
    cases style <;> decide
  exact List.contains_iff_mem.mp (List.all_eq_true.mp included character isSeparator)

/-- Where there are drives, no name holds what is written behind them. -/
theorem colon_mem_invalidNameChars (style : PathStyle)
    (drives : style.flavor.hasDriveRoots = true) : ':' ∈ style.flavor.invalidNameChars := by
  cases style with
  | host => simp [PathStyle.flavor, Flavor.posix] at drives
  | posix => simp [PathStyle.flavor, Flavor.posix] at drives
  | windows => decide

theorem isRooted_of_isLegalName (style : PathStyle) {name : Path}
    (legal : style.flavor.IsLegalName name) : style.flavor.isRooted name = false := by
  have noVolume : style.flavor.hasDriveRoots = true → ':' ∉ name :=
    fun drives member => legal.2 ':' member (style.colon_mem_invalidNameChars drives)
  have noRoot : style.flavor.root? name = none := by
    rw [Flavor.root?_of_not_isSeparator (legal.not_isSeparator style.separatesNames)]
    split
    · next drives => exact Flavor.driveRoot?_of_not_mem (noVolume drives)
    · rfl
  simp [Flavor.isRooted, Flavor.root, noRoot]

end PathStyle

end FileSpec
