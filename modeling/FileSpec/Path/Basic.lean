import FileSpec.Path.Root

/-!
Taking paths apart and putting them together: separators at the end, directories, names,
extensions, joining and absolute paths. Both kinds of separator are equal throughout.
-/

set_option autoImplicit false

namespace FileSpec

open Text

structure FileQueries where
  fileExists : Path → Bool
  directoryExists : Path → Bool

def FileQueries.none : FileQueries :=
  ⟨fun _ => false, fun _ => false⟩

inductive PathError where
  | empty
  | blank
  | invalidCharacters (path : Path) (found : List Char)

namespace Flavor

variable (flavor : Flavor)

def endsWithSeparator (path : Path) : Bool :=
  path.getLast?.any flavor.isSeparator

/-- The path with a separator at its end; one that is already there is kept. -/
def addSuffix (path : Path) : Path :=
  if flavor.endsWithSeparator path then path else path ++ [flavor.separator]

def removeSuffix (path : Path) : Path :=
  dropTrailing flavor.isSeparator path

/-- The pieces of a path between its separators, in order; empty pieces are kept. -/
def pieces : Path → List Path
  | [] => [[]]
  | character :: rest =>
      if flavor.isSeparator character then [] :: pieces rest
      else
        match pieces rest with
        | [] => [[character]]
        | piece :: others => (character :: piece) :: others

/-- A name inside a directory. A rooted name stands for itself. -/
def join (directory name : Path) : Path :=
  if directory.isEmpty || flavor.isRooted name then name
  else if flavor.endsWithSeparator directory then directory ++ name
  else directory ++ flavor.separator :: name

/--
The directory above a path: what stands before the last run of separators, and never less
than the root. A path that is no longer than its root has none.
-/
def parent? (path : Path) : Option Path :=
  if (flavor.dropRoot path).isEmpty then none
  else some (flavor.root path ++
    dropTrailing flavor.isSeparator (throughLast flavor.isSeparator (flavor.dropRoot path)))

theorem length_dropTrailing_throughLast_lt (delimits : Char → Bool) {text : List Char}
    (nonempty : text ≠ []) :
    (dropTrailing delimits (throughLast delimits text)).length < text.length := by
  have positive : 0 < text.length := List.length_pos_iff.mpr nonempty
  have cut := (List.dropWhile_sublist (fun character => !delimits character)
    (l := text.reverse)).length_le
  simp only [dropTrailing, throughLast, List.reverse_reverse, List.length_reverse] at cut ⊢
  cases kept : text.reverse.dropWhile fun character => !delimits character with
  | nil => simpa using positive
  | cons last front =>
      have delimited : delimits last = true := by
        have stopped := List.head?_dropWhile_not (fun character => !delimits character)
          text.reverse
        simpa [kept] using stopped
      have remaining := (List.dropWhile_sublist delimits (l := front)).length_le
      simp only [kept, List.length_cons] at cut
      simp only [List.dropWhile_cons, delimited, if_true]
      omega

theorem parent?_length_lt (path directory : Path)
    (above : flavor.parent? path = some directory) : directory.length < path.length := by
  unfold parent? at above
  split at above
  · simp at above
  · rename_i nonempty
    have inside : flavor.dropRoot path ≠ [] := by simpa using nonempty
    have cut := length_dropTrailing_throughLast_lt flavor.isSeparator inside
    have whole : (flavor.dropRoot path).length = path.length - (flavor.root path).length := by
      simp [dropRoot]
    simp only [Option.some.injEq] at above
    subst above
    simp only [List.length_append]
    omega

/-- The directory part of a path, which is the whole path if it names a directory. -/
def directoryName (queries : FileQueries) (path : Path) : Path :=
  if queries.directoryExists (flavor.addSuffix path) then flavor.addSuffix path
  else flavor.addSuffix ((flavor.parent? path).getD path)

def isVolumeDelimiter (character : Char) : Bool :=
  flavor.isSeparator character || character == flavor.volumeSeparator

/-- A file name begins after a separator and, where there are drives, after a volume. -/
def isNameDelimiter (character : Char) : Bool :=
  flavor.isSeparator character ||
    (flavor.hasDriveRoots && character == flavor.volumeSeparator)

def lastDirectoryName (queries : FileQueries) (path : Path) : Except PathError Path :=
  if path.isEmpty then .error .empty
  else .ok (afterLast flavor.isVolumeDelimiter
    (flavor.removeSuffix (flavor.directoryName queries path)))

def fileName (path : Path) : Path :=
  afterLast flavor.isNameDelimiter path

end Flavor

/--
A file name as stem and extension, the extension beginning with the last dot.
A dot at the very end belongs to neither.
-/
def splitExtension (name : Path) : Path × Path :=
  let stem := (throughLast (· == '.') name).dropLast
  if !name.contains '.' then (name, [])
  else if name.getLast? == some '.' then (stem, [])
  else (stem, '.' :: afterLast (· == '.') name)

namespace Flavor

variable (flavor : Flavor)

def extension (path : Path) : Path :=
  (splitExtension (flavor.fileName (flavor.removeSuffix path))).2

def stem (path : Path) : Path :=
  (splitExtension (flavor.fileName (flavor.removeSuffix path))).1

/-- A path that is not rooted is taken inside `base`; separators at the end are dropped. -/
def absolute (base path : Path) : Path :=
  flavor.removeSuffix (if flavor.isRooted path then path else flavor.join base path)

end Flavor

end FileSpec
