import FileSpec.FileTree.Plain

/-!
Changing a tree of files: writing and removing files, and making directories.

A file is written or removed at once. Directories are made one by one, from the top down, and
those made before a failure stay.
-/

set_option autoImplicit false

namespace FileSpec.FileTree

/-- A change of a tree. One that fails may have changed it as well. -/
abbrev Change := EStateM FileError FileTree Unit

def Change.atOnce (change : FileTree → Except FileError FileTree) : Change := do
  match change (← get) with
  | .ok changed => set changed
  | .error error => throw error

structure Target where
  directory : Place
  name : List Char
  deriving DecidableEq, Repr

def Target.place (target : Target) : Place :=
  target.directory ++ [target.name]

def Target.isEntry (target : Target) : Bool :=
  !(target.name.isEmpty || target.name == ['.'] || target.name == ['.', '.'])

variable (tree : FileTree)

/-- The target of a path. Slashes behind the last name do not count. -/
def target (path : Path) : Except FileError Target := do
  let names := (← requestedNames path).filter fun name => !name.isEmpty
  let directory ← tree.follow path names.dropLast
  if tree.isDirectoryAt directory then .ok ⟨directory, names.getLastD []⟩
  else .error (.os (.notADirectory path))

def withFile (path : Path) (content : FileContent) : Except FileError FileTree := do
  let target ← tree.target path
  if !target.isEntry || path.getLast? == some '/' then .error (.os (.isADirectory path))
  else if longestName < byteLength target.name then .error (.os (.nameTooLong path))
  else if tree.isDirectoryAt target.place then .error (.os (.isADirectory path))
  else .ok (tree.putFile target.place content)

def writeFile (path : Path) (content : FileContent) : Change :=
  Change.atOnce fun tree => tree.withFile path content

def withoutFile (path : Path) : Except FileError FileTree := do
  let place ← tree.locate path
  if tree.isDirectoryAt place then .error (.os (.isADirectory path))
  else .ok (tree.remove place)

def removeFile (path : Path) : Change :=
  Change.atOnce fun tree => tree.withoutFile path

def withDirectory (path : Path) : Except FileError FileTree := do
  let target ← tree.target path
  if !target.isEntry then .error (.os (.alreadyExists path))
  else if longestName < byteLength target.name then .error (.os (.nameTooLong path))
  else if (tree.node? target.place).isSome then .error (.os (.alreadyExists path))
  else .ok (tree.putDirectory target.place)

def unlessPresent (change : Change) : Change :=
  try change catch
    | .os error => if error.isAlreadyExists then pure () else throw (.os error)
    | error => throw error

def upToLastName (path : Path) : Path :=
  if (Text.afterLast (· == '/') path).isEmpty then directoryOf path else path

theorem length_directoryOf_add_le (path : Path) :
    (directoryOf path).length + (Text.afterLast (· == '/') path).length ≤ path.length := by
  have whole := congrArg List.length (Text.throughLast_append_afterLast (· == '/') path)
  have cut : (directoryOf path).length ≤ (Text.throughLast (· == '/') path).length := by
    unfold directoryOf Text.dropTrailing
    dsimp only
    split
    · exact Nat.le_refl _
    · have shorter := (List.dropWhile_sublist (· == '/')
        (l := (Text.throughLast (· == '/') path).reverse)).length_le
      rw [List.length_reverse] at shorter ⊢
      exact shorter
  rw [List.length_append] at whole
  omega

theorem length_upToLastName_le (path : Path) : (upToLastName path).length ≤ path.length := by
  unfold upToLastName
  split
  · have := length_directoryOf_add_le path
    omega
  · exact Nat.le_refl _

def lastName (path : Path) : List Char :=
  Text.afterLast (· == '/') (upToLastName path)

def pathAbove (path : Path) : Path :=
  directoryOf (upToLastName path)

theorem length_pathAbove_lt {path : Path} (named : lastName path ≠ []) :
    (pathAbove path).length < path.length := by
  have positive : 0 < (lastName path).length := List.length_pos_iff.2 named
  have split := length_directoryOf_add_le (upToLastName path)
  have shorter := length_upToLastName_le path
  unfold lastName at positive
  unfold pathAbove
  omega

def makeLastDirectory (path : Path) : Change :=
  Change.atOnce fun tree => tree.withDirectory path

/--
Make a directory and, first, those above it that are not there. A last name `.` adds nothing
to a directory that is made for it.
-/
def makeDirectory (path : Path) : Change := do
  if _ : lastName path ≠ [] then
    if (pathAbove path).isEmpty || (← get).isPresent (pathAbove path) then
      makeLastDirectory path
    else
      unlessPresent (makeDirectory (pathAbove path))
      if lastName path != ['.'] then makeLastDirectory path
  else makeLastDirectory path
termination_by path.length
decreasing_by exact length_pathAbove_lt (by assumption)

end FileSpec.FileTree
