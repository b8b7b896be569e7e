import FileSpec.Directory.OsError
import FileSpec.Path.Basic
import FileSpec.Text.Order

/-!
A tree of files and directories, and how paths lead to places in it.

A place is given by the names that lead to it from the top. A path is followed name by name,
from the top or from the working directory; `.` stays, `..` goes up, and every step but the
last has to arrive at a directory.
-/

set_option autoImplicit false

namespace FileSpec

open Text

abbrev Place := List (List Char)

def Place.path (place : Place) : Path :=
  '/' :: ['/'].intercalate place

inductive FileContent where
  | bytes (values : List UInt8)
  | repeated (value : UInt8) (count : Nat)
  deriving Repr

namespace FileContent

def empty : FileContent :=
  bytes []

def length : FileContent → Nat
  | bytes values => values.length
  | repeated _ count => count

def toList : FileContent → List UInt8
  | bytes values => values
  | repeated value count => List.replicate count value

@[simp]
theorem length_toList (content : FileContent) : content.toList.length = content.length := by
  cases content with
  | bytes values => rfl
  | repeated value count => exact List.length_replicate

end FileContent

/-- A file, or a directory with what it holds by names. No name occurs twice. -/
inductive Node where
  | file (content : FileContent)
  | directory (entries : List (List Char × Node))

namespace Node

def isDirectory : Node → Bool
  | directory _ => true
  | file _ => false

def isFile (node : Node) : Bool :=
  !node.isDirectory

def entries : Node → List (List Char × Node)
  | directory entries => entries
  | file _ => []

@[simp]
theorem entries_file (content : FileContent) : (file content).entries = [] := rfl

@[simp]
theorem entries_directory (entries : List (List Char × Node)) :
    (directory entries).entries = entries := rfl

def below? : Place → Node → Option Node
  | [], node => some node
  | name :: names, node => (node.entries.lookup name).bind (below? names)

@[simp]
theorem below?_nil (node : Node) : node.below? [] = some node := rfl

@[simp]
theorem below?_cons (name : List Char) (names : Place) (node : Node) :
    node.below? (name :: names) = (node.entries.lookup name).bind (below? names) := rfl

def changeEntry (name : List Char) (change : Option Node → Node)
    (entries : List (List Char × Node)) : List (List Char × Node) :=
  (name, change (entries.lookup name)) :: entries.filter (·.1 != name)

/-- Change what is at a place below a node. Directories that are missing above it are made; a
file above it stays as it is. -/
def changeAt (change : Option Node → Node) : Place → Node → Node
  | [name], directory entries => directory (changeEntry name change entries)
  | name :: names, directory entries =>
      directory (changeEntry name (fun node? => changeAt change names (node?.getD (directory [])))
        entries)
  | _, node => node

def removeAt : Place → Node → Node
  | [name], directory entries => directory (entries.filter (·.1 != name))
  | name :: names, directory entries =>
      match entries.lookup name with
      | some node => directory (changeEntry name (fun _ => removeAt names node) entries)
      | none => directory entries
  | _, node => node

mutual

def size : Node → Nat
  | file _ => 1
  | directory entries => sizeOfEntries entries + 1

def sizeOfEntries : List (List Char × Node) → Nat
  | [] => 0
  | (_, node) :: others => node.size + sizeOfEntries others

end

end Node

inductive FileError where
  | os (error : OsError)
  /-- The path holds NUL, which no request can be about. -/
  | nulInPath
  deriving DecidableEq, Repr

structure FileTree where
  top : Node
  /-- Directories that cannot be listed and files that cannot be opened. -/
  locked : List Place
  workingDirectory : Place

namespace FileTree

variable (tree : FileTree)

def node? (place : Place) : Option Node :=
  tree.top.below? place

def isDirectoryAt (place : Place) : Bool :=
  (tree.node? place).any Node.isDirectory

def bare : FileTree :=
  ⟨.directory [], [], []⟩

/-- Put a file at a place, instead of what is there, and directories above it. -/
def putFile (place : Place) (content : FileContent) : FileTree :=
  { tree with top := tree.top.changeAt (fun _ => .file content) place }

def putDirectory (place : Place) : FileTree :=
  { tree with top := tree.top.changeAt (·.getD (.directory [])) place }

def remove (place : Place) : FileTree :=
  { tree with top := tree.top.removeAt place }

/-- The length of the longest name and of the longest path, in bytes. -/
def longestName : Nat := 255

def longestPath : Nat := 4095

def byteLength (text : List Char) : Nat :=
  (String.ofList text).utf8ByteSize

/-- Take one step from a place; `path` is what an error is about. -/
def step (path : Path) (place : Place) (name : List Char) : Except OsError Place :=
  if !tree.isDirectoryAt place then .error (.notADirectory path)
  else if name.isEmpty || name == ['.'] then .ok place
  else if name == ['.', '.'] then .ok place.dropLast
  else if longestName < byteLength name then .error (.nameTooLong path)
  else if (tree.node? (place ++ [name])).isSome then .ok (place ++ [name])
  else .error (.notFound path)

def names (path : Path) : List (List Char) :=
  Flavor.posix.pieces path

def startOf (path : Path) : Place :=
  if path.head? == some '/' then [] else tree.workingDirectory

def requestedNames (path : Path) : Except FileError (List (List Char)) :=
  if path.contains '\x00' then .error .nulInPath
  else if path.isEmpty then .error (.os (.notFound path))
  else if longestPath < byteLength path then .error (.os (.nameTooLong path))
  else .ok (names path)

def follow (path : Path) (names : List (List Char)) : Except FileError Place :=
  (names.foldlM (tree.step path) (tree.startOf path)).mapError .os

def locate (path : Path) : Except FileError Place := do
  tree.follow path (← requestedNames path)

def isPresent (path : Path) : Bool :=
  (tree.locate path).toOption.isSome

def nodeAtPath? (path : Path) : Option Node :=
  match tree.locate path with
  | .ok place => tree.node? place
  | .error _ => none

def fileExists (path : Path) : Bool :=
  (tree.nodeAtPath? path).any Node.isFile

def directoryExists (path : Path) : Bool :=
  (tree.nodeAtPath? path).any Node.isDirectory

def queries : FileQueries :=
  ⟨tree.fileExists, tree.directoryExists⟩

def fileLength? (path : Path) : Option Nat :=
  match tree.nodeAtPath? path with
  | some (.file content) => some content.length
  | _ => none

def read (path : Path) : Except FileError (List UInt8) := do
  let place ← tree.locate path
  if tree.locked.contains place then .error (.os (.permissionDenied path))
  else
    match tree.node? place with
    | some (.file content) => .ok content.toList
    | _ => .error (.os (.isADirectory path))

def entryNames (wanted : Node → Bool) (place : Place) : List (List Char) :=
  let entries := ((tree.node? place).map Node.entries).getD []
  sortTexts ((entries.filter fun entry => wanted entry.2).map (·.1))

def list (wanted : Node → Bool) (path : Path) : Except FileError (List (List Char)) := do
  let place ← tree.locate path
  if tree.locked.contains place then .error (.os (.permissionDenied path))
  else if tree.isDirectoryAt place then .ok (tree.entryNames wanted place)
  else .error (.os (.notADirectory path))

end FileTree

end FileSpec
