import FileSpec.FileTree.Basic

/-!
Plain paths: a root and names, without empty names and `.`.

A path may go up by `..` in its plain form. Reading it lexically takes these steps too, and
leads to a place whether there is something or not.
-/

set_option autoImplicit false

namespace FileSpec

/-- A path by its root, which is empty, `/` or `//`, and its names. -/
structure PlainPath where
  root : Path
  names : List (List Char)
  deriving DecidableEq, Repr

namespace PlainPath

/-- Two slashes at the front are a root of their own, and more are as good as one. -/
def rootOf : Path → Path
  | '/' :: '/' :: '/' :: _ => ['/']
  | '/' :: '/' :: _ => ['/', '/']
  | '/' :: _ => ['/']
  | _ => []

def ofPath (path : Path) : PlainPath where
  root := rootOf path
  names := (FileTree.names path).filter fun name => !name.isEmpty && name != ['.']

/-- The path as text; a dot if there is nothing to write. -/
def path (plain : PlainPath) : Path :=
  if plain.root.isEmpty && plain.names.isEmpty then ['.']
  else plain.root ++ ['/'].intercalate plain.names

def goUp (start : Place) (names : List (List Char)) : Place :=
  names.foldl (fun place name => if name == ['.', '.'] then place.dropLast else place ++ [name])
    start

def place (workingDirectory : Place) (plain : PlainPath) : Place :=
  goUp (if plain.root.isEmpty then workingDirectory else []) plain.names

end PlainPath

namespace FileTree

def lexicalPlace (tree : FileTree) (path : Path) : Place :=
  (PlainPath.ofPath path).place tree.workingDirectory

end FileTree

/--
An absolute path in its shortest form. It keeps two slashes at the front, and goes up by
every `..`.
-/
def absolutePlain (workingDirectory : Place) (path : Path) : Path :=
  let plain := PlainPath.ofPath path
  let root := if plain.root.isEmpty then ['/'] else plain.root
  root ++ ['/'].intercalate (plain.place workingDirectory)

/-- What stands before the last slash of an absolute path, or the slashes at its front. -/
def directoryOf (path : Path) : Path :=
  let head := Text.throughLast (· == '/') path
  if head.all (· == '/') then head else Text.dropTrailing (· == '/') head

def entryDirectory (workingDirectory : Place) (script? : Option Path) : Path :=
  match script? with
  | some (first :: rest) => directoryOf (absolutePlain workingDirectory (first :: rest))
  | _ => workingDirectory.path

end FileSpec
