import FileSpec.FileTree.Plain

/-!
Where settings are looked for: in the project and the package above a directory, and in the
configuration of the user.
-/

set_option autoImplicit false

namespace FileSpec

structure Environment where
  home : Path
  configHome? : Option Path

namespace SettingsFile

def projectDirectory : List Char := ".michi".toList

def fileName : List Char := "config.toml".toList

def packageFileName : List Char := "pyproject.toml".toList

def userDirectory : List Char := "michi".toList

/-- A place and those above it, the nearest first. -/
def upward (place : Place) : List Place :=
  (List.range (place.length + 1)).map fun up => place.take (place.length - up)

/-- Whether there is a wanted node at a place; a name that is too long cannot be looked up. -/
def probe (tree : FileTree) (wanted : Node → Bool) (place : Place) : Except FileError Bool :=
  match tree.locate place.path with
  | .ok found => .ok ((tree.node? found).any wanted)
  | .error (.os error) =>
      if error.isNotFound || error.isNotDirectory then .ok false else .error (.os error)
  | .error .nulInPath => .error .nulInPath

def firstWith? (tree : FileTree) (wanted : Node → Bool) (name : List Char) :
    List Place → Except FileError (Option Place)
  | [] => .ok none
  | place :: others => do
      if ← probe tree wanted (place ++ [name]) then .ok (some place)
      else firstWith? tree wanted name others

def nearest? (tree : FileTree) (wanted : Node → Bool) (name : List Char) (start : Path) :
    Except FileError (Option Place) :=
  if start.contains '\x00' then .error .nulInPath
  else firstWith? tree wanted name (upward (tree.lexicalPlace start))

def projectRoot? (tree : FileTree) (start : Path) : Except FileError (Option Place) :=
  nearest? tree Node.isDirectory projectDirectory start

def ofProject? (tree : FileTree) (start : Path) : Except FileError (Option Place) := do
  .ok ((← projectRoot? tree start).map (· ++ [projectDirectory, fileName]))

def ofPackage? (tree : FileTree) (start : Path) : Except FileError (Option Place) := do
  .ok ((← nearest? tree Node.isFile packageFileName start).map (· ++ [packageFileName]))

/-- The home directory; a home that itself begins at a home is unknown. -/
def homeDirectory? (home : Path) : Option Path :=
  let trimmed := Text.dropTrailing (· == '/') home
  if trimmed.head? == some '~' then none
  else some (if trimmed.isEmpty then ['/'] else trimmed)

def ofUser? (environment : Environment) : Option PlainPath :=
  let inside := fun (base : Path) (names : List (List Char)) =>
    let plain := PlainPath.ofPath base
    { plain with names := plain.names ++ names ++ [userDirectory, fileName] }
  match environment.configHome? with
  | some (first :: rest) => some (inside (first :: rest) [])
  | _ => (homeDirectory? environment.home).map (inside · [".config".toList])

end SettingsFile

end FileSpec
