import FileSpec.Path.Basic
import FileSpec.Text.Quoted

/-!
Which paths and file names are valid, and how to make them so.

`Flavor.isValidName` examines as many directories as a path has. A limit that an interpreter sets
on nested calls is not modelled.
-/

set_option autoImplicit false

namespace FileSpec

open Text

def PathError.message : PathError → List Char
  | .empty => "Path cannot be null or empty (argument: file_path)".toList
  | .blank => "Path cannot be null or empty space (argument: file_path)".toList
  | .invalidCharacters _ found =>
      "Path has invalid characters: ".toList ++
        (", ".toList).intercalate (found.map fun character => quoted [character])

namespace Flavor

variable (flavor : Flavor)

/-- The characters of `text` among `chars`, each once, as first met. -/
def charactersIn (chars text : List Char) : List Char :=
  (text.filter chars.contains).eraseDups

def validatePath (path? : Option Path) : Except PathError Unit :=
  match path? with
  | none => .error .blank
  | some path =>
      if isBlank path then .error .blank
      else
        let found := charactersIn flavor.invalidPathChars path
        if found.isEmpty then .ok () else .error (.invalidCharacters path found)

/--
Whether the last name of a path is a valid file name and every directory above it is valid
in the same way. The examination ends at a directory whose own name is blank, as the root's is.
-/
def isValidName (path : Path) : Bool :=
  let name := flavor.fileName path
  if isBlank path || isBlank name || name.any flavor.invalidNameChars.contains then
    false
  else
    match above : flavor.parent? path with
    | none => true
    | some directory =>
        if isBlank directory then true
        else if directory.any flavor.invalidPathChars.contains then false
        else if isBlank (flavor.fileName directory) then true
        else
          have := flavor.parent?_length_lt path directory above
          isValidName directory
termination_by path.length

def validName (replacement name : Path) : Path :=
  name.flatMap fun character =>
    if flavor.invalidNameChars.contains character then replacement else [character]

/-- A piece with the volume separator after its first character, where that is no separator. -/
def namesVolume (piece : Path) : Bool :=
  !flavor.isSeparator flavor.volumeSeparator &&
    !piece.head?.any (· == flavor.volumeSeparator) && piece.contains flavor.volumeSeparator

/-- Make every piece of a path a valid name, but keep a first piece that names a volume. -/
def validPath (replacement path : Path) : Path :=
  match flavor.pieces path with
  | [] => []
  | first :: others =>
      let kept := if flavor.namesVolume first then first else flavor.validName replacement first
      [flavor.separator].intercalate (kept :: others.map (flavor.validName replacement))

end Flavor

end FileSpec
