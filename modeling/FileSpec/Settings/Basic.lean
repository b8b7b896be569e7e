import FileSpec.Settings.Field
import FileSpec.Settings.Style

/-!
The settings, and reading them from a table of values.

Every setting has a default, and a table is read field by field: its errors are those of its
fields, and an unknown field is an error.
-/

set_option autoImplicit false

namespace FileSpec

structure Settings where
  ignoreCase : Bool
  pathStyle : PathStyle
  recursive : Bool
  /-- Specifications of the files to find; never empty. -/
  patterns : List (List Char)
  exclude : List (List Char)
  trimLength : Int
  /-- Where relative paths begin, if not in the current directory. -/
  baseDirectory? : Option Path
  deriving DecidableEq, Repr

namespace Settings

def defaults : Settings where
  ignoreCase := false
  pathStyle := .host
  recursive := true
  patterns := [['*']]
  exclude := []
  trimLength := 40
  baseDirectory? := none

def readStyle (value : Value) : Checked PathStyle :=
  match PathStyle.normalize value with
  | .text name =>
      match PathStyle.ofName? name with
      | some style => .ok style
      | none => .fault .notAStyle
  | _ => .fault .notAStyle

def readBaseDirectory : Value → Checked (Option Path)
  | .null => .ok none
  | value => do .ok (some (← value.asNonemptyString))

def readField (name : String) (value : Value) : Checked (Settings → Settings) :=
  match name with
  | "ignore_case" => do
      let ignoreCase ← value.asBoolean
      .ok fun settings => { settings with ignoreCase }
  | "path_style" => do
      let pathStyle ← readStyle value
      .ok fun settings => { settings with pathStyle }
  | "recursive" => do
      let recursive ← value.asBoolean
      .ok fun settings => { settings with recursive }
  | "patterns" => do
      let patterns ← value.asList Value.asNonemptyString 1
      .ok fun settings => { settings with patterns }
  | "exclude" => do
      let exclude ← value.asList Value.asNonemptyString 0
      .ok fun settings => { settings with exclude }
  | "trim_length" => do
      let trimLength ← value.asPositive
      .ok fun settings => { settings with trimLength }
  | "base_directory" => do
      let baseDirectory? ← readBaseDirectory value
      .ok fun settings => { settings with baseDirectory? }
  | _ => .fault .unknownField

/-- The settings that a table gives, with defaults for what it does not mention. -/
def ofValue (value : Value) : Checked Settings :=
  readFields readField defaults value

def toTable (settings : Settings) : Table :=
  [("ignore_case", .boolean settings.ignoreCase),
    ("path_style", .text settings.pathStyle.name),
    ("recursive", .boolean settings.recursive),
    ("patterns", .list (settings.patterns.map fun pattern => .text (String.ofList pattern))),
    ("exclude", .list (settings.exclude.map fun pattern => .text (String.ofList pattern))),
    ("trim_length", .integer settings.trimLength),
    ("base_directory", match settings.baseDirectory? with
      | some directory => .text (String.ofList directory)
      | none => .null)]

end Settings

end FileSpec
