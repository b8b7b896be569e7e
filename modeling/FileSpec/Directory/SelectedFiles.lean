import FileSpec.Directory.Selection
import FileSpec.Settings.Field

/-!
Reading selected files from a table of values.
-/

set_option autoImplicit false

namespace FileSpec.SelectedFiles

def readField (name : String) (value : Value) : Checked (SelectedFiles → SelectedFiles) :=
  match name with
  | "paths" => do
      let paths ← value.asList Value.asNonemptyString 0
      .ok fun files => { files with paths }
  | "warnings" => do
      let warnings ← value.asList Value.asString 0
      .ok fun files => { files with warnings }
  | _ => .fault .unknownField

def ofValue (value : Value) : Checked SelectedFiles :=
  readFields readField ⟨[], []⟩ value

end FileSpec.SelectedFiles
