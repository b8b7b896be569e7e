import FileSpec.Settings.Basic
import FileSpec.Settings.Layers
import FileSpec.Settings.Location
import FileSpec.Settings.Source

/-!
The settings that hold for a directory.

From the lowest layer to the highest these are those of the user, of the package, of the
project and of the caller.
-/

set_option autoImplicit false

namespace FileSpec

inductive SettingsError where
  | source (error : SourceError)
  | invalid (errors : List FieldError)
  | unknownHome
  deriving DecidableEq, Repr

namespace Settings

def fileLayers (tree : FileTree) (environment : Environment) (start : Path) :
    Except SettingsError (List (Option Table)) := do
  let failed := fun {Result : Type} (found : Except FileError Result) =>
    found.mapError fun error => SettingsError.source (.file error)
  let package? ← failed (SettingsFile.ofPackage? tree start)
  let project? ← failed (SettingsFile.ofProject? tree start)
  match SettingsFile.ofUser? environment with
  | none => .error .unknownHome
  | some user =>
      let userLayer ← (tree.readTable? user.path).mapError .source
      let packageLayer ← match package? with
        | some place => (tree.readPackageTable place.path).mapError .source
        | none => .ok none
      let projectLayer ← match project? with
        | some place => (tree.readTable? place.path).mapError .source
        | none => .ok none
      .ok [userLayer, packageLayer, projectLayer]

def resolve (tree : FileTree) (environment : Environment) (start? : Option Path)
    (overrides : Table) : Except SettingsError Settings := do
  let layers ← fileLayers tree environment (start?.getD tree.workingDirectory.path)
  let merged := Table.mergeLayers (layers ++ [some overrides.withoutNulls])
  (ofValue (.table merged)).mapError .invalid

end Settings

end FileSpec
