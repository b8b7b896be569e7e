import FileSpec.FileTree.Plain
import FileSpec.Toml.Document

/-!
Reading tables of settings from files.
-/

set_option autoImplicit false

namespace FileSpec

inductive SourceError where
  | file (error : FileError)
  | notUtf8
  | notToml (defect : Toml.Defect)
  deriving DecidableEq, Repr

namespace FileTree

variable (tree : FileTree)

def decode (content : List UInt8) : Except SourceError (List Char) :=
  match String.fromUTF8? (ByteArray.mk content.toArray) with
  | some text => .ok text.toList
  | none => .error .notUtf8

def readTable (path : Path) : Except SourceError Table := do
  let content ← (tree.read (PlainPath.ofPath path).path).mapError .file
  let text ← decode content
  (Toml.parse text).mapError .notToml

def readTable? (path : Path) : Except SourceError (Option Table) :=
  match tree.readTable path with
  | .ok table => .ok (some table)
  | .error (.file (.os error)) =>
      if error.isNotFound then .ok none else .error (.file (.os error))
  | .error error => .error error

def tableAt? : List String → Table → Option Table
  | [], table => some table
  | name :: names, table =>
      match table.get? name with
      | some (.table inner) => tableAt? names inner
      | _ => none

def readPackageTable (path : Path) : Except SourceError (Option Table) := do
  .ok (tableAt? ["tool", "michi"] (← tree.readTable path))

end FileTree

end FileSpec
