import FileSpec.Directory.OsError
import FileSpec.Pattern.Matcher
import FileSpec.Path.Basic

/-!
Listing one directory, and listers made from a catalog of directories.
-/

set_option autoImplicit false

namespace FileSpec

inductive EntryKind where
  | file
  | directory
  deriving DecidableEq, Repr

structure ListingCall where
  kind : EntryKind
  directory : Path
  specification : List Char
  deriving DecidableEq, Repr

structure Lister where
  flavor : Flavor
  ignoreCase : Bool
  list : EntryKind → Path → Matcher → Except OsError (List Path)
  /-- In a longer chain of directories, each an entry of the one before, one occurs twice. -/
  depth : Nat

def Lister.matcher? (lister : Lister) (specification : List Char) : Option Matcher :=
  Matcher.ofSpecification? lister.flavor lister.ignoreCase specification

structure CatalogEntry where
  directory : Path
  files : List Path
  directories : List Path

/-- A directory that cannot be listed, for one kind of entries or for both. -/
structure CatalogFailure where
  directory : Path
  kind? : Option EntryKind
  code : Int
  text : List Char

/-- Directories with their names. A directory that is not in the catalog is empty. -/
structure Catalog where
  flavor : Flavor
  ignoreCase : Bool
  entries : List CatalogEntry
  failures : List CatalogFailure

namespace Catalog

variable (catalog : Catalog)

/-- Directories are the same if they differ in separators at their ends only. -/
def sameDirectory (first second : Path) : Bool :=
  catalog.flavor.removeSuffix first == catalog.flavor.removeSuffix second

/-- The names of one kind in a directory, in their order; the last entry for it counts. -/
def names (kind : EntryKind) (directory : Path) : List Path :=
  match (catalog.entries.filter (catalog.sameDirectory directory ·.directory)).getLast? with
  | none => []
  | some entry =>
      match kind with
      | .file => entry.files
      | .directory => entry.directories

def failure? (kind : EntryKind) (directory : Path) : Option CatalogFailure :=
  catalog.failures.find? fun failure =>
    catalog.sameDirectory directory failure.directory && failure.kind?.all (· == kind)

def list (kind : EntryKind) (directory : Path) (matcher : Matcher) :
    Except OsError (List Path) :=
  match catalog.failure? kind directory with
  | some failure => .error ⟨failure.code, failure.text, directory⟩
  | none => .ok (((catalog.names kind directory).filter matcher.accepts).map
      (catalog.flavor.join directory))

/-- A bound on the paths of directories in which a walk can find something. Each is that of an
entry, followed by the separators of a name or of the start and by one more at most. -/
def pathCount : Nat :=
  let nameCount := (catalog.entries.map fun entry => entry.directories.length).foldl (· + ·) 0
  (catalog.entries.length + 1) * (2 * nameCount + 3)

def lister : Lister where
  flavor := catalog.flavor
  ignoreCase := catalog.ignoreCase
  list := catalog.list
  depth := catalog.pathCount

end Catalog

end FileSpec
