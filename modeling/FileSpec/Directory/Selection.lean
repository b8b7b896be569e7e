import FileSpec.Directory.Walk

/-!
Selecting files below a directory by specifications.

A specification without a separator is compared with the name of a file, and one with a
separator with the path of the file below the start directory.
-/

set_option autoImplicit false

namespace FileSpec

structure SpecificationSet where
  names : List Matcher
  paths : List Matcher

namespace SpecificationSet

/-- Sort specifications by what they are compared with; none if one has no matcher. -/
def ofSpecifications? (flavor : Flavor) (ignoreCase : Bool)
    (specifications : List (List Char)) : Option SpecificationSet := do
  let hasSeparator := fun specification : List Char => specification.any flavor.isSeparator
  let matcher? := Matcher.ofSpecification? flavor ignoreCase
  let names ← (specifications.filter fun specification =>
    !hasSeparator specification).mapM matcher?
  let paths ← (specifications.filter hasSeparator).mapM matcher?
  some ⟨names, paths⟩

def accepts (specifications : SpecificationSet) (name relative : Path) : Bool :=
  acceptedByAny specifications.names name || acceptedByAny specifications.paths relative

end SpecificationSet

structure Selection where
  flavor : Flavor
  included : SpecificationSet
  excluded : SpecificationSet

structure SelectedFiles where
  paths : List Path
  warnings : List (List Char)

namespace Selection

def ofSpecifications? (flavor : Flavor) (ignoreCase : Bool)
    (included excluded : List (List Char)) : Option Selection := do
  let includedSet ← SpecificationSet.ofSpecifications? flavor ignoreCase included
  let excludedSet ← SpecificationSet.ofSpecifications? flavor ignoreCase excluded
  some ⟨flavor, includedSet, excludedSet⟩

variable (selection : Selection)

def selects (start path : Path) : Bool :=
  let relative := path.drop (selection.flavor.addSuffix start).length
  let name := selection.flavor.fileName relative
  selection.included.accepts name relative && !selection.excluded.accepts name relative

def warning (failure : WalkFailure) : List Char :=
  "Skipping unreadable directory: ".toList ++ failure.directory ++ " (".toList ++
    failure.cause.message ++ [')']

/-- The visits of a walk that ends when the start directory itself cannot be listed. -/
def visits (walk : Walk) (start : Path) : List Visit :=
  walk.madeVisits ⟨none, fun visit => visit.failure?.any (·.directory == start)⟩ start

def run (walk : Walk) (start : Path) : Except OsError SelectedFiles :=
  let failures := (visits walk start).filterMap Visit.failure?
  match failures.find? (·.directory == start) with
  | some failure => .error failure.cause
  | none => .ok
      { paths := ((visits walk start).flatMap Visit.found).filter (selection.selects start)
        warnings := failures.map warning }

end Selection

end FileSpec
