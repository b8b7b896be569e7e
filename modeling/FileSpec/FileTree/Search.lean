import FileSpec.Directory.Selection
import FileSpec.FileTree.Basic
import FileSpec.Path.Unique

/-!
Listing, walking and selecting in a tree of files.
-/

set_option autoImplicit false

namespace FileSpec

inductive SearchError where
  | file (error : FileError)
  | noDirectory (path : Path)
  | noMatcher

def noDirectoryMessage (path : Path) : List Char :=
  "Directory not found: '".toList ++ path ++
    "'. Check the directory path and try again.".toList

namespace FileTree

variable (tree : FileTree)

def isOfKind : EntryKind → Node → Bool
  | .file => Node.isFile
  | .directory => Node.isDirectory

def listMatching (flavor : Flavor) (kind : EntryKind) (directory : Path) (matcher : Matcher) :
    Except FileError (List Path) := do
  let names ← tree.list (isOfKind kind) directory
  .ok ((names.filter matcher.accepts).map (flavor.join directory))

def listSpecified (flavor : Flavor) (ignoreCase : Bool) (kind : EntryKind) (directory : Path)
    (specification : List Char) : Except SearchError (List Path) :=
  match Matcher.ofSpecification? flavor ignoreCase specification with
  | some matcher => (tree.listMatching flavor kind directory matcher).mapError .file
  | none => .error .noMatcher

/-- The lister of a tree. To it, a path with NUL is one that leads nowhere. -/
def lister (flavor : Flavor) (ignoreCase : Bool) : Lister where
  flavor := flavor
  ignoreCase := ignoreCase
  list kind directory matcher :=
    (tree.listMatching flavor kind directory matcher).mapError fun
      | .os error => error
      | .nulInPath => .notFound directory
  depth := 2 * tree.top.size + 3

def walk (kind : EntryKind) (request : ListingRequest) : Except SearchError WalkOutcome :=
  if request.directory.contains '\x00' then .error (.file .nulInPath)
  else
    match Walk.ofSpecification? (tree.lister .posix false) kind request.specification
        request.recursive with
    | some walk => .ok (walk.run .report none request.directory)
    | none => .error .noMatcher

def find (selection : Selection) (ignoreCase recursive : Bool) (start : Path) :
    Except SearchError SelectedFiles :=
  if !tree.directoryExists start then .error (.noDirectory start)
  else
    match Walk.ofSpecification? (tree.lister selection.flavor ignoreCase) .file ['*']
        recursive with
    | some walk => (selection.run walk start).mapError (.file ∘ .os)
    | none => .error .noMatcher

def uniquePath (flavor : Flavor) (path : Path) : UniquePath :=
  flavor.uniquePath tree.fileExists tree.top.size path

end FileTree

end FileSpec
