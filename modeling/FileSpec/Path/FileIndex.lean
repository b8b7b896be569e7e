import FileSpec.Path.Unique

/-!
An index of the files and directories that exist, with whole series of numbered files, and
the taking of free paths in it.
-/

set_option autoImplicit false

namespace FileSpec

open Text

/-- The files `before ++ n ++ after` for every number `n` from `first` to `last`. -/
structure FileSeries where
  before : Path
  after : Path
  first : Int
  last : Int

def canonicalNumber? (text : List Char) : Option Nat :=
  if !text.isEmpty && text.all Char.isDigit && decimal (ofDecimal text) == text then
    some (ofDecimal text)
  else none

namespace FileSeries

def contains (series : FileSeries) (path : Path) : Bool :=
  series.before.isPrefixOf path && series.after.isSuffixOf path &&
    series.before.length + series.after.length ≤ path.length &&
      match canonicalNumber? ((path.drop series.before.length).take
          (path.length - series.before.length - series.after.length)) with
      | some number => series.first ≤ number && (number : Int) ≤ series.last
      | none => false

def size (series : FileSeries) : Nat :=
  (series.last + 1 - series.first).toNat

end FileSeries

structure FileIndex where
  files : List Path
  directories : List Path
  series : List FileSeries

namespace FileIndex

/-- Directories are compared without the slashes of either kind at their ends. -/
def directoryKey (path : Path) : Path :=
  dropTrailing (fun character => character == '/' || character == '\\') path

variable (index : FileIndex)

def fileExists (path : Path) : Bool :=
  index.files.contains path || index.series.any (·.contains path)

def directoryExists (path : Path) : Bool :=
  (index.directories.map directoryKey).contains (directoryKey path)

def queries : FileQueries :=
  ⟨index.fileExists, index.directoryExists⟩

/-- No more files than this exist. -/
def size : Nat :=
  index.series.foldl (fun total series => total + series.size) index.files.length

def addFile (path : Path) : FileIndex :=
  if index.files.contains path then index else { index with files := path :: index.files }

def removeFile (path : Path) : FileIndex :=
  { index with files := index.files.filter (· != path) }

def addDirectory (path : Path) : FileIndex :=
  if index.directoryExists path then index
  else { index with directories := path :: index.directories }

def removeDirectory (path : Path) : FileIndex :=
  { index with
    directories := index.directories.filter fun entry =>
      directoryKey entry != directoryKey path }

def unique (flavor : Flavor) (path : Path) : UniquePath :=
  flavor.uniquePath index.fileExists index.size path

def reserve (flavor : Flavor) (path : Path) : Path × FileIndex :=
  let found := (index.unique flavor path).path
  (found, index.addFile found)

end FileIndex

end FileSpec
