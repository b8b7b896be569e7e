import FileSpec.Command.Outcome
import FileSpec.Settings.Wording

/-!
The command line.

Commands work on a tree of files, which is surveyed first: the settings files, the paths
among the arguments, and, for a search, the paths listed on standard input, one a line, with
a slash behind those of directories.
-/

set_option autoImplicit false

namespace FileSpec

def usage : String :=
  "\n".intercalate
    ["usage: filespec [--version] [--help] [--style host|posix|windows] COMMAND",
      "",
      "  match PATH SPEC...    tell whether a specification accepts a path",
      "  regex SPEC            show the regular expression of a specification",
      "  find [DIRECTORY]      list the accepted files below a directory, of the tree",
      "                        that standard input lists",
      "  unique PATH           show a path that is free",
      "  trim PATH             show a path in a width",
      "  lastdir PATH          show the last directory of a path",
      "  check PATH...         look for invalid characters",
      ""]

namespace Survey

def settingsPlaces (environment : Environment) (workingDirectory : Place) : List Place :=
  let project := (SettingsFile.upward workingDirectory).flatMap fun place =>
    [place ++ [SettingsFile.projectDirectory],
      place ++ [SettingsFile.projectDirectory, SettingsFile.fileName],
      place ++ [SettingsFile.packageFileName]]
  match SettingsFile.ofUser? environment with
  | some plain => plain.place workingDirectory :: project
  | none => project

def pathsOf : Request → List Path
  | .run _ (.trim path _) => [path]
  | .run _ (.lastDirectory path) => [path]
  | _ => []

def isSearch : Request → Bool
  | .run _ (.find ..) => true
  | _ => false

def placesOn (tree : FileTree) (path : Path) : List Place :=
  let names := FileTree.names path
  (List.range (names.length + 1)).map fun count =>
    PlainPath.goUp (tree.startOf path) ((names.take count).filter fun name =>
      !name.isEmpty && name != ['.'])

def addListed (tree : FileTree) (line : String) : FileTree :=
  let path := Text.dropTrailing (· == '\n') line.toList
  let place := tree.lexicalPlace path
  if path.isEmpty then tree
  else if path.getLast? == some '/' then tree.putDirectory place
  else tree.putFile place .empty

def look (tree : FileTree) (place : Place) : IO FileTree := do
  try
    let content ← IO.FS.readBinFile (String.ofList place.path)
    return tree.putFile place (.bytes content.toList)
  catch
    | .inappropriateType _ 21 _ =>
        return tree.putDirectory place
    | .permissionDenied .. =>
        let grown := tree.putFile place .empty
        return { grown with locked := place :: grown.locked }
    | _ => return tree

partial def addListing (input : IO.FS.Stream) (tree : FileTree) : IO FileTree := do
  let line ← input.getLine
  if line.isEmpty then return tree
  addListing input (addListed tree line)

/-- Look at the free path that a request leads to until it is indeed free. -/
partial def confirm (environment : Environment) (request : Request) (tree : FileTree) :
    IO FileTree := do
  match request, request.outcome tree environment with
  | .run _ (.unique _), .finished ⟨_, [path], _⟩ =>
      let grown ← (placesOn tree path).foldlM look tree
      if grown.fileExists path then confirm environment request grown else return grown
  | _, _ => return tree

def environment : IO Environment := do
  let home ← IO.getEnv "HOME"
  let configHome ← IO.getEnv "XDG_CONFIG_HOME"
  return ⟨(home.getD "").toList, configHome.map String.toList⟩

def tree (environment : Environment) (request : Request) : IO FileTree := do
  let workingDirectory := PlainPath.ofPath ((← IO.getEnv "PWD").getD "/").toList
  let place := workingDirectory.place []
  let start := { FileTree.bare.putDirectory place with workingDirectory := place }
  let paths := (pathsOf request).flatMap (placesOn start)
  let surveyed ← (settingsPlaces environment place ++ paths).foldlM look start
  let listed ← if isSearch request then addListing (← IO.getStdin) surveyed else pure surveyed
  confirm environment request listed

end Survey

def answer (arguments : List String) : IO UInt32 := do
  let request := Request.ofTexts (arguments.map String.toList)
  let environment ← Survey.environment
  let tree ← Survey.tree environment request
  let outcome := request.outcome tree environment
  match outcome with
  | .finished report =>
      IO.eprint (String.ofList (report.messageText SettingsError.text))
      IO.print (String.ofList report.outputText)
  | .failed error => IO.eprintln (String.ofList error.text)
  | .help => IO.print usage
  | .misused => IO.eprint usage
  return UInt32.ofNat outcome.exitNumber

end FileSpec

def main (arguments : List String) : IO UInt32 :=
  FileSpec.answer arguments
