import FileSpec.Command.Report
import FileSpec.Command.Request
import FileSpec.Path.Trim
import FileSpec.Pattern.Matcher

/-!
What a request leads to.

The settings are found first. Those that are invalid, malformed or locked away are reported;
for any other reason that there are none, the request fails without a report.
-/

set_option autoImplicit false

namespace FileSpec

inductive Outcome where
  | finished (report : Report)
  | failed (error : SettingsError)
  | help
  | misused

/-- The exit code of a process that ends like this; without a report it is that of a failure. -/
def Outcome.exitNumber : Outcome → Nat
  | finished report => report.exitCode.number
  | failed _ => 1
  | help => 0
  | misused => 2

def version : List Char := "0.1.0".toList

namespace Command

def withoutSettings (error : SettingsError) : Outcome :=
  match error with
  | .invalid _ => .finished (.failure .inputError (.invalidSettings error))
  | .source (.notToml .malformed) => .finished (.failure .inputError (.invalidSettings error))
  | .source (.file (.os cause)) =>
      if cause.isNotPermitted then .finished (.failure .inputError (.unreadableSettings cause))
      else .failed error
  | _ => .failed error

def acceptReport (settings : Settings) (path : Path) (specifications : List (List Char)) : Report :=
  if (matchesAny? settings.pathStyle.flavor settings.ignoreCase path specifications).getD false then
    .line path
  else ⟨.noMatch, [], []⟩

def searchReport (found : SelectedFiles) : Report :=
  let warnings := found.warnings.map Message.warning
  if found.paths.isEmpty then ⟨.noMatch, [], warnings ++ [.nothingFound]⟩
  else ⟨.success, found.paths, warnings⟩

def searchFailure (directory : Path) : SearchError → Report
  | .noDirectory path => .failure .inputError (.missingDirectory path)
  | .file (.os error) => .failure .executionError (.unreadableDirectory error)
  | .file .nulInPath => .failure .inputError (.missingDirectory directory)
  | .noMatcher => .failure .noMatch .nothingFound

def findReport (tree : FileTree) (settings : Settings) (directory : Path) : Report :=
  match Selection.ofSpecifications? settings.pathStyle.flavor settings.ignoreCase
      settings.patterns settings.exclude with
  | none => searchFailure directory .noMatcher
  | some selection =>
      match tree.find selection settings.ignoreCase settings.recursive directory with
      | .ok found => searchReport found
      | .error error => searchFailure directory error

def uniqueReport (tree : FileTree) (settings : Settings) (path : Path) : Report :=
  let flavor := settings.pathStyle.flavor
  match flavor.validatePath (some path) with
  | .error error => .failure .inputError (.refused error)
  | .ok () =>
      let base := settings.baseDirectory?.getD tree.workingDirectory.path
      .line (tree.uniquePath flavor (flavor.absolute base path)).path

def lastDirectoryReport (tree : FileTree) (settings : Settings) (path : Path) : Report :=
  match settings.pathStyle.flavor.lastDirectoryName tree.queries path with
  | .ok name => .line name
  | .error error => .failure .inputError (.refused error)

def checkReport (settings : Settings) (paths : List Path) : Report :=
  let messages := paths.filterMap fun path =>
    match settings.pathStyle.flavor.validatePath (some path) with
    | .ok () => none
    | .error error => some (Message.refusedPath path error)
  ⟨if messages.isEmpty then .success else .inputError, [], messages⟩

def report (tree : FileTree) (settings : Settings) : Command → Report
  | accept path specifications _ => acceptReport settings path specifications
  | showRegex specification => .line (compile settings.pathStyle.flavor specification)
  | find directory _ _ _ _ => findReport tree settings directory
  | unique path => uniqueReport tree settings path
  | trim path _ => .line
      (settings.pathStyle.flavor.trim tree.queries (some path) settings.trimLength)
  | lastDirectory path => lastDirectoryReport tree settings path
  | check paths => checkReport settings paths

def outcome (tree : FileTree) (environment : Environment) (style? : Option PathStyle)
    (command : Command) : Outcome :=
  let style := (style?.map fun style => Value.text style.name).getD .null
  match Settings.resolve tree environment none (("path_style", style) :: command.overrides) with
  | .error error => withoutSettings error
  | .ok settings => .finished (command.report tree settings)

end Command

def Request.outcome (tree : FileTree) (environment : Environment) : Request → Outcome
  | version => .finished (.line FileSpec.version)
  | help => .help
  | run style? command => command.outcome tree environment style?
  | misused => .misused

end FileSpec
