import FileSpec.Command.Arguments
import FileSpec.Settings.Field
import FileSpec.Settings.Layers
import FileSpec.Settings.Style

/-!
What a user asks for: a command with its arguments, the version, or help.
-/

set_option autoImplicit false

namespace FileSpec

open Text

/-- What to do. An option that is not given leaves the matter to the settings. -/
inductive Command where
  | accept (path : Path) (specifications : List (List Char)) (ignoreCase? : Option Bool)
  | showRegex (specification : List Char)
  /-- List the files below a directory that are accepted; no specifications stand for the
  settings' own. -/
  | find (directory : Path) (patterns exclude : List (List Char))
      (recursive? ignoreCase? : Option Bool)
  | unique (path : Path)
  | trim (path : Path) (width? : Option Int)
  | lastDirectory (path : Path)
  | check (paths : List Path)
  deriving DecidableEq, Repr

inductive Request where
  | version
  | help
  | run (style? : Option PathStyle) (command : Command)
  | misused
  deriving DecidableEq, Repr

namespace Command

/-- The width that an option gives: `some none` without the option, and `none` if its value is no
positive integer. -/
def width? : Option (List Char) → Option (Option Int)
  | none => some none
  | some text => (Value.text (String.ofList text)).asPositive.toOption.map some

def helpRule : OptionRule := .flag "--help"

def caseRules : List OptionRule :=
  [.flag "--ignore-case", .flag "--case-sensitive"]

def rules? (name : String) : Option (List OptionRule) :=
  match name with
  | "match" => some (helpRule :: caseRules)
  | "regex" => some [helpRule]
  | "find" => some
      ([helpRule, .valued "--pattern" (some 'p'), .valued "--exclude" (some 'x'),
        .flag "--recursive", .flag "--no-recursive"] ++ caseRules)
  | "unique" => some [helpRule]
  | "trim" => some [helpRule, .valued "--length" (some 'n')]
  | "lastdir" => some [helpRule]
  | "check" => some [helpRule]
  | _ => none

def ofArguments? (name : String) (arguments : Arguments) : Option Command :=
  let ignoreCase? := arguments.choice? "--ignore-case" "--case-sensitive"
  match name, arguments.positional with
  | "match", path :: specification :: others =>
      some (accept path (specification :: others) ignoreCase?)
  | "regex", [specification] => some (showRegex specification)
  | "find", [] => some (search ['.'] ignoreCase?)
  | "find", [directory] => some (search directory ignoreCase?)
  | "unique", [path] => some (unique path)
  | "trim", [path] => (width? (arguments.value? "--length")).map (trim path)
  | "lastdir", [path] => some (lastDirectory path)
  | "check", path :: others => some (check (path :: others))
  | _, _ => none
where
  search (directory : Path) (ignoreCase? : Option Bool) : Command :=
    find directory (arguments.values "--pattern") (arguments.values "--exclude")
      (arguments.choice? "--recursive" "--no-recursive") ignoreCase?

def specificationLayer : List (List Char) → Value
  | [] => .null
  | specifications => .list (specifications.map fun text => .text (String.ofList text))

def truthLayer (choice? : Option Bool) : Value :=
  (choice?.map Value.boolean).getD .null

/-- The settings that the options of a command give; null for those that are not given. -/
def overrides : Command → Table
  | accept _ _ ignoreCase? => [("ignore_case", truthLayer ignoreCase?)]
  | find _ patterns exclude recursive? ignoreCase? =>
      [("patterns", specificationLayer patterns), ("exclude", specificationLayer exclude),
        ("recursive", truthLayer recursive?), ("ignore_case", truthLayer ignoreCase?)]
  | trim _ width? => [("trim_length", (width?.map Value.integer).getD .null)]
  | _ => []

end Command

namespace Request

def rules : List OptionRule :=
  [.flag "--version", .valued "--style" none, Command.helpRule]

def immediate? (arguments : Arguments) : Option Request :=
  (arguments.firstOf? ["--version", "--help"]).map fun name =>
    if name == "--version" then version else help

/-- The path style that the options give: `some none` without the option, and `none` if its value
names no style. -/
def style? (arguments : Arguments) : Option (Option PathStyle) :=
  match arguments.value? "--style" with
  | none => some none
  | some name => (PathStyle.ofName? (String.ofList name)).map some

def ofCommand (style? : Option PathStyle) (name : List Char) (texts : List (List Char)) :
    Request :=
  let name := String.ofList name
  match Command.rules? name with
  | none => misused
  | some rules =>
      match Arguments.ofTexts? rules true texts with
      | none => misused
      | some arguments =>
          if (arguments.firstOf? ["--help"]).isSome then help
          else
            match Command.ofArguments? name arguments with
            | some command => run style? command
            | none => misused

/--
The request that arguments make. Where a command is expected behind `--`, the version and
help can be asked for as well.
-/
def ofTexts (texts : List (List Char)) : Request :=
  match Arguments.ofTexts? rules false texts with
  | none => misused
  | some arguments =>
      match immediate? arguments, style? arguments, arguments.positional with
      | some request, _, _ => request
      | none, some style?, name :: others =>
          match ofCommand style? name others with
          | misused =>
              ((Arguments.ofTexts? rules false arguments.positional).bind immediate?).getD misused
          | request => request
      | none, _, _ => misused

end Request

end FileSpec
