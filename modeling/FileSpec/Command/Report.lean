import FileSpec.FileTree.Search
import FileSpec.Path.Validity
import FileSpec.Settings.Resolution

/-!
How a command ends: what it puts out, what it tells, and its exit code.
-/

set_option autoImplicit false

namespace FileSpec

open Text

inductive ExitCode where
  | success
  | noMatch
  | executionError
  | inputError
  deriving DecidableEq, Repr

def ExitCode.number : ExitCode → Nat
  | success => 0
  | noMatch => 1
  | executionError => 3
  | inputError => 4

inductive Message where
  | invalidSettings (error : SettingsError)
  | unreadableSettings (error : OsError)
  | refused (error : PathError)
  | refusedPath (path : Path) (error : PathError)
  | missingDirectory (path : Path)
  | unreadableDirectory (error : OsError)
  | warning (text : List Char)
  | nothingFound

def Message.text (describe : SettingsError → List Char) : Message → List Char
  | invalidSettings error =>
      "Error: Invalid configuration: ".toList ++ describe error ++
        "\nCheck .michi/config.toml for syntax errors or invalid values.".toList
  | unreadableSettings error =>
      "Error: Cannot read configuration file: ".toList ++ error.message ++
        "\nCheck file permissions for .michi/config.toml.".toList
  | refused error => "Error: ".toList ++ error.message
  | refusedPath path error => "Error: ".toList ++ quoted path ++ ": ".toList ++ error.message
  | missingDirectory path => "Error: ".toList ++ noDirectoryMessage path
  | unreadableDirectory error => "Error: Cannot read directory: ".toList ++ error.message
  | warning text => "Warning: ".toList ++ text
  | nothingFound => "No files found matching the specified patterns.".toList

structure Report where
  exitCode : ExitCode
  output : List (List Char)
  messages : List Message

namespace Report

def line (text : List Char) : Report :=
  ⟨.success, [text], []⟩

def failure (exitCode : ExitCode) (message : Message) : Report :=
  ⟨exitCode, [], [message]⟩

def lines (texts : List (List Char)) : List Char :=
  texts.flatMap (· ++ ['\n'])

variable (report : Report)

def outputText : List Char :=
  lines report.output

def messageText (describe : SettingsError → List Char) : List Char :=
  lines (report.messages.map (Message.text describe))

end Report

end FileSpec
