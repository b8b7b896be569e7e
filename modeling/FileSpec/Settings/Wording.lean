import FileSpec.Settings.Resolution

/-!
Wording for settings that are not there, for the user who has to mend them.
-/

set_option autoImplicit false

namespace FileSpec

open Text

def Fault.text : Fault → String
  | notABoolean => "is neither true nor false"
  | notAStyle => "is not one of host, posix and windows"
  | notAList => "is not a list"
  | notAString => "is not a string"
  | emptyString => "is empty"
  | tooFewItems => "has too few items"
  | notAnInteger => "is not an integer"
  | noIntegerText => "does not write an integer"
  | fraction => "has a fraction"
  | notFinite => "is not finite"
  | tooLarge => "is too large"
  | notPositive => "is not positive"
  | unknownField => "is not a setting"
  | notATable => "is not a table"

def FieldError.text (error : FieldError) : List Char :=
  ['.'].intercalate (error.location.map LocationStep.text) ++ ' ' :: error.fault.text.toList

def FileError.text : FileError → List Char
  | os error => error.message
  | nulInPath => "A path holds NUL".toList

def SourceError.text : SourceError → List Char
  | file error => error.text
  | notUtf8 => "A settings file is not UTF-8".toList
  | notToml .malformed => "A settings file is not TOML".toList
  | notToml .tooManyDigits => "A settings file has a number with too many digits".toList

def SettingsError.text : SettingsError → List Char
  | source error => error.text
  | invalid errors => (", ".toList).intercalate (errors.map FieldError.text)
  | unknownHome => "The home directory is unknown".toList

end FileSpec
