/-!
The arguments of a command: options and positional arguments.

An option begins with a dash. One with a value takes it from what follows the `=` behind its
name, from what follows its letter, or else from the next argument, whatever that is. After
`--` all arguments are positional.
-/

set_option autoImplicit false

namespace FileSpec

/-- An option by its name, with two dashes, and its letter. Only options with a value have one. -/
structure OptionRule where
  name : List Char
  takesValue : Bool
  letter? : Option Char

/-- An option as given, by its name; a flag has an empty value. -/
structure GivenOption where
  name : List Char
  value : List Char
  deriving DecidableEq, Repr

structure Arguments where
  options : List GivenOption
  positional : List (List Char)
  deriving DecidableEq, Repr

inductive OptionReading where
  | complete (option : GivenOption)
  /-- The next argument is the value. -/
  | valueFollows (name : List Char)
  | misused

namespace OptionRule

def flag (name : String) : OptionRule :=
  ⟨name.toList, false, none⟩

def valued (name : String) (letter? : Option Char) : OptionRule :=
  ⟨name.toList, true, letter?⟩

def readLetter (rules : List OptionRule) : List Char → OptionReading
  | _ :: letter :: value =>
      match rules.find? (·.letter? == some letter) with
      | some rule =>
          if value.isEmpty then .valueFollows rule.name else .complete ⟨rule.name, value⟩
      | none => .misused
  | _ => .misused

def read (rules : List OptionRule) (argument : List Char) : OptionReading :=
  let name := argument.takeWhile (· != '=')
  let value := argument.drop (name.length + 1)
  let hasValue := name.length < argument.length
  match rules.find? (·.name == name) with
  | some rule =>
      if rule.takesValue then
        if hasValue then .complete ⟨name, value⟩ else .valueFollows name
      else if hasValue then .misused
      else .complete ⟨name, []⟩
  | none => if argument.take 2 == ['-', '-'] then .misused else readLetter rules argument

end OptionRule

namespace Arguments

def isOption (argument : List Char) : Bool :=
  argument.head? == some '-' && 1 < argument.length

def addOption (option : GivenOption) (arguments : Arguments) : Arguments :=
  { arguments with options := option :: arguments.options }

def addPositional (argument : List Char) (arguments : Arguments) : Arguments :=
  { arguments with positional := argument :: arguments.positional }

/--
Tell options from positional arguments; none if an option is unknown or misused. Unless they
are `interspersed`, options end at the first positional argument.
-/
def ofTexts? (rules : List OptionRule) (interspersed : Bool) :
    List (List Char) → Option Arguments
  | [] => some ⟨[], []⟩
  | argument :: others =>
      if argument == ['-', '-'] then some ⟨[], others⟩
      else if isOption argument then
        match OptionRule.read rules argument with
        | .complete option => (ofTexts? rules interspersed others).map (addOption option)
        | .valueFollows name =>
            match others with
            | [] => none
            | value :: rest => (ofTexts? rules interspersed rest).map (addOption ⟨name, value⟩)
        | .misused => none
      else if interspersed then (ofTexts? rules interspersed others).map (addPositional argument)
      else some ⟨[], argument :: others⟩

variable (arguments : Arguments)

def values (name : String) : List (List Char) :=
  (arguments.options.filter (·.name == name.toList)).map (·.value)

def value? (name : String) : Option (List Char) :=
  (arguments.values name).getLast?

def firstOf? (names : List String) : Option String :=
  arguments.options.findSome? fun option => names.find? (·.toList == option.name)

/-- What the last given of two opposite flags says, if one is given. -/
def choice? (yes no : String) : Option Bool :=
  (arguments.options.filterMap fun option =>
    if option.name == yes.toList then some true
    else if option.name == no.toList then some false
    else none).getLast?

end Arguments

end FileSpec
