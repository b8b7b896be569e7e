import FileSpec.Number.IntegerText
import FileSpec.Settings.Value
import FileSpec.Text.Order

/-!
Reading the fields of a record from values, with all errors and where they are.

What the readers `asBoolean`, `asString`, `asInteger` and `asList` accept, how `readFields` collects
the errors of all fields and how these are placed and sorted follows the library by which settings
are validated. What the tool declares itself, its fields with their kinds, bounds and defaults, is
in `FileSpec.Settings.Basic`.
-/

set_option autoImplicit false

namespace FileSpec

open Text

inductive LocationStep where
  | field (name : String)
  | item (position : Nat)
  deriving DecidableEq, Repr

def LocationStep.text : LocationStep → List Char
  | field name => name.toList
  | item position => decimal position

inductive Fault where
  | notABoolean
  | notAStyle
  | notAList
  | notAString
  | emptyString
  | tooFewItems
  | notAnInteger
  | noIntegerText
  | fraction
  | notFinite
  | tooLarge
  | notPositive
  | unknownField
  | notATable
  deriving DecidableEq, Repr

structure FieldError where
  location : List LocationStep
  fault : Fault
  deriving DecidableEq, Repr

namespace FieldError

def below (step : LocationStep) (error : FieldError) : FieldError :=
  { error with location := step :: error.location }

def here (fault : Fault) : FieldError :=
  ⟨[], fault⟩

/-- Errors in the order of their locations, each step as text. -/
def sort (errors : List FieldError) : List FieldError :=
  let key := fun error : FieldError => error.location.map LocationStep.text
  errors.mergeSort fun first second => !(key second).lex (key first) comesBefore

end FieldError

abbrev Checked (Result : Type) := Except (List FieldError) Result

namespace Checked

def fault {Result : Type} (fault : Fault) : Checked Result :=
  .error [.here fault]

def errors {Result : Type} : Checked Result → List FieldError
  | .ok _ => []
  | .error errors => errors

end Checked

namespace Value

def asBoolean : Value → Checked Bool
  | boolean value => .ok value
  | _ => .fault .notABoolean

def asString : Value → Checked (List Char)
  | text value => .ok value.toList
  | _ => .fault .notAString

def asNonemptyString (value : Value) : Checked (List Char) := do
  match ← value.asString with
  | [] => .fault .emptyString
  | content => .ok content

/-- The least magnitude that is too large for a whole floating-point number to count as an
integer. -/
def wholeLimit : Nat := 0x8000000000000000

/-- An integer, or what counts as one: a truth value, a whole number or a text of an integer. -/
def asInteger : Value → Checked Int
  | integer value => .ok value
  | boolean value => .ok (if value then 1 else 0)
  | float value =>
      if value.isFinite then
        match value.whole? with
        | some whole => if whole.natAbs < wholeLimit then .ok whole else .fault .tooLarge
        | none => .fault .fraction
      else .fault .notFinite
  | text value =>
      match IntegerText.read value.toList with
      | .ok number => .ok number
      | .error .malformed => .fault .noIntegerText
      | .error .tooManyDigits => .fault .tooLarge
  | _ => .fault .notAnInteger

def asPositive (value : Value) : Checked Int := do
  let number ← value.asInteger
  if 0 < number then .ok number else .fault .notPositive

def checkItems {Result : Type} (check : Value → Checked Result) (items : List Value) :
    List Result × List FieldError :=
  let checked := items.map check
  let results := checked.filterMap Except.toOption
  let errors := checked.zipIdx.flatMap fun (result, position) =>
    result.errors.map (·.below (.item position))
  (results, errors)

/-- A list of items of which at least `least` are right, besides all being right. -/
def asList {Result : Type} (check : Value → Checked Result) (least : Nat) :
    Value → Checked (List Result)
  | list items =>
      let (results, errors) := checkItems check items
      let all := if results.length < least then errors ++ [.here .tooFewItems] else errors
      if all.isEmpty then .ok results else .error all
  | _ => .fault .notAList

end Value

/-- Change a record by each field of a table, or give the errors of all its fields in order. -/
def readFields {Record : Type} (readField : String → Value → Checked (Record → Record))
    (start : Record) : Value → Checked Record
  | .table fields =>
      let checked := fields.map fun (name, value) =>
        ((readField name value).mapError fun errors => errors.map (·.below (.field name)))
      let errors := checked.flatMap Checked.errors
      if errors.isEmpty then
        .ok ((checked.filterMap Except.toOption).foldl (fun record change => change record) start)
      else .error (FieldError.sort errors)
  | _ => .fault .notATable

end FileSpec
