import FileSpec.Text.Blank
import FileSpec.Text.Decimal

/-!
Integers in freely written text: with blank space around them, a sign of either kind, zeros in
front, single underscores between digits, and a fraction of zeros.

`ofPlain` reads a text in its plain form, a minus sign or none before digits that begin with a
zero only if it is alone, and `plain?` brings any other text into that form.
-/

set_option autoImplicit false

namespace FileSpec

open Text

inductive IntegerTextError where
  | malformed
  | tooManyDigits
  deriving DecidableEq, Repr

namespace IntegerText

/-- Blank space around an integer. Separators of records are none. -/
def isPadding (character : Char) : Bool :=
  isBlankChar character && !(0x1C ≤ character.toNat && character.toNat ≤ 0x1F)

def startsNumber (character : Char) : Bool :=
  character == '-' || ('1' ≤ character && character ≤ '9')

/-- What follows `last`, a zero or an underscore behind one, without more of them. If no number
starts there, `last` stands for it. -/
def afterZeros? (last : Char) : List Char → Option (List Char)
  | [] => some [last]
  | '.' :: fraction => some (last :: '.' :: fraction)
  | next :: rest =>
      if next == '0' || next == '_' then afterZeros? next rest
      else if startsNumber next then some (next :: rest)
      else none

def withoutLeadingZeros? : List Char → Option (List Char)
  | [] => none
  | first :: rest =>
      if first == '0' then afterZeros? first rest
      else if startsNumber first then some (first :: rest)
      else none

def withoutZeroFraction (number : List Char) : List Char :=
  let whole := number.takeWhile (· != '.')
  match number.drop (whole.length + 1) with
  | [] => number
  | fraction => if fraction.all (· == '0') then whole else number

/-- A number without its underscores, each of which stands between two other characters. -/
def withoutUnderscores? : List Char → Option (List Char)
  | [] => some []
  | '_' :: _ => none
  | first :: '_' :: next :: rest => (withoutUnderscores? (next :: rest)).map (first :: ·)
  | first :: rest => (withoutUnderscores? rest).map (first :: ·)

def plain? (text : List Char) : Option (List Char) :=
  match dropTrailing isPadding (text.dropWhile isPadding) with
  | '+' :: '-' :: _ => none
  | '+' :: unsigned => magnitude? unsigned
  | '-' :: unsigned => (magnitude? unsigned).map ('-' :: ·)
  | unsigned => magnitude? unsigned
where
  magnitude? (unsigned : List Char) : Option (List Char) := do
    withoutUnderscores? (withoutZeroFraction (← withoutLeadingZeros? unsigned))

def mostDigits : Nat := 4300

/-- The integer of a plain form. Too many digits are an error whatever follows them. -/
def ofPlain (plain : List Char) : Except IntegerTextError Int :=
  let (negative, unsigned) := match plain with
    | '-' :: unsigned => (true, unsigned)
    | _ => (false, plain)
  let digits := unsigned.takeWhile Char.isDigit
  if digits.isEmpty || (digits.head? == some '0' && 1 < digits.length) then .error .malformed
  else if mostDigits < digits.length then .error .tooManyDigits
  else if digits.length < unsigned.length then .error .malformed
  else
    let number : Int := ofDecimal digits
    .ok (if negative then -number else number)

/-- The integer that a text writes. The digits are too many only for a text that begins with a
plain form; any other text whose plain form is not read is malformed. -/
def read (text : List Char) : Except IntegerTextError Int :=
  match ofPlain text with
  | .ok number => .ok number
  | .error .tooManyDigits => .error .tooManyDigits
  | .error .malformed =>
      match (plain? text).map ofPlain with
      | some (.ok number) => .ok number
      | _ => .error .malformed

end IntegerText

end FileSpec
