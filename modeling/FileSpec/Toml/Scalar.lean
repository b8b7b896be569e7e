import FileSpec.Number.Literal
import FileSpec.Settings.Value
import FileSpec.Toml.Text

/-!
Reading TOML: dates, times and numbers.

Each of these answers none where nothing of its kind begins.
-/

set_option autoImplicit false

namespace FileSpec.Toml

open FileSpec.Text

def greatestDigitCount : Nat := 4300

def twoDigits? (least greatest : Nat) : List Char → Option (Reading Nat)
  | tens :: ones :: rest =>
      let value := ofDecimal [tens, ones]
      if tens.isDigit && ones.isDigit && least ≤ value && value ≤ greatest then some (value, rest)
      else none
  | _ => none

def expect? (expected : List Char) : List Char → Option (Reading Char)
  | character :: rest => if expected.contains character then some (character, rest) else none
  | [] => none

/-- A fraction of a second in millionths; digits after the sixth are dropped. -/
def readFraction (text : List Char) : Nat × List Char :=
  match text with
  | '.' :: rest =>
      let digits := rest.takeWhile Char.isDigit
      if digits.isEmpty then (0, text)
      else
        let kept := digits.take 6
        (ofDecimal (kept ++ List.replicate (6 - kept.length) '0'), rest.drop digits.length)
  | _ => (0, text)

def padded (width number : Nat) : List Char :=
  List.replicate (width - (decimal number).length) '0' ++ decimal number

def readTime? (text : List Char) : Option (Reading (List Char)) := do
  let (hour, text) ← twoDigits? 0 23 text
  let (_, text) ← expect? [':'] text
  let (minute, text) ← twoDigits? 0 59 text
  let (_, text) ← expect? [':'] text
  let (second, text) ← twoDigits? 0 59 text
  let (micros, left) := readFraction text
  let fraction := if micros = 0 then [] else '.' :: padded 6 micros
  some (padded 2 hour ++ ':' :: padded 2 minute ++ ':' :: padded 2 second ++ fraction, left)

def readOffset (text : List Char) : List Char × List Char :=
  let numeric? : Option (Reading (List Char)) := do
    let (sign, text) ← expect? ['+', '-'] text
    let (hour, text) ← twoDigits? 0 23 text
    let (_, text) ← expect? [':'] text
    let (minute, left) ← twoDigits? 0 59 text
    let sign := if hour = 0 && minute = 0 then '+' else sign
    some (sign :: padded 2 hour ++ ':' :: padded 2 minute, left)
  match text with
  | 'Z' :: rest => ("+00:00".toList, rest)
  | 'z' :: rest => ("+00:00".toList, rest)
  | _ => numeric?.getD ([], text)

def isLeapYear (year : Nat) : Bool :=
  (year % 4 == 0 && year % 100 != 0) || year % 400 == 0

def daysInMonth (year month : Nat) : Nat :=
  if month = 2 then (if isLeapYear year then 29 else 28)
  else if [4, 6, 9, 11].contains month then 30
  else 31

def readDate? : List Char → Option (Reading (Nat × Nat × Nat))
  | a :: b :: c :: d :: '-' :: rest => do
      if [a, b, c, d].all Char.isDigit then
        let (month, rest) ← twoDigits? 1 12 rest
        let (_, rest) ← expect? ['-'] rest
        let (day, left) ← twoDigits? 1 31 rest
        some ((ofDecimal [a, b, c, d], month, day), left)
      else none
  | _ => none

def readDateTime? (text : List Char) : Option (Except Defect (Reading (List Char))) := do
  let ((year, month, day), afterDate) ← readDate? text
  let date := padded 4 year ++ '-' :: padded 2 month ++ '-' :: padded 2 day
  let time? : Option (Reading (List Char)) := do
    let (_, text) ← expect? ['T', 't', ' '] afterDate
    let (time, afterTime) ← readTime? text
    let (offset, left) := readOffset afterTime
    some ('T' :: time ++ offset, left)
  let (time, left) := time?.getD ([], afterDate)
  if year = 0 || daysInMonth year month < day then some (.error .malformed)
  else some (.ok (date ++ time, left))

def baseOf? : Char → Option Nat
  | 'x' => some 16
  | 'o' => some 8
  | 'b' => some 2
  | _ => none

def readBased? : List Char → Option (Reading Int)
  | '0' :: letter :: text => do
      let base ← baseOf? letter
      let isDigit := fun digit => (hexValue? digit).any (· < base)
      let (digits, left) ← digitRun? isDigit text
      some (ofDigits base (digits.filterMap hexValue?), left)
  | _ => none

def readSign : List Char → List Char × List Char
  | '+' :: rest => (['+'], rest)
  | '-' :: rest => (['-'], rest)
  | text => ([], text)

def readFractionPart (text : List Char) : List Char × List Char :=
  match text with
  | '.' :: rest =>
      match digitRun? Char.isDigit rest with
      | some (digits, left) => ('.' :: digits, left)
      | none => ([], text)
  | _ => ([], text)

def readPowerPart (text : List Char) : List Char × List Char :=
  match text with
  | letter :: rest =>
      if letter == 'e' || letter == 'E' then
        let (sign, afterSign) := readSign rest
        match digitRun? Char.isDigit afterSign with
        | some (digits, left) => (letter :: sign ++ digits, left)
        | none => ([], text)
      else ([], text)
  | [] => ([], text)

/-- The whole part of a decimal number, which begins with a zero only if it is zero. -/
def readWhole? : List Char → Option (Reading (List Char))
  | '0' :: rest => some (['0'], rest)
  | text => digitRun? Char.isDigit text

def readDecimal? (text : List Char) : Option (Except Defect (Reading Value)) := do
  let (sign, afterSign) := readSign text
  let (whole, afterWhole) ← readWhole? afterSign
  let (fraction, afterFraction) := readFractionPart afterWhole
  let (power, left) := readPowerPart afterFraction
  if fraction.isEmpty && power.isEmpty then
    if greatestDigitCount < whole.length then some (.error .tooManyDigits)
    else some (.ok (.integer (Literal.toInt (sign ++ whole)), left))
  else some (.ok (.float (Literal.toBinary64 (sign ++ whole ++ fraction ++ power)), left))

def readSpecial? (text : List Char) : Option (Reading Value) :=
  let (sign, rest) := readSign text
  match rest with
  | 'i' :: 'n' :: 'f' :: left => some (.float (.infinite (sign == ['-'])), left)
  | 'n' :: 'a' :: 'n' :: left => some (.float .notANumber, left)
  | _ => none

/-- A date, a time or a number, in the order in which they are tried. -/
def readScalar (text : List Char) : Except Defect (Reading Value) :=
  let time := fun (written, left) => (Value.time (String.ofList written), left)
  let scalar? :=
    (readDateTime? text).map (·.map time)
      <|> (readTime? text).map (.ok ∘ time)
      <|> (readBased? text).map (fun (number, left) => .ok (.integer number, left))
      <|> readDecimal? text
      <|> (readSpecial? text).map .ok
  scalar?.getD (.error .malformed)

end FileSpec.Toml
