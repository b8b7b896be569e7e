/-!
Whole numbers as text: decimal digits, and hexadecimal digits of a least width.
-/

set_option autoImplicit false

namespace FileSpec.Text

def decimal (number : Nat) : List Char :=
  Nat.toDigits 10 number

def signedDecimal : Int → List Char
  | .ofNat number => decimal number
  | .negSucc number => '-' :: decimal (number + 1)

/-- Lower-case hexadecimal digits, with zeros in front up to `width` digits. -/
def hexadecimal (width number : Nat) : List Char :=
  let digits := Nat.toDigits 16 number
  List.replicate (width - digits.length) '0' ++ digits

def hexValue? (digit : Char) : Option Nat :=
  if '0' ≤ digit && digit ≤ '9' then some (digit.toNat - 48)
  else if 'a' ≤ digit && digit ≤ 'f' then some (digit.toNat - 87)
  else if 'A' ≤ digit && digit ≤ 'F' then some (digit.toNat - 55)
  else none

def ofDigits (base : Nat) (digits : List Nat) : Nat :=
  digits.foldl (fun value digit => value * base + digit) 0

def ofDecimal (digits : List Char) : Nat :=
  ofDigits 10 (digits.map fun digit => digit.toNat - 48)

/-- The digits of a run in which single underscores may stand between digits, and what follows it;
none if no digit begins it. -/
def digitRun? (isDigit : Char → Bool) : List Char → Option (List Char × List Char)
  | [] => none
  | digit :: text => if isDigit digit then some (run digit text) else none
where
  run (digit : Char) : List Char → List Char × List Char
    | '_' :: next :: rest =>
        if isDigit next then
          let (digits, left) := run next rest
          (digit :: digits, left)
        else ([digit], '_' :: next :: rest)
    | next :: rest =>
        if isDigit next then
          let (digits, left) := run next rest
          (digit :: digits, left)
        else ([digit], next :: rest)
    | [] => ([digit], [])

end FileSpec.Text
