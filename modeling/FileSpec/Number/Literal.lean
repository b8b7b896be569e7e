import FileSpec.Number.Binary64

/-!
Numbers as they are written: digits with an optional fraction and an optional power of ten.
-/

set_option autoImplicit false

namespace FileSpec.Literal

open Text

def splitSign : List Char → Bool × List Char
  | '-' :: rest => (true, rest)
  | '+' :: rest => (false, rest)
  | rest => (false, rest)

def toInt (literal : List Char) : Int :=
  let (negative, digits) := splitSign literal
  if negative then -(ofDecimal digits : Int) else ofDecimal digits

def toBinary64 (literal : List Char) : Binary64 :=
  let (negative, unsigned) := splitSign literal
  let mantissa := unsigned.takeWhile fun character => character != 'e' && character != 'E'
  let power := toInt (unsigned.drop (mantissa.length + 1))
  let whole := mantissa.takeWhile (· != '.')
  let fraction := mantissa.drop (whole.length + 1)
  Binary64.ofDecimal negative (ofDecimal (whole ++ fraction)) (power - fraction.length)

end FileSpec.Literal
