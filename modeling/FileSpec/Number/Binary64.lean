import FileSpec.Text.Decimal

/-!
Floating-point numbers of 64 bits: reading them from decimals, and their shortest text.

A decimal is read as the nearest number, and the even one of two that are equally near. The
text of a number has the fewest digits that read back.
-/

set_option autoImplicit false

namespace FileSpec

open Text

inductive Binary64 where
  /-- The number `significand * 2 ^ exponent`, negated if `negative`. -/
  | finite (negative : Bool) (significand : Nat) (exponent : Int)
  | infinite (negative : Bool)
  | notANumber
  deriving DecidableEq, Repr

namespace Binary64

/-- The nearest whole number to a quotient, the even one of two. -/
def roundQuotient (numerator denominator : Nat) : Nat :=
  let quotient := numerator / denominator
  let remainder := numerator % denominator
  if denominator < 2 * remainder || (2 * remainder == denominator && quotient % 2 == 1) then
    quotient + 1
  else quotient

def scaleDown (base : Nat) (power : Int) (numerator denominator : Nat) : Nat × Nat :=
  if 0 ≤ power then (numerator, denominator * Nat.pow base power.toNat)
  else (numerator * Nat.pow base (-power).toNat, denominator)

/-- The least significand of 53 bits, of which no number needs more. -/
def leastFull : Nat := 0x10000000000000

def leastExponent : Int := -1074

/-- The exponent at which a positive quotient has a significand of 53 bits, or the least one. -/
def exponentOf (numerator denominator : Nat) : Int :=
  let estimate : Int := (numerator.log2 : Int) - denominator.log2 - 52
  let (scaled, unit) := scaleDown 2 estimate numerator denominator
  let exponent := if scaled / unit < leastFull then estimate - 1 else estimate
  if exponent < leastExponent then leastExponent else exponent

def ofQuotient (negative : Bool) (numerator denominator : Nat) : Binary64 :=
  let exponent := exponentOf numerator denominator
  let (scaled, unit) := scaleDown 2 exponent numerator denominator
  let significand := roundQuotient scaled unit
  let (significand, exponent) :=
    if significand = 2 * leastFull then (leastFull, exponent + 1) else (significand, exponent)
  if 971 < exponent then infinite negative else finite negative significand exponent

def ofDecimal (negative : Bool) (digits : Nat) (power : Int) : Binary64 :=
  let magnitude := (decimal digits).length + power
  if digits = 0 || magnitude < -400 then finite negative 0 leastExponent
  else if 400 < magnitude then infinite negative
  else
    let (numerator, denominator) := scaleDown 10 (-power) digits 1
    ofQuotient negative numerator denominator

def quotientOf (significand : Nat) (exponent : Int) : Nat × Nat :=
  scaleDown 2 (-exponent) significand 1

def decimalMagnitude (numerator denominator : Nat) : Int :=
  let estimate : Int := (((numerator.log2 : Int) - denominator.log2) * 30103).fdiv 100000
  let below := fun power : Int =>
    let (scaled, unit) := scaleDown 10 power numerator denominator
    scaled < unit
  if below (estimate - 1) then estimate - 1
  else if below estimate then estimate
  else if below (estimate + 1) then estimate + 1
  else estimate + 2

structure Decimal where
  digits : Nat
  power : Int

/-- The nearest decimal with `count` digits that reads back as the given magnitude. -/
def decimalOf? (significand : Nat) (exponent : Int) (count : Nat) : Option Decimal :=
  let (numerator, denominator) := quotientOf significand exponent
  let power := decimalMagnitude numerator denominator - count
  let (scaled, unit) := scaleDown 10 power numerator denominator
  let low := scaled / unit
  let readsBack := fun digits => ofDecimal false digits power = finite false significand exponent
  let nearest := roundQuotient scaled unit
  let other := if nearest = low then low + 1 else low
  if readsBack nearest then some ⟨nearest, power⟩
  else if readsBack other then some ⟨other, power⟩
  else none

/-- The decimal with the fewest digits that reads back as a positive magnitude. -/
def shortest (significand : Nat) (exponent : Int) : Decimal :=
  ((List.range 17).findSome? fun fewer => decimalOf? significand exponent (fewer + 1)).getD
    ⟨significand, exponent⟩

/--
Digits with a decimal point after the first `pointPlace` of them. Numbers from 10⁻⁴ up to 10¹⁶
are written out and have a digit on both sides of the point; others have an exponent.
-/
def layOut (digits : List Char) (pointPlace : Int) : List Char :=
  if -4 < pointPlace && pointPlace ≤ 16 then
    if pointPlace ≤ 0 then
      '0' :: '.' :: List.replicate (-pointPlace).toNat '0' ++ digits
    else
      let place := pointPlace.toNat
      let whole := digits.take place ++ List.replicate (place - digits.length) '0'
      let fraction := digits.drop place
      whole ++ '.' :: (if fraction.isEmpty then ['0'] else fraction)
  else
    let power := pointPlace - 1
    let exponentDigits := decimal power.natAbs
    let fraction := digits.drop 1
    digits.take 1 ++ (if fraction.isEmpty then [] else '.' :: fraction) ++
      'e' :: (if power < 0 then '-' else '+') ::
        List.replicate (2 - exponentDigits.length) '0' ++ exponentDigits

def toText : Binary64 → List Char
  | notANumber => "nan".toList
  | infinite negative => if negative then "-inf".toList else "inf".toList
  | finite negative significand exponent =>
      let magnitude :=
        if significand = 0 then "0.0".toList
        else
          let written := shortest significand exponent
          let digits := decimal written.digits
          let significant := (digits.reverse.dropWhile (· == '0')).reverse
          layOut significant (digits.length + written.power)
      if negative then '-' :: magnitude else magnitude

def isFinite : Binary64 → Bool
  | finite _ _ _ => true
  | _ => false

def whole? : Binary64 → Option Int
  | finite negative significand exponent =>
      let (numerator, denominator) := quotientOf significand exponent
      if numerator % denominator = 0 then
        let magnitude : Int := numerator / denominator
        some (if negative then -magnitude else magnitude)
      else none
  | _ => none

end Binary64

end FileSpec
