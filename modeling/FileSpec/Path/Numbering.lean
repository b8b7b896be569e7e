/-!
The search for a free number.

The numbers 1, 2, 4, … are tried until one is free, and the free number is then looked for
below it by halving. Every number that was asked for is kept, in order.
-/

set_option autoImplicit false

namespace FileSpec.Numbering

structure Found where
  number : Nat
  asked : List Nat

def doubling (taken : Nat → Bool) : (limit number : Nat) → Found
  | 0, number => ⟨number, []⟩
  | limit + 1, number =>
      if taken number then
        let later := doubling taken limit (2 * number)
        ⟨later.number, number :: later.asked⟩
      else ⟨number, [number]⟩

/--
Narrow `low ≤ high` down to one number: what follows a taken number is examined next, and
otherwise what comes before a free one.
-/
def halving (taken : Nat → Bool) (low high : Nat) : Found :=
  if low < high then
    let middle := (low + high) / 2
    let later :=
      if taken middle then halving taken (middle + 1) high else halving taken low middle
    ⟨later.number, middle :: later.asked⟩
  else ⟨high, []⟩
termination_by high - low

/-- A number that is not taken; `limit` bounds how often a number is doubled. -/
def firstFree (taken : Nat → Bool) (limit : Nat) : Found :=
  let power := doubling taken limit 1
  let found := halving taken (max 1 (power.number / 2)) power.number
  ⟨found.number, power.asked ++ found.asked⟩

end FileSpec.Numbering
