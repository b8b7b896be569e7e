import FileSpec.Path.Numbering
import Mathlib.Data.Finset.Card
import Mathlib.Data.Finset.Preimage
import Mathlib.Tactic.Ring

/-!
# Free numbers

Doubling ends at the first power of two that is free. Halving looks at nothing but numbers, free
or taken in any order, between the power before it and that power. What it keeps is that its high
end is free, and that its low end is the one it began with or follows a taken number.
-/

set_option autoImplicit false

namespace FileSpec.Numbering

theorem power_mul_double (exponent number : Nat) :
    2 ^ exponent * (2 * number) = 2 ^ (exponent + 1) * number := by
  ring

/-- Where halving begins, below a power of two behind the first one. -/
theorem max_half_power (exponent : Nat) : max 1 (2 ^ (exponent + 1) / 2) = 2 ^ exponent := by
  have positive : 1 ≤ 2 ^ exponent := Nat.one_le_two_pow
  omega

variable {taken : Nat → Bool}

/-- Doubling stops at a number that is free, unless the limit is reached before. -/
theorem doubling_stops (taken : Nat → Bool) (limit number : Nat) :
    ∃ exponent ≤ limit, (doubling taken limit number).number = 2 ^ exponent * number ∧
      (∀ smaller < exponent, taken (2 ^ smaller * number) = true) ∧
      (exponent < limit → taken (2 ^ exponent * number) = false) := by
  induction limit generalizing number with
  | zero => exact ⟨0, Nat.le_refl 0, by simp [doubling], by simp, by simp⟩
  | succ limit inductionHypothesis =>
      by_cases isTaken : taken number = true
      · obtain ⟨exponent, within, stop, before, free⟩ := inductionHypothesis (2 * number)
        refine ⟨exponent + 1, by omega, ?_, ?_, ?_⟩
        · simp only [doubling, isTaken, if_true, stop, power_mul_double]
        · intro smaller less
          cases smaller with
          | zero => simpa using isTaken
          | succ smaller =>
              rw [← power_mul_double]
              exact before smaller (by omega)
        · intro less
          rw [← power_mul_double]
          exact free (by omega)
      · exact ⟨0, Nat.zero_le _, by simp [doubling, isTaken], by simp, by simpa using isTaken⟩

theorem doubling_eq_of_free {exponent number : Nat} (free : taken (2 ^ exponent * number) = false)
    {limit other : Nat} (below : exponent < limit) (belowOther : exponent < other) :
    doubling taken limit number = doubling taken other number := by
  induction exponent generalizing number limit other with
  | zero =>
      obtain ⟨limit, rfl⟩ : ∃ less, limit = less + 1 := ⟨limit - 1, by omega⟩
      obtain ⟨other, rfl⟩ : ∃ less, other = less + 1 := ⟨other - 1, by omega⟩
      have isFree : taken number = false := by simpa using free
      simp [doubling, isFree]
  | succ exponent inductionHypothesis =>
      obtain ⟨limit, rfl⟩ : ∃ less, limit = less + 1 := ⟨limit - 1, by omega⟩
      obtain ⟨other, rfl⟩ : ∃ less, other = less + 1 := ⟨other - 1, by omega⟩
      have doubled : taken (2 ^ exponent * (2 * number)) = false := by
        rw [power_mul_double]
        exact free
      have later := inductionHypothesis doubled (Nat.lt_of_succ_lt_succ below)
        (Nat.lt_of_succ_lt_succ belowOther)
      simp only [doubling, later]

theorem halving_of_le {low high : Nat} (done : high ≤ low) :
    (halving taken low high).number = high := by
  rw [halving, if_neg (by omega)]

theorem halving_of_taken {low high : Nat} (less : low < high)
    (isTaken : taken ((low + high) / 2) = true) :
    (halving taken low high).number = (halving taken ((low + high) / 2 + 1) high).number := by
  rw [halving, if_pos less]
  simp only [isTaken, if_true]

theorem halving_of_free {low high : Nat} (less : low < high)
    (isFree : taken ((low + high) / 2) = false) :
    (halving taken low high).number = (halving taken low ((low + high) / 2)).number := by
  rw [halving, if_pos less]
  simp only [isFree, Bool.false_eq_true, if_false]

/-- Halving ends at a free number, and moves its low end only behind a taken one. -/
theorem halving_finds {low high : Nat} (ordered : low ≤ high) (free : taken high = false) :
    low ≤ (halving taken low high).number ∧ (halving taken low high).number ≤ high ∧
      taken (halving taken low high).number = false ∧
      ((halving taken low high).number = low ∨
        taken ((halving taken low high).number - 1) = true) := by
  induction low, high using halving.induct taken with
  | case1 low high less middle afterTaken beforeFree =>
      have between : low ≤ middle ∧ middle < high := by omega
      by_cases isTaken : taken middle = true
      · obtain ⟨above, within, isFree, follows⟩ := afterTaken (by omega) free
        have step : (halving taken low high).number = (halving taken (middle + 1) high).number :=
          halving_of_taken less isTaken
        rw [step]
        refine ⟨by omega, within, isFree, .inr ?_⟩
        rcases follows with same | follows
        · rw [same]
          exact isTaken
        · exact follows
      · have isFree : taken middle = false := by simpa using isTaken
        obtain ⟨above, within, stillFree, follows⟩ := beforeFree between.1 isFree
        have step : (halving taken low high).number = (halving taken low middle).number :=
          halving_of_free less isFree
        rw [step]
        exact ⟨above, by omega, stillFree, follows⟩
  | case2 low high done =>
      have same : low = high := by omega
      subst same
      rw [halving_of_le (Nat.le_refl low)]
      exact ⟨Nat.le_refl low, Nat.le_refl low, free, .inl rfl⟩

/-- What the search promises of the number that it finds. -/
structure Finds (taken : Nat → Bool) (number : Nat) : Prop where
  positive : 1 ≤ number
  free : taken number = false
  /-- It is the first number, or the one before it is taken. -/
  follows : number = 1 ∨ taken (number - 1) = true
  /-- It lies between the first free power of two and the power before it. -/
  within : ∃ exponent, taken (2 ^ exponent) = false ∧
    (∀ smaller < exponent, taken (2 ^ smaller) = true) ∧
    (exponent = 0 → number = 1) ∧
    ∀ before, exponent = before + 1 → 2 ^ before < number ∧ number ≤ 2 ^ exponent

/-- If the taken numbers are the first ones, the next number is found. -/
theorem Finds.eq_succ {number last : Nat} (finds : Finds taken number)
    (firstOnes : ∀ other, 1 ≤ other → (taken other = true ↔ other ≤ last)) :
    number = last + 1 := by
  have positive := finds.positive
  have above : ¬ number ≤ last := by
    intro small
    have isTaken := (firstOnes number positive).mpr small
    simp [finds.free] at isTaken
  rcases finds.follows with first | follows
  · omega
  · by_cases first : number = 1
    · omega
    · have atMost := (firstOnes (number - 1) (by omega)).mp follows
      omega

/-- Nothing but the first number is found if that is free. -/
theorem Finds.eq_one {number : Nat} (finds : Finds taken number) (free : taken 1 = false) :
    number = 1 := by
  obtain ⟨exponent, -, before, first, -⟩ := finds.within
  cases exponent with
  | zero => exact first rfl
  | succ exponent =>
      have isTaken : taken 1 = true := before 0 (Nat.succ_pos exponent)
      simp [free] at isTaken

theorem firstFree_finds {limit exponent : Nat} (below : exponent < limit)
    (free : taken (2 ^ exponent) = false) : Finds taken (firstFree taken limit).number := by
  obtain ⟨last, within, stop, before, freeBelow⟩ := doubling_stops taken limit 1
  simp only [Nat.mul_one] at stop before freeBelow
  have stopsEarly : last ≤ exponent := by
    by_contra later
    have isTaken := before exponent (by omega)
    simp [free] at isTaken
  have isFree := freeBelow (by omega)
  have found : (firstFree taken limit).number =
      (halving taken (max 1 (2 ^ last / 2)) (2 ^ last)).number := by
    simp only [firstFree, stop]
  rw [found]
  cases last with
  | zero =>
      rw [halving_of_le (by simp)]
      exact ⟨by simp, by simpa using isFree, by simp, 0, isFree, before, by simp, by simp⟩
  | succ last =>
      have grows : 2 ^ last ≤ 2 ^ (last + 1) := Nat.pow_le_pow_right (by omega) (by omega)
      have halfTaken := before last (by omega)
      rw [max_half_power]
      obtain ⟨above, atMost, numberFree, follows⟩ := halving_finds grows isFree
      -- The low end is taken, so the search has left it.
      have left : (halving taken (2 ^ last) (2 ^ (last + 1))).number ≠ 2 ^ last := by
        intro same
        rw [same] at numberFree
        simp [halfTaken] at numberFree
      have positive : 1 ≤ 2 ^ last := Nat.one_le_two_pow
      refine ⟨by omega, numberFree, .inr (follows.resolve_left left), last + 1, isFree, before,
        by simp, ?_⟩
      intro other same
      obtain rfl : last = other := by omega
      exact ⟨by omega, atMost⟩

/-- A gap below the power before the first free one is not looked for. -/
example : (firstFree [1, 2, 4].contains 4).number = 5 := by cbv

/-- No more numbers than names lead to one of the names. -/
theorem exists_numbers {Name : Type} {name : Nat → Name} (injective : Function.Injective name)
    {names : Finset Name} {limit : Nat} (enough : names.card ≤ limit) :
    ∃ numbers : Finset Nat, numbers.card ≤ limit ∧
      ∀ number, name number ∈ names → number ∈ numbers := by
  refine ⟨names.preimage name injective.injOn, ?_, ?_⟩
  · refine (Finset.card_le_card_of_injOn name ?_ injective.injOn).trans enough
    exact fun number member => Finset.mem_preimage.mp member
  · exact fun number member => Finset.mem_preimage.mpr member

/-- Not all of the first powers of two are among fewer numbers. -/
theorem exists_power_not_mem (numbers : Finset Nat) {limit : Nat} (enough : numbers.card ≤ limit) :
    ∃ exponent < limit + 1, 2 ^ exponent ∉ numbers := by
  by_contra allTaken
  simp only [not_exists, not_and, not_not] at allTaken
  have included : (Finset.range (limit + 1)).image (2 ^ ·) ⊆ numbers := by
    intro number member
    obtain ⟨exponent, within, rfl⟩ := Finset.mem_image.mp member
    exact allTaken exponent (Finset.mem_range.mp within)
  have counted := Finset.card_le_card included
  rw [Finset.card_image_of_injective _ (Nat.pow_right_injective (Nat.le_refl 2)),
    Finset.card_range] at counted
  omega

/-- Two limits that a free power of two escapes lead to the same search. -/
theorem firstFree_eq {limit other exponent : Nat} (below : exponent < limit)
    (belowOther : exponent < other) (free : taken (2 ^ exponent) = false) :
    firstFree taken limit = firstFree taken other := by
  have same : doubling taken limit 1 = doubling taken other 1 :=
    doubling_eq_of_free (by simpa using free) below belowOther
  simp only [firstFree, same]

end FileSpec.Numbering
