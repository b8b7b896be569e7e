import FileSpec.Proofs.Path.Unique
import Mathlib.Data.Nat.Log

/-!
# Paths that are checked

Doubling checks the powers of two up to the first free one. Halving checks numbers below that one,
the power before it being the least of them, and each check leaves at most half of the numbers. So
there are two checks at most for each binary digit of the number that is found, and three more:
`Flavor.uniquePath_checks_few`.
-/

set_option autoImplicit false

namespace FileSpec

namespace Numbering

variable {taken : Nat → Bool}

/-- Doubling up to a free number asks for every number on the way. -/
theorem doubling_eq {limit exponent number : Nat} (within : exponent < limit)
    (before : ∀ smaller < exponent, taken (2 ^ smaller * number) = true)
    (free : taken (2 ^ exponent * number) = false) :
    doubling taken limit number =
      ⟨2 ^ exponent * number, (List.range (exponent + 1)).map (2 ^ · * number)⟩ := by
  induction exponent generalizing limit number with
  | zero =>
      cases limit with
      | zero => exact absurd within (Nat.not_lt_zero _)
      | succ limit =>
          have isFree : taken number = false := by simpa using free
          simp [doubling, isFree]
  | succ exponent inductionHypothesis =>
      cases limit with
      | zero => exact absurd within (Nat.not_lt_zero _)
      | succ limit =>
          have isTaken : taken number = true := by simpa using before 0 (Nat.succ_pos exponent)
          have takenLater : ∀ smaller < exponent, taken (2 ^ smaller * (2 * number)) = true := by
            intro smaller less
            rw [power_mul_double]
            exact before (smaller + 1) (Nat.succ_lt_succ less)
          have freeLater : taken (2 ^ exponent * (2 * number)) = false := by
            rw [power_mul_double]
            exact free
          have later := inductionHypothesis (Nat.lt_of_succ_lt_succ within) takenLater freeLater
          rw [List.range_succ_eq_map]
          simp [doubling, isTaken, later, power_mul_double, Function.comp_def]

/-- Halving asks for nothing outside of its interval, and never for its high end. -/
theorem mem_asked_halving {low high number : Nat}
    (asked : number ∈ (halving taken low high).asked) : low ≤ number ∧ number < high := by
  fun_induction halving taken low high with
  | case1 low high less middle later afterTaken beforeFree =>
      rcases List.mem_cons.mp asked with rfl | inLater
      · omega
      · cases isTaken : taken middle with
        | true =>
            have inside := afterTaken (by simpa [later, isTaken] using inLater)
            omega
        | false =>
            have inside := beforeFree (by simpa [later, isTaken] using inLater)
            omega
  | case2 low high done => exact absurd asked List.not_mem_nil

/-- Each number that is asked for leaves an interval of at most half the length. -/
theorem length_asked_halving_le (taken : Nat → Bool) (low high : Nat) :
    ∀ exponent, high < low + 2 ^ exponent → (halving taken low high).asked.length ≤ exponent := by
  fun_induction halving taken low high with
  | case1 low high less middle later afterTaken beforeFree =>
      intro exponent narrow
      cases exponent with
      | zero =>
          rw [Nat.pow_zero] at narrow
          omega
      | succ exponent =>
          rw [Nat.pow_succ] at narrow
          apply Nat.succ_le_succ
          cases isTaken : taken middle with
          | true =>
              simp only [later, isTaken, dif_pos]
              apply afterTaken
              omega
          | false =>
              simp only [later, isTaken, Bool.false_eq_true, dif_neg, not_false_eq_true]
              apply beforeFree
              omega
  | case2 low high done => exact fun exponent _ => Nat.zero_le exponent

/-- Halving below a power of two begins at the power before it, and there is none before one. -/
theorem mem_asked_below_power {exponent number : Nat}
    (asked : number ∈ (halving taken (max 1 (2 ^ exponent / 2)) (2 ^ exponent)).asked) :
    1 ≤ exponent ∧ 2 ^ (exponent - 1) ≤ number ∧ number < 2 ^ exponent := by
  have inside := mem_asked_halving asked
  cases exponent with
  | zero =>
      rw [Nat.pow_zero] at inside
      omega
  | succ previous =>
      rw [max_half_power] at inside
      exact ⟨Nat.succ_pos previous, inside⟩

theorem length_asked_below_power_le (taken : Nat → Bool) (exponent : Nat) :
    (halving taken (max 1 (2 ^ exponent / 2)) (2 ^ exponent)).asked.length ≤ exponent := by
  apply length_asked_halving_le
  omega

/--
The search asks for the powers of two up to the first free one, then for numbers between this and
the power before it, and so for few numbers in all.
-/
theorem firstFree_asks {limit someExponent : Nat} (below : someExponent < limit)
    (someFree : taken (2 ^ someExponent) = false) :
    ∃ exponent narrowing,
      (∀ smaller < exponent, taken (2 ^ smaller) = true) ∧ taken (2 ^ exponent) = false ∧
      (firstFree taken limit).asked = (List.range (exponent + 1)).map (2 ^ ·) ++ narrowing ∧
      (∀ number ∈ narrowing,
        1 ≤ exponent ∧ 2 ^ (exponent - 1) ≤ number ∧ number < 2 ^ exponent) ∧
      (firstFree taken limit).asked.length ≤
        2 * Nat.clog 2 (firstFree taken limit).number + 1 := by
  obtain ⟨exponent, free, before, -, above⟩ := (firstFree_finds below someFree).within
  have first : exponent ≤ someExponent := by
    apply Nat.not_lt.mp
    intro later
    have isTaken := before someExponent later
    simp [someFree] at isTaken
  have doubled : doubling taken limit 1 =
      ⟨2 ^ exponent * 1, (List.range (exponent + 1)).map (2 ^ · * 1)⟩ := by
    apply doubling_eq (Nat.lt_of_le_of_lt first below)
    · simpa using before
    · simpa using free
  simp only [Nat.mul_one] at doubled
  have asked : (firstFree taken limit).asked = (List.range (exponent + 1)).map (2 ^ ·) ++
      (halving taken (max 1 (2 ^ exponent / 2)) (2 ^ exponent)).asked := by
    simp only [firstFree, doubled]
  have digits : exponent ≤ Nat.clog 2 (firstFree taken limit).number := by
    cases exponent with
    | zero => exact Nat.zero_le _
    | succ previous => exact (Nat.lt_clog_iff_pow_lt Nat.one_lt_two).mpr (above previous rfl).1
  refine ⟨exponent, _, before, free, asked, fun number => mem_asked_below_power, ?_⟩
  have narrowed := length_asked_below_power_le taken exponent
  rw [asked, List.length_append, List.length_map, List.length_range]
  omega

end Numbering

namespace Flavor

variable (flavor : Flavor)

theorem checked_uniquePath_of_taken {fileExists : Path → Bool} {path : Path}
    (isTaken : fileExists path = true) (limit : Nat) :
    (flavor.uniquePath fileExists limit path).checked = path :: path ::
      (Numbering.firstFree (fun number => fileExists (flavor.numbered path number))
        (limit + 1)).asked.map (flavor.numbered path) := by
  simp [uniquePath, isTaken]

/--
Among finitely many files, the search for a free variant of a path that is taken checks the path
twice, the variants whose numbers are powers of two up to the first free one, and then variants
between this and the power before it. It checks two paths at most for each binary digit of the
number that is found, and three more.
-/
theorem uniquePath_checks_few {fileExists : Path → Bool} {files : Finset Path}
    (present : ∀ other, fileExists other = true ↔ other ∈ files) {limit : Nat}
    (enough : files.card ≤ limit) {path : Path} (isTaken : fileExists path = true) :
    (∃ exponent narrowing,
      (∀ smaller < exponent, fileExists (flavor.numbered path (2 ^ smaller)) = true) ∧
      fileExists (flavor.numbered path (2 ^ exponent)) = false ∧
      (flavor.uniquePath fileExists limit path).checked = path :: path ::
        ((List.range (exponent + 1)).map (2 ^ ·) ++ narrowing).map (flavor.numbered path) ∧
      ∀ number ∈ narrowing,
        1 ≤ exponent ∧ 2 ^ (exponent - 1) ≤ number ∧ number < 2 ^ exponent) ∧
    (∃ number, (flavor.uniquePath fileExists limit path).path = flavor.numbered path number) ∧
    ∀ number, (flavor.uniquePath fileExists limit path).path = flavor.numbered path number →
      (flavor.uniquePath fileExists limit path).checked.length ≤ 2 * Nat.clog 2 number + 3 := by
  obtain ⟨someExponent, below, absent⟩ := flavor.exists_free_power files enough path
  have someFree : fileExists (flavor.numbered path (2 ^ someExponent)) = false := by
    simpa [← Bool.not_eq_true, present] using absent
  obtain ⟨exponent, narrowing, before, free, asked, between, few⟩ :=
    @Numbering.firstFree_asks (fun number => fileExists (flavor.numbered path number)) _ _ below
      someFree
  have found := flavor.path_uniquePath_of_taken isTaken limit
  have checked := flavor.checked_uniquePath_of_taken isTaken limit
  refine ⟨⟨exponent, narrowing, before, free, by rw [checked, asked], between⟩, ⟨_, found⟩, ?_⟩
  intro number sameFound
  have same := flavor.numbered_injective path (found.symm.trans sameFound)
  rw [checked, List.length_cons, List.length_cons, List.length_map, ← same]
  omega

/-- There are as many checks as there can be: 8 is the first free power of two, and 4 is taken. -/
example : (posix.uniquePath (fun other => decide (other ∈ filesWithGap)) 4 "a.txt".toList).checked =
    "a.txt".toList :: "a.txt".toList ::
      [1, 2, 4, 8, 6, 5, 4].map (posix.numbered "a.txt".toList) := by
  decide +kernel

theorem uniquePath_checks_few_withGap :
    (∀ other, decide (other ∈ filesWithGap) = true ↔ other ∈ filesWithGap) ∧
    filesWithGap.card ≤ 4 ∧ decide ("a.txt".toList ∈ filesWithGap) = true ∧
    (posix.uniquePath (fun other => decide (other ∈ filesWithGap)) 4 "a.txt".toList).path =
      posix.numbered "a.txt".toList 5 ∧
    (posix.uniquePath (fun other => decide (other ∈ filesWithGap)) 4
      "a.txt".toList).checked.length ≤ 2 * Nat.clog 2 5 + 3 := by
  have present : ∀ other, decide (other ∈ filesWithGap) = true ↔ other ∈ filesWithGap :=
    fun other => decide_eq_true_iff
  have enough : filesWithGap.card ≤ 4 := List.toFinset_card_le _
  have isTaken : decide ("a.txt".toList ∈ filesWithGap) = true := by simp [filesWithGap]
  have found : (posix.uniquePath (fun other => decide (other ∈ filesWithGap)) 4
      "a.txt".toList).path = posix.numbered "a.txt".toList 5 := by decide +kernel
  exact ⟨present, enough, isTaken, found,
    (uniquePath_checks_few posix present enough isTaken).2.2 5 found⟩

end Flavor

end FileSpec
