import FileSpec.Path.Unique
import FileSpec.Proofs.Path.Numbering

/-!
# Free paths

The numbered variants of a path are different paths, so finitely many files leave one of the
powers of two free, and the search for a free variant ends there.
-/

set_option autoImplicit false

namespace FileSpec

open Text

theorem Text.decimal_injective : Function.Injective decimal := by
  intro first second same
  have read := congrArg (Nat.ofDigitChars 10 · 0) same
  simpa [decimal, Nat.ofDigitChars_ten_toDigits] using read

namespace Flavor

variable (flavor : Flavor)

/-- What a variant has behind the stem of the file name. -/
def numberMark (number : Nat) : List Char :=
  ' ' :: '(' :: decimal number ++ [')']

theorem numbered_eq (path : Path) (number : Nat) :
    flavor.numbered path number =
      (path.take (path.length - (flavor.fileName path).length) ++ flavor.stem path) ++
        (numberMark number ++ flavor.extension path) := by
  simp [numbered, numberMark]

theorem numberMark_injective : Function.Injective numberMark := by
  intro first second same
  simp only [numberMark, List.cons_append, List.cons.injEq, true_and] at same
  exact decimal_injective (List.append_cancel_right same)

theorem not_mem_numberMark {character : Char} (noDigit : character.isDigit = false)
    (outside : character ∉ [' ', '(', ')']) (number : Nat) : character ∉ numberMark number := by
  intro member
  have inDigits : character ∈ decimal number := by
    simp only [numberMark, List.mem_cons, List.mem_append] at member outside
    grind
  have isDigit := Nat.isDigit_of_mem_toDigits (Nat.succ_pos 9) (Nat.le_refl 10) inDigits
  rw [noDigit] at isDigit
  exact Bool.false_ne_true isDigit

theorem numbered_injective (path : Path) : Function.Injective (flavor.numbered path) := by
  intro first second same
  rw [numbered_eq, numbered_eq] at same
  exact numberMark_injective (List.append_cancel_right (List.append_cancel_left same))

/-- No path has more numbered variants that are files than the limit says. -/
def HasFewVariants (fileExists : Path → Bool) (limit : Nat) : Prop :=
  ∀ path, ∃ numbers : Finset Nat, numbers.card ≤ limit ∧
    ∀ number, fileExists (flavor.numbered path number) = true → number ∈ numbers

/-- There are no more variants than files. -/
theorem hasFewVariants_of_files {fileExists : Path → Bool} {files : Finset Path}
    (included : ∀ other, fileExists other = true → other ∈ files) {limit : Nat}
    (enough : files.card ≤ limit) : flavor.HasFewVariants fileExists limit := by
  intro path
  obtain ⟨numbers, within, complete⟩ :=
    Numbering.exists_numbers (flavor.numbered_injective path) enough
  exact ⟨numbers, within, fun number present => complete number (included _ present)⟩

variable {flavor} in
/-- The search for a free variant ends at one. -/
theorem HasFewVariants.firstFree_finds {fileExists : Path → Bool} {limit : Nat}
    (few : flavor.HasFewVariants fileExists limit) (path : Path) :
    Numbering.Finds (fun number => fileExists (flavor.numbered path number))
      (Numbering.firstFree (fun number => fileExists (flavor.numbered path number))
        (limit + 1)).number := by
  obtain ⟨numbers, enough, included⟩ := few path
  obtain ⟨exponent, below, absent⟩ := Numbering.exists_power_not_mem numbers enough
  apply Numbering.firstFree_finds below
  rw [← Bool.not_eq_true]
  exact fun present => absent (included _ present)

/-- Not all of the first powers of two are taken if there are fewer files. -/
theorem exists_free_power (files : Finset Path) {limit : Nat} (enough : files.card ≤ limit)
    (path : Path) : ∃ exponent < limit + 1, flavor.numbered path (2 ^ exponent) ∉ files := by
  have few : flavor.HasFewVariants (fun other => decide (other ∈ files)) limit :=
    flavor.hasFewVariants_of_files (fun _ => of_decide_eq_true) enough
  obtain ⟨numbers, within, included⟩ := few path
  obtain ⟨exponent, below, absent⟩ := Numbering.exists_power_not_mem numbers within
  exact ⟨exponent, below, fun present => absent (included _ (decide_eq_true present))⟩

@[simp]
theorem uniquePath_of_free {fileExists : Path → Bool} {path : Path}
    (free : fileExists path = false) (limit : Nat) :
    flavor.uniquePath fileExists limit path = ⟨path, [path]⟩ := by
  simp [uniquePath, free]

theorem path_uniquePath_of_taken {fileExists : Path → Bool} {path : Path}
    (isTaken : fileExists path = true) (limit : Nat) :
    (flavor.uniquePath fileExists limit path).path = flavor.numbered path
      (Numbering.firstFree (fun number => fileExists (flavor.numbered path number))
        (limit + 1)).number := by
  simp [uniquePath, isTaken]

/--
Among finitely many files, a free path stands for itself, and for a taken one the search finds a
free variant, behind the first variants if they are all that is taken. No larger limit changes
anything.
-/
theorem uniquePath_finds_free {fileExists : Path → Bool} {files : Finset Path}
    (present : ∀ other, fileExists other = true ↔ other ∈ files) {limit : Nat}
    (enough : files.card ≤ limit) (path : Path) :
    (fileExists path = false → (flavor.uniquePath fileExists limit path).path = path) ∧
    (fileExists path = true →
      ∃ number, (flavor.uniquePath fileExists limit path).path = flavor.numbered path number ∧
        Numbering.Finds (fun other => fileExists (flavor.numbered path other)) number) ∧
    (∀ last, fileExists path = true →
      (∀ other, 1 ≤ other → (fileExists (flavor.numbered path other) = true ↔ other ≤ last)) →
      (flavor.uniquePath fileExists limit path).path = flavor.numbered path (last + 1)) ∧
    ∀ more, files.card ≤ more →
      flavor.uniquePath fileExists more path = flavor.uniquePath fileExists limit path := by
  have finds : ∀ bound, files.card ≤ bound →
      Numbering.Finds (fun other => fileExists (flavor.numbered path other))
        (Numbering.firstFree (fun other => fileExists (flavor.numbered path other))
          (bound + 1)).number := by
    intro bound large
    obtain ⟨exponent, below, absent⟩ := flavor.exists_free_power files large path
    apply Numbering.firstFree_finds below
    simpa [← Bool.not_eq_true, present] using absent
  refine ⟨fun free => ?_, fun isTaken => ?_, fun last isTaken firstOnes => ?_, fun more large => ?_⟩
  · rw [uniquePath_of_free flavor free]
  · exact ⟨_, path_uniquePath_of_taken flavor isTaken limit, finds limit enough⟩
  · rw [path_uniquePath_of_taken flavor isTaken, (finds limit enough).eq_succ firstOnes]
  · obtain ⟨exponent, below, absent⟩ :=
      flavor.exists_free_power files (Nat.le_refl files.card) path
    have free : fileExists (flavor.numbered path (2 ^ exponent)) = false := by
      simpa [← Bool.not_eq_true, present] using absent
    have same : Numbering.firstFree (fun other => fileExists (flavor.numbered path other))
        (more + 1) = Numbering.firstFree (fun other => fileExists (flavor.numbered path other))
        (limit + 1) := Numbering.firstFree_eq (by omega) (by omega) free
    simp only [uniquePath, same]

/-- Four files that leave a gap at the third variant. -/
def filesWithGap : Finset Path :=
  ["a.txt".toList, "a (1).txt".toList, "a (2).txt".toList, "a (4).txt".toList].toFinset

theorem uniquePath_finds_free_withGap :
    (∀ other, decide (other ∈ filesWithGap) = true ↔ other ∈ filesWithGap) ∧
    filesWithGap.card ≤ 4 ∧ decide ("a.txt".toList ∈ filesWithGap) = true ∧
    ∃ number, (posix.uniquePath (fun other => decide (other ∈ filesWithGap)) 4
        "a.txt".toList).path = posix.numbered "a.txt".toList number ∧
      Numbering.Finds
        (fun other => decide (posix.numbered "a.txt".toList other ∈ filesWithGap)) number := by
  have present : ∀ other, decide (other ∈ filesWithGap) = true ↔ other ∈ filesWithGap :=
    fun other => decide_eq_true_iff
  have enough : filesWithGap.card ≤ 4 := List.toFinset_card_le _
  have isTaken : decide ("a.txt".toList ∈ filesWithGap) = true := by simp [filesWithGap]
  exact ⟨present, enough, isTaken,
    (uniquePath_finds_free posix present enough "a.txt".toList).2.1 isTaken⟩

end Flavor

end FileSpec
