import FileSpec.Text.Caseless

/-!
# Characters without case

The representative of a character that changes is a lower-case letter or not a basic character.
So separators and the other marks that no file name holds stand for themselves only.
-/

set_option autoImplicit false

namespace FileSpec.Text

/-- The basic lower-case letters, and the code points that are not basic. -/
def isFolded (codePoint : Nat) : Bool :=
  (0x61 ≤ codePoint && codePoint ≤ 0x7A) || 0x80 ≤ codePoint

/-- The lower case of a run lies within folded code points of characters. -/
def LowerRun.staysFolded (run : LowerRun) : Bool :=
  let first := run.first + run.shift
  let last := run.last + run.shift
  (0x61 ≤ first && last ≤ 0x7A) || (0x80 ≤ first && last < 0xD800) ||
    (0xE000 ≤ first && last < 0x110000)

theorem lower_folded {run : LowerRun} {codePoint : Nat} (stays : run.staysFolded = true)
    (covered : run.covers codePoint = true) :
    isFolded (Char.ofNat (Int.toNat (codePoint + run.shift))).toNat = true := by
  simp only [LowerRun.covers, Bool.and_eq_true, decide_eq_true_eq] at covered
  obtain ⟨⟨atLeast, atMost⟩, _⟩ := covered
  simp only [LowerRun.staysFolded, Bool.or_eq_true, Bool.and_eq_true, decide_eq_true_eq] at stays
  have valid : (Int.toNat (codePoint + run.shift)).isValidChar := by
    simp only [Nat.isValidChar]
    omega
  have same : (Char.ofNat (Int.toNat (codePoint + run.shift))).toNat =
      Int.toNat (codePoint + run.shift) := by
    rw [Char.ofNat, dif_pos valid]
    rfl
  rw [same]
  simp only [isFolded, Bool.or_eq_true, Bool.and_eq_true, decide_eq_true_eq]
  omega

theorem lower_eq_or_folded (character : Char) :
    lower character = character ∨ isFolded (lower character).toNat = true := by
  have runsFolded : ∀ run ∈ lowerRuns, run.staysFolded = true := by decide +kernel
  cases covering : lowerRuns.find? (·.covers character.toNat) with
  | none =>
      left
      rw [lower, covering]
  | some run =>
      right
      have covered := List.find?_some covering
      rw [lower, covering]
      exact lower_folded (runsFolded run (List.mem_of_find?_eq_some covering)) covered

theorem caseless_eq_or_folded (character : Char) :
    caseless character = character ∨ isFolded (caseless character).toNat = true := by
  have variantsFolded : ∀ entry ∈ letterVariants,
      isFolded (Char.ofNat entry.2).toNat = true := by decide +kernel
  cases found : letterVariants.lookup (lower character).toNat with
  | none =>
      have same : caseless character = lower character := by simp only [caseless, found]
      rw [same]
      exact lower_eq_or_folded character
  | some letter =>
      obtain ⟨before, after, shape, _⟩ := List.lookup_eq_some_iff.mp found
      have member : ((lower character).toNat, letter) ∈ letterVariants := by simp [shape]
      have same : caseless character = Char.ofNat letter := by simp only [caseless, found]
      right
      rw [same]
      exact variantsFolded _ member

/-- A character that is represented by a mark is that mark. -/
theorem eq_of_caseless_eq {character mark : Char} (notFolded : isFolded mark.toNat = false)
    (same : caseless character = mark) : character = mark := by
  rcases caseless_eq_or_folded character with unchanged | folded
  · rw [← unchanged, same]
  · rw [same, notFolded] at folded
    exact absurd folded Bool.false_ne_true

/-- A mark that stands for itself represents nothing else. -/
theorem caseless_eq_iff {mark : Char} (fixed : caseless mark = mark)
    (notFolded : isFolded mark.toNat = false) (character : Char) :
    caseless character = mark ↔ character = mark := by
  constructor
  · exact eq_of_caseless_eq notFolded
  · rintro rfl
    exact fixed

end FileSpec.Text
