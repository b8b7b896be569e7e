import FileSpec.Path.FileIndex
import Mathlib.Data.Finset.Card
import Mathlib.Data.Finset.Range

/-!
# The files of an index

Finitely many files exist in an index, and no more than its size says. So the size is a limit for
the search for a free path.
-/

set_option autoImplicit false

namespace FileSpec

open Text

theorem decimal_of_canonicalNumber? {text : List Char} {number : Nat}
    (canonical : canonicalNumber? text = some number) : decimal number = text := by
  unfold canonicalNumber? at canonical
  split at canonical
  · next checked =>
      simp only [Bool.and_eq_true, beq_iff_eq] at checked
      rw [← Option.some.inj canonical]
      exact checked.2
  · cases canonical

namespace FileSeries

variable (series : FileSeries)

/-- A file of a series has a number between the two of the series. -/
theorem exists_number {path : Path} (contained : series.contains path = true) :
    ∃ number : Nat, series.first ≤ number ∧ (number : Int) ≤ series.last ∧
      path = series.before ++ decimal number ++ series.after := by
  simp only [contains, Bool.and_eq_true, List.isPrefixOf_iff_prefix, List.isSuffixOf_iff_suffix,
    decide_eq_true_eq] at contained
  obtain ⟨⟨⟨isPrefix, isSuffix⟩, apart⟩, inRange⟩ := contained
  split at inRange
  · next number canonical =>
      simp only [Bool.and_eq_true, decide_eq_true_eq] at inRange
      refine ⟨number, inRange.1, inRange.2, ?_⟩
      rw [decimal_of_canonicalNumber? canonical]
      obtain ⟨rest, rfl⟩ := isPrefix
      have behind : series.after <:+ rest := by
        apply List.suffix_of_suffix_length_le isSuffix (List.suffix_append _ _)
        rw [List.length_append] at apart
        omega
      obtain ⟨middle, rfl⟩ := behind
      simp
  · cases inRange

def files : Finset Path :=
  (Finset.range series.size).image fun offset =>
    series.before ++ decimal (series.first.toNat + offset) ++ series.after

theorem mem_files {path : Path} (contained : series.contains path = true) :
    path ∈ series.files := by
  obtain ⟨number, atLeast, atMost, rfl⟩ := series.exists_number contained
  refine Finset.mem_image.mpr ⟨number - series.first.toNat, ?_, ?_⟩
  · rw [Finset.mem_range, size]
    omega
  · have same : series.first.toNat + (number - series.first.toNat) = number := by omega
    rw [same]

theorem card_files_le : series.files.card ≤ series.size := by
  have atMost := Finset.card_image_le (s := Finset.range series.size)
    (f := fun offset => series.before ++ decimal (series.first.toNat + offset) ++ series.after)
  rwa [Finset.card_range] at atMost

end FileSeries

namespace FileIndex

theorem exists_files_of_series (allSeries : List FileSeries) (others : Finset Path) {total : Nat}
    (enough : others.card ≤ total) :
    ∃ files : Finset Path, others ⊆ files ∧
      (∀ path, allSeries.any (·.contains path) = true → path ∈ files) ∧
      files.card ≤ allSeries.foldl (fun total series => total + series.size) total := by
  induction allSeries generalizing others total with
  | nil => exact ⟨others, Finset.Subset.refl _, by simp, enough⟩
  | cons series allSeries inductionHypothesis =>
      have enoughWithSeries : (others ∪ series.files).card ≤ total + series.size :=
        (Finset.card_union_le _ _).trans (Nat.add_le_add enough series.card_files_le)
      obtain ⟨files, included, contained, atMost⟩ :=
        inductionHypothesis (others ∪ series.files) enoughWithSeries
      refine ⟨files, Finset.subset_union_left.trans included, ?_, atMost⟩
      intro path present
      rw [List.any_cons, Bool.or_eq_true] at present
      rcases present with here | later
      · exact included (Finset.mem_union_right _ (series.mem_files here))
      · exact contained path later

/-- No more files exist than the size says. -/
theorem exists_files (index : FileIndex) :
    ∃ files : Finset Path, (∀ path, index.fileExists path = true ↔ path ∈ files) ∧
      files.card ≤ index.size := by
  obtain ⟨files, included, contained, atMost⟩ :=
    exists_files_of_series index.series index.files.toFinset (List.toFinset_card_le _)
  refine ⟨files.filter fun path => index.fileExists path = true, fun path => ?_,
    (Finset.card_filter_le _ _).trans atMost⟩
  rw [Finset.mem_filter]
  constructor
  · intro present
    refine ⟨?_, present⟩
    rw [fileExists, Bool.or_eq_true] at present
    rcases present with listed | inSeries
    · exact included (List.mem_toFinset.mpr (List.contains_iff_mem.mp listed))
    · exact contained path inSeries
  · exact And.right

end FileIndex

end FileSpec
