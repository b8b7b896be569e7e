import FileSpec.Proofs.Path.Extensions
import FileSpec.Proofs.Path.Unique
import Mathlib.Data.List.DropRight

/-!
# Names of numbered variants

A variant differs from its path by what it has behind the stem of the file name. That mark has no
delimiter of names and no dot, so the variant is taken apart where the path is:
`uniquePath_marks_stem`.
-/

set_option autoImplicit false

namespace FileSpec

open Text

namespace Flavor

variable (flavor : Flavor) {path : Path}

/-- What a path has in front of its file name. -/
theorem take_eq_throughLast (path : Path) :
    path.take (path.length - (flavor.fileName path).length) =
      throughLast flavor.isNameDelimiter path := by
  have cut := @List.rdrop_append_length _ (throughLast flavor.isNameDelimiter path)
    (afterLast flavor.isNameDelimiter path)
  rwa [throughLast_append_afterLast] at cut

theorem numbered_eq_throughLast (path : Path) (number : Nat) :
    flavor.numbered path number = throughLast flavor.isNameDelimiter path ++
      (flavor.stem path ++ numberMark number ++ flavor.extension path) := by
  simp only [numbered_eq, take_eq_throughLast, List.append_assoc]

/-- The name loses a dot at most, and gains two brackets, a blank and a number. -/
theorem length_lt_numbered (path : Path) (number : Nat) :
    path.length < (flavor.numbered path number).length := by
  have within := (flavor.fileName_isSuffix path).length_le
  have kept : (flavor.fileName path).length ≤
      (flavor.stem path).length + (flavor.extension path).length + 1 := by
    by_cases named : flavor.fileName path = []
    · rw [named, List.length_nil]
      omega
    · have ends := flavor.endsWithSeparator_of_fileName named
      exact (flavor.splitsExtension_fileName ends).length_le
  simp only [numbered, List.length_append, List.length_take, List.length_cons]
  omega

theorem ne_numbered (path : Path) (number : Nat) : path ≠ flavor.numbered path number := by
  intro same
  have longer := flavor.length_lt_numbered path number
  rw [← same] at longer
  exact absurd longer (Nat.lt_irrefl _)

section Variants

variable (ends : flavor.endsWithSeparator path = false)
  (noDotAtEnd : (flavor.fileName path).getLast? ≠ some '.') {number : Nat}
  (plain : ∀ character ∈ numberMark number, flavor.isNameDelimiter character = false)

include ends noDotAtEnd plain

/-- The mark of a variant is inside its file name. -/
theorem fileName_numbered :
    flavor.fileName (flavor.numbered path number) =
      flavor.stem path ++ numberMark number ++ flavor.extension path := by
  have name := (flavor.splitsExtension_fileName ends).stem_append_extension noDotAtEnd
  have plainName : ∀ character ∈ flavor.stem path ++ flavor.extension path,
      flavor.isNameDelimiter character = false := by
    rw [name]
    exact fun character => not_delimits_of_mem_afterLast
  rw [numbered_eq_throughLast]
  refine afterLast_append (delimits_of_getLast?_throughLast path) fun character member => ?_
  simp only [List.mem_append] at member plainName
  rcases member with (inStem | inMark) | inExtension
  · exact plainName character (.inl inStem)
  · exact plain character inMark
  · exact plainName character (.inr inExtension)

theorem splitsExtension_numbered :
    SplitsExtension (flavor.fileName (flavor.numbered path number))
      (flavor.stem path ++ numberMark number) (flavor.extension path) := by
  have noDot : '.' ∉ numberMark number := not_mem_numberMark rfl (by decide) number
  rw [flavor.fileName_numbered ends noDotAtEnd plain]
  exact (flavor.splitsExtension_fileName ends).insert noDotAtEnd noDot

/-- The mark of a variant is inside the stem of its file name. -/
theorem stem_extension_numbered :
    flavor.stem (flavor.numbered path number) = flavor.stem path ++ numberMark number ∧
      flavor.extension (flavor.numbered path number) = flavor.extension path := by
  have named : flavor.fileName (flavor.numbered path number) ≠ [] := by
    rw [flavor.fileName_numbered ends noDotAtEnd plain]
    simp [numberMark]
  have divided := flavor.splitsExtension_fileName (flavor.endsWithSeparator_of_fileName named)
  have again := flavor.splitsExtension_numbered ends noDotAtEnd plain
  exact Prod.mk.inj (divided.splitExtension_eq.symm.trans again.splitExtension_eq)

end Variants

end Flavor

namespace PathStyle

variable (style : PathStyle)

theorem not_isNameDelimiter_numberMark (number : Nat) :
    ∀ character ∈ Flavor.numberMark number, style.flavor.isNameDelimiter character = false := by
  intro character inMark
  rw [← Bool.not_eq_true]
  intro delimits
  have listed : character ∈ ['\\', '/', ':'] := by
    cases style <;>
      simp_all [Flavor.isNameDelimiter, Flavor.isSeparator, PathStyle.flavor, Flavor.posix,
        Flavor.windows, or_assoc]
  have outside : (['\\', '/', ':'].all fun other =>
      !other.isDigit && !([' ', '(', ')'].contains other)) = true := by decide
  have notMark : character.isDigit = false ∧ character ∉ [' ', '(', ')'] := by
    simpa using List.all_eq_true.mp outside character listed
  exact Flavor.not_mem_numberMark notMark.1 notMark.2 number inMark

/--
The variant that is found for a taken path stands where the path stands and has its extension, and
behind its stem a blank and the number in brackets. Every number gives another variant, and none is
the path.
-/
theorem uniquePath_marks_stem {fileExists : Path → Bool} {path : Path}
    (isTaken : fileExists path = true) (ends : style.flavor.endsWithSeparator path = false)
    (noDotAtEnd : path.getLast? ≠ some '.') (limit : Nat) :
    (∃ number, (style.flavor.uniquePath fileExists limit path).path =
      style.flavor.numbered path number) ∧
    (∀ number,
      (∃ before, path = before ++ style.flavor.fileName path ∧
        style.flavor.numbered path number =
          before ++ style.flavor.fileName (style.flavor.numbered path number)) ∧
      style.flavor.extension (style.flavor.numbered path number) = style.flavor.extension path ∧
      style.flavor.stem (style.flavor.numbered path number) =
        style.flavor.stem path ++ (' ' :: '(' :: decimal number ++ [')']) ∧
      style.flavor.numbered path number ≠ path) ∧
    Function.Injective (style.flavor.numbered path) := by
  have nameEnds : (style.flavor.fileName path).getLast? ≠ some '.' := by
    intro atEnd
    obtain ⟨before, whole⟩ := style.flavor.fileName_isSuffix path
    apply noDotAtEnd
    rw [← whole, List.getLast?_append, atEnd]
    rfl
  refine ⟨⟨_, style.flavor.path_uniquePath_of_taken isTaken limit⟩, fun number => ?_,
    style.flavor.numbered_injective path⟩
  have plain := style.not_isNameDelimiter_numberMark number
  obtain ⟨stem, extension⟩ := style.flavor.stem_extension_numbered ends nameEnds plain
  refine ⟨⟨throughLast style.flavor.isNameDelimiter path,
    (throughLast_append_afterLast _ path).symm, ?_⟩, extension, stem,
    (style.flavor.ne_numbered path number).symm⟩
  rw [style.flavor.fileName_numbered ends nameEnds plain]
  exact style.flavor.numbered_eq_throughLast path number

/-- Neither the drive nor the dot and the number that are in the stem are taken for other parts. -/
theorem uniquePath_marks_stem_drive :
    ("C:report (1).tar.gz".toList == "C:report (1).tar.gz".toList) = true ∧
    windows.flavor.endsWithSeparator "C:report (1).tar.gz".toList = false ∧
    "C:report (1).tar.gz".toList.getLast? ≠ some '.' ∧
    (∃ number, (windows.flavor.uniquePath (· == "C:report (1).tar.gz".toList) 1
        "C:report (1).tar.gz".toList).path =
      windows.flavor.numbered "C:report (1).tar.gz".toList number) ∧
    windows.flavor.numbered "C:report (1).tar.gz".toList 2 = "C:report (1).tar (2).gz".toList ∧
    windows.flavor.extension "C:report (1).tar (2).gz".toList = ".gz".toList ∧
    windows.flavor.stem "C:report (1).tar (2).gz".toList =
      "report (1).tar".toList ++ " (2)".toList := by
  have isTaken : ("C:report (1).tar.gz".toList == "C:report (1).tar.gz".toList) = true := by decide
  have ends : windows.flavor.endsWithSeparator "C:report (1).tar.gz".toList = false := by decide
  have noDotAtEnd : "C:report (1).tar.gz".toList.getLast? ≠ some '.' := by decide
  have variant : windows.flavor.numbered "C:report (1).tar.gz".toList 2 =
      "C:report (1).tar (2).gz".toList := by decide
  obtain ⟨found, marked, -⟩ := @uniquePath_marks_stem windows
    (· == "C:report (1).tar.gz".toList) _ isTaken ends noDotAtEnd 1
  obtain ⟨-, extension, stem, -⟩ := marked 2
  rw [variant] at extension stem
  exact ⟨isTaken, ends, noDotAtEnd, found, variant, extension.trans (by decide), stem⟩

end PathStyle

end FileSpec
