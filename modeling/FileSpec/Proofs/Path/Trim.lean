import FileSpec.Path.Trim
import FileSpec.Proofs.Path.Names
import Mathlib.Data.List.DropRight

/-!
# Paths for display

A path is shortened in front of its file name or else to its file name alone, which is not shortened
as a path again: `trim_fileName`. Each of these ways keeps to the width: `length_shortenPath_le`.
-/

set_option autoImplicit false

namespace FileSpec

open Text

namespace Text

theorem strip_sublist (text : List Char) : (strip text).Sublist text :=
  (List.rdropWhile_prefix isBlankChar _).sublist.trans (List.dropWhile_sublist isBlankChar)

theorem strip_strip (text : List Char) : strip (strip text) = strip text := by
  -- Cutting at the right end leaves the first character as it is, which is not blank.
  have noneInFront : (strip text).dropWhile isBlankChar = strip text := by
    rw [List.dropWhile_eq_self_iff]
    intro positive
    have inFront : strip text <+: text.dropWhile isBlankChar := List.rdropWhile_prefix _ _
    have sameHead := inFront.getElem positive
    rw [sameHead]
    exact List.dropWhile_get_zero_not isBlankChar text (positive.trans_le inFront.length_le)
  calc
    strip (strip text) = dropTrailing isBlankChar (strip text) := by
      rw [strip, noneInFront]
    _ = strip text := List.rdropWhile_idempotent isBlankChar _

end Text

@[simp]
theorem length_ellipsis : ellipsis.length = 3 := rfl

theorem length_shortenParts_le {width : Nat} (least : leastWidth ≤ width)
    (stem extension : Path) : (shortenParts width stem extension).length ≤ width := by
  unfold leastWidth at least
  unfold shortenParts
  split
  · have cut := List.length_take_le (width - undividedStem) extension
    simp only [List.length_append, List.length_take, List.length_drop, undividedStem,
      length_ellipsis] at cut ⊢
    omega
  · next short =>
      simp only [undividedStem, List.length_append, List.length_take] at short ⊢
      omega

namespace Flavor

variable (flavor : Flavor)

theorem length_shortenName_le {width : Nat} (least : leastWidth ≤ width) (name : Path) :
    (flavor.shortenName width name).length ≤ width := by
  unfold shortenName
  split
  · assumption
  · exact length_shortenParts_le least _ _

theorem length_shortenPath_le (queries : FileQueries) {width : Nat} (least : leastWidth ≤ width)
    (path : Path) : (flavor.shortenPath queries width path).length ≤ width := by
  have nameFits := flavor.length_shortenName_le least
  simp only [shortenPath]
  split
  · assumption
  split
  · exact nameFits path
  split
  · exact nameFits _
  split
  · next room =>
      rw [Bool.and_eq_true, decide_eq_true_eq, decide_eq_true_eq] at room
      simp only [List.length_append, List.length_take, List.length_cons, length_ellipsis]
        at room ⊢
      omega
  · exact nameFits _

@[simp]
theorem fileName_strip_fileName (path : Path) :
    flavor.fileName (strip (flavor.fileName path)) = strip (flavor.fileName path) := by
  apply afterLast_of_plain
  intro character member
  exact not_delimits_of_mem_afterLast ((strip_sublist _).subset member)

/-- A file name alone is shortened as a name. -/
theorem trim_fileName (queries : FileQueries) (path : Path) (width : Int) :
    flavor.trim queries (some (flavor.fileName path)) width =
      flavor.shortenName (max leastWidth width.toNat) (flavor.fileName path) := by
  simp only [trim, Option.getD_some, shortenPath, fileName_strip_fileName, shortenName,
    strip_strip, beq_self_eq_true, if_true]
  split <;> rfl

/--
What is shown for a path fits into the width, whatever the width asked for. A file name, to which a
path may have to be shortened, is shortened as a name and needs no further shortening of a path.
-/
theorem trim_fits (queries : FileQueries) (path? : Option Path) (width : Int) :
    ((flavor.trim queries path? width).length : Int) ≤ max 12 width ∧
    ∀ path, flavor.trim queries (some (flavor.fileName path)) width =
      flavor.shortenName (max leastWidth width.toNat) (flavor.fileName path) := by
  constructor
  · have fits := flavor.length_shortenPath_le queries
      (Nat.le_max_left leastWidth width.toNat) (strip (path?.getD []))
    unfold trim
    simp only [leastWidth] at fits ⊢
    omega
  · intro path
    exact flavor.trim_fileName queries path width

/-- The stem keeps both of its ends, and the extension what is left of twelve characters. -/
example : posix.trim .none (some "averylongfilename.extension".toList) 12 =
    "ave...me.ext".toList := by rfl

end Flavor

end FileSpec
