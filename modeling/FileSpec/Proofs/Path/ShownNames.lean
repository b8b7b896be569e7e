import FileSpec.Proofs.Path.DisplayedDirectory
import FileSpec.Proofs.Path.Extensions

/-!
# File names on display

A file name that is too long is shown in exactly the width. A long stem keeps both of its ends, of
which the first is the longer one if they are not equal, and gives up at least one character between
them: `trim_keeps_both_ends`. A file name that is not too long ends whatever is shown for its path,
at most without the blanks in front of it: `dropWhile_fileName_isSuffix_trim`.
-/

set_option autoImplicit false

namespace FileSpec

open Text

section Parts

variable {width : Nat} {stem extension : Path}

/-- The two ends that are left of a long stem if its name fills the width. -/
theorem exists_ends (least : leastWidth ≤ width) (divided : undividedStem < stem.length)
    (fills : width ≤ stem.length + extension.length) :
    ∃ head tail, shortenParts width stem extension =
        stem.take head ++ ellipsis ++ stem.rtake tail ++
          extension.take (width - undividedStem) ∧
      2 ≤ tail ∧ tail ≤ head ∧ head ≤ tail + 1 ∧ head + tail < stem.length ∧
      head + ellipsis.length + tail + (extension.take (width - undividedStem)).length = width := by
  refine ⟨_, _, if_pos divided, ?_⟩
  simp only [leastWidth, undividedStem, List.length_take, length_ellipsis] at least divided ⊢
  omega

theorem shortenParts_of_short (short : stem.length ≤ undividedStem) :
    shortenParts width stem extension = stem ++ extension.take (width - stem.length) :=
  if_neg (Nat.not_lt.mpr short)

theorem length_shortenParts (least : leastWidth ≤ width)
    (fills : width ≤ stem.length + extension.length) :
    (shortenParts width stem extension).length = width := by
  by_cases divided : undividedStem < stem.length
  · obtain ⟨head, tail, parts, -, -, -, apart, total⟩ := exists_ends least divided fills
    rw [parts]
    simp only [List.length_append, List.length_take, List.rtake, List.length_drop] at total ⊢
    omega
  · have short := Nat.not_lt.mp divided
    rw [shortenParts_of_short short, List.length_append, List.length_take]
    simp only [leastWidth, undividedStem] at least short
    omega

/-- A name that is too long fills the width with its parts, even if it loses a dot. -/
theorem SplitsExtension.fills {name : Path} (splits : SplitsExtension name stem extension)
    (long : width < name.length) : width ≤ stem.length + extension.length := by
  have parts := splits.length_le
  omega

end Parts

namespace Text

/-- What ends a stripped text has blanks in front only. -/
theorem strip_of_isSuffix_strip {text ending : List Char} (isSuffix : ending <:+ strip text) :
    strip ending = ending.dropWhile isBlankChar := by
  have ends := (List.dropWhile_suffix isBlankChar (l := ending)).trans isSuffix
  apply List.rdropWhile_eq_self_iff.mpr
  intro nonempty
  have someText : strip text ≠ [] := List.ne_nil_of_length_pos
    ((List.length_pos_iff.mpr nonempty).trans_le ends.length_le)
  rw [ends.getLast nonempty]
  exact List.rdropWhile_last_not isBlankChar _ someText

end Text

namespace Flavor

variable (flavor : Flavor)

theorem shortenName_of_fits {width : Nat} {name : Path} (fits : (strip name).length ≤ width) :
    flavor.shortenName width name = strip name :=
  if_pos fits

/-- What is shown for a file name alone that is too long. -/
theorem trim_long_fileName (queries : FileQueries) {path name : Path} {width : Int}
    (stripped : strip path = name) (named : flavor.fileName name = name)
    (long : max leastWidth width.toNat < name.length) :
    flavor.trim queries (some path) width =
      shortenParts (max leastWidth width.toNat) (flavor.stem name) (flavor.extension name) := by
  have onlyName := flavor.trim_fileName queries name width
  rw [named] at onlyName
  have again : strip name = name := by rw [← stripped, strip_strip]
  have same : flavor.trim queries (some path) width = flavor.trim queries (some name) width := by
    rw [trim, trim, Option.getD_some, Option.getD_some, stripped, again]
  rw [same, onlyName, shortenName, again, if_neg (Nat.not_le.mpr long)]

/--
A file name alone that is longer than the width, which is twelve characters at least, is shown in
exactly the width. Of a stem of more than eight characters the two ends are shown, which do not
touch, and as much of the extension as leaves room for eight characters. A shorter stem is shown as
a whole, and the front of the extension.
-/
theorem trim_keeps_both_ends (queries : FileQueries) {path name : Path} {width : Int}
    (stripped : strip path = name) (named : flavor.fileName name = name)
    (long : max 12 width.toNat < name.length) :
    (flavor.trim queries (some path) width).length = max 12 width.toNat ∧
    (8 < (flavor.stem name).length →
      ∃ head tail, flavor.trim queries (some path) width =
          (flavor.stem name).take head ++ ['.', '.', '.'] ++ (flavor.stem name).rtake tail ++
            (flavor.extension name).take (max 12 width.toNat - 8) ∧
        2 ≤ tail ∧ tail ≤ head ∧ head ≤ tail + 1 ∧
        head + tail < (flavor.stem name).length) ∧
    ((flavor.stem name).length ≤ 8 →
      ∃ kept, kept <+: flavor.extension name ∧
        flavor.trim queries (some path) width = flavor.stem name ++ kept) := by
  have least : leastWidth ≤ max 12 width.toNat := Nat.le_max_left _ _
  have nonempty : flavor.fileName name ≠ [] := by
    rw [named, ← List.length_pos_iff]
    omega
  have splits := flavor.splitsExtension_fileName (flavor.endsWithSeparator_of_fileName nonempty)
  rw [named] at splits
  have fills := splits.fills long
  rw [flavor.trim_long_fileName queries stripped named long]
  refine ⟨length_shortenParts least fills, fun divided => ?_, fun short => ?_⟩
  · obtain ⟨head, tail, parts, atLeast, shorter, longer, apart, -⟩ :=
      exists_ends least divided fills
    exact ⟨head, tail, parts, atLeast, shorter, longer, apart⟩
  · exact ⟨_, List.take_prefix _ _, shortenParts_of_short short⟩

/-- The dot at the end is in neither part, and nine characters are left for the two ends. -/
theorem trim_keeps_both_ends_lostDot :
    strip " averylongfilename. ".toList = "averylongfilename.".toList ∧
    windows.fileName "averylongfilename.".toList = "averylongfilename.".toList ∧
    max 12 (3 : Int).toNat < "averylongfilename.".toList.length ∧
    windows.stem "averylongfilename.".toList = "averylongfilename".toList ∧
    (windows.trim .none (some " averylongfilename. ".toList) 3).length = max 12 (3 : Int).toNat ∧
    ∃ head tail, windows.trim .none (some " averylongfilename. ".toList) 3 =
        "averylongfilename".toList.take head ++ ['.', '.', '.'] ++
          "averylongfilename".toList.rtake tail ++ [] ∧
      2 ≤ tail ∧ tail ≤ head ∧ head ≤ tail + 1 ∧
      head + tail < "averylongfilename".toList.length := by
  have stripped : strip " averylongfilename. ".toList = "averylongfilename.".toList := by decide
  have named : windows.fileName "averylongfilename.".toList = "averylongfilename.".toList := by
    decide
  have long : max 12 (3 : Int).toNat < "averylongfilename.".toList.length := by decide
  have stem : windows.stem "averylongfilename.".toList = "averylongfilename".toList := by decide
  have extension : windows.extension "averylongfilename.".toList = [] := by decide
  obtain ⟨length, ends, -⟩ := windows.trim_keeps_both_ends .none stripped named long
  rw [stem, extension] at ends
  exact ⟨stripped, named, long, stem, length, ends (by decide)⟩

/--
What is shown for a path ends with the file name if that is not too long. The blanks in front of the
name are left out only where nothing else is shown.
-/
theorem dropWhile_fileName_isSuffix_trim (queries : FileQueries) {path? : Option Path}
    {text : Path} {width : Int} (stripped : strip (path?.getD []) = text)
    (fits : (flavor.fileName text).length ≤ max 12 width.toNat) :
    (flavor.fileName text).dropWhile isBlankChar <:+ flavor.trim queries path? width ∧
    (flavor.fileName text <:+ flavor.trim queries path? width ∨
      flavor.trim queries path? width = (flavor.fileName text).dropWhile isBlankChar) := by
  have shown : flavor.fileName text <:+ flavor.trim queries path? width ∨
      flavor.trim queries path? width = (flavor.fileName text).dropWhile isBlankChar := by
    have inText := flavor.fileName_isSuffix text
    rw [trim, stripped]
    by_cases short : text.length ≤ max leastWidth width.toNat
    · left
      rwa [shortenPath, if_pos short]
    · have long := Nat.not_le.mp short
      rw [flavor.shortenPath_below queries long (fits.trans_lt long)]
      split
      · exact .inl ((List.suffix_cons _ _).trans (List.suffix_append _ _))
      · right
        have stripFits : (strip (flavor.fileName text)).length ≤ max leastWidth width.toNat :=
          (strip_sublist _).length_le.trans fits
        have inStripped : flavor.fileName text <:+ strip (path?.getD []) := by rwa [stripped]
        rw [flavor.shortenName_of_fits stripFits, strip_of_isSuffix_strip inStripped]
  refine ⟨?_, shown⟩
  rcases shown with whole | alone
  · exact (List.dropWhile_suffix isBlankChar).trans whole
  · exact ⟨[], alone.symm⟩

/-- With the name and the ellipsis no room is left for the directory. -/
theorem dropWhile_fileName_isSuffix_trim_alone :
    strip ((some "notes/ sept.2024 ".toList).getD []) = "notes/ sept.2024".toList ∧
    posix.fileName "notes/ sept.2024".toList = " sept.2024".toList ∧
    " sept.2024".toList.length ≤ max 12 (3 : Int).toNat ∧
    "sept.2024".toList <:+ posix.trim .none (some "notes/ sept.2024 ".toList) 3 ∧
    (" sept.2024".toList <:+ posix.trim .none (some "notes/ sept.2024 ".toList) 3 ∨
      posix.trim .none (some "notes/ sept.2024 ".toList) 3 = "sept.2024".toList) := by
  have stripped : strip ((some "notes/ sept.2024 ".toList).getD []) =
      "notes/ sept.2024".toList := by decide
  have name : posix.fileName "notes/ sept.2024".toList = " sept.2024".toList := by decide
  have fits : (posix.fileName "notes/ sept.2024".toList).length ≤ max 12 (3 : Int).toNat := by
    decide
  have shown := posix.dropWhile_fileName_isSuffix_trim .none stripped fits
  have blankLost : (posix.fileName "notes/ sept.2024".toList).dropWhile isBlankChar =
      "sept.2024".toList := by decide
  rw [blankLost, name] at shown
  exact ⟨stripped, name, by decide, shown⟩

end Flavor

end FileSpec
