import FileSpec.Proofs.Path.Directories
import FileSpec.Proofs.Path.Trim

/-!
# Directories on display

Without drives a path below a directory is the name of that directory, the separators that are
written once more behind it, and the file name. A path that is too long is shown with the front of
its directory if the file name leaves room for one character of it, but the directory is measured
without those further separators, and with too many of them it is not shown at all:
`trim_shows_directory_iff`.
-/

set_option autoImplicit false

namespace FileSpec

open Text

namespace Flavor

variable (flavor : Flavor)

/-- What is shown for a path that is too long and has more than its file name. -/
theorem shortenPath_below (queries : FileQueries) {width : Nat} {path : Path}
    (long : width < path.length) (below : (flavor.fileName path).length < path.length) :
    flavor.shortenPath queries width path =
      if (flavor.fileName path).length + 4 < width ∧
          width < (flavor.directoryName queries path).length +
            (flavor.fileName path).length + 4 then
        (flavor.directoryName queries path).take (width - (flavor.fileName path).length - 4) ++
          ellipsis ++ flavor.separator :: flavor.fileName path
      else flavor.shortenName width (flavor.fileName path) := by
  have tooLong : ¬ path.length ≤ width := by omega
  have shorter : ¬ ((flavor.fileName path).length == path.length) = true := by
    simpa using below.ne
  have room : (decide (0 < width - (flavor.fileName path).length - ellipsis.length - 1) &&
      decide (width - (flavor.fileName path).length - ellipsis.length - 1 <
        (flavor.directoryName queries path).length)) = true ↔
      (flavor.fileName path).length + 4 < width ∧
        width < (flavor.directoryName queries path).length +
          (flavor.fileName path).length + 4 := by
    rw [Bool.and_eq_true, decide_eq_true_eq, decide_eq_true_eq, length_ellipsis]
    omega
  simp only [shortenPath]
  rw [if_neg tooLong, if_neg shorter]
  by_cases fits : (flavor.fileName path).length + 4 < width ∧
      width < (flavor.directoryName queries path).length + (flavor.fileName path).length + 4
  · rw [if_neg (by omega), if_pos (room.mpr fits), if_pos fits, length_ellipsis,
      Nat.sub_sub _ 3 1]
  · rw [if_neg (mt room.mp fits), if_neg fits, ite_self]

/-- A name is never shown longer than it is. -/
theorem length_shortenName_le_length {width : Nat} (least : leastWidth ≤ width) (name : Path) :
    (flavor.shortenName width name).length ≤ name.length := by
  have stripped := (strip_sublist name).length_le
  by_cases fits : (strip name).length ≤ width
  · rwa [shortenName, if_pos fits]
  · have atMost := flavor.length_shortenName_le least name
    omega

end Flavor

namespace PathStyle

theorem exists_directoryName_append_posix {path : Path}
    (below : (posix.flavor.fileName path).length < path.length) :
    ∃ extra, posix.flavor.IsSeparatorsOnly extra ∧
      path = posix.flavor.directoryName .none path ++ (extra ++ posix.flavor.fileName path) := by
  have nonempty : path ≠ [] := List.length_pos_iff.mp (by omega)
  rw [posix.flavor.directoryName_none]
  by_cases inside : posix.flavor.dropRoot path = []
  · -- The path is a root and nothing else.
    have only := isSeparatorsOnly_of_dropRoot_posix inside
    have noName : posix.flavor.fileName path = [] :=
      not_not.mp (mt inside_of_named_posix (not_not.mpr inside))
    have noParent : posix.flavor.parent? path = none := by simp [Flavor.parent?, inside]
    refine ⟨[], List.forall_mem_nil _, ?_⟩
    simp [noName, noParent, Flavor.addSuffix,
      posix.flavor.endsWithSeparator_of_separatorsOnly nonempty only]
  · obtain ⟨front, run, splits, above, whole⟩ := exists_directory_posix inside
    rw [above, Option.getD_some]
    by_cases ends : posix.flavor.endsWithSeparator (posix.flavor.root path ++ front) = true
    · refine ⟨run, splits.separators, ?_⟩
      rwa [Flavor.addSuffix_of_endsWithSeparator ends]
    · -- One separator of the run belongs to the name of the directory.
      have someRun : run ≠ [] := by
        intro noRun
        rw [noRun, splits.parted noRun, List.append_nil, List.nil_append] at whole
        have noRoot : posix.flavor.root path = [] := by
          by_contra someRoot
          apply ends
          rw [splits.parted noRun, List.append_nil]
          exact posix.flavor.endsWithSeparator_of_separatorsOnly someRoot
            isSeparator_of_mem_root_posix
        rw [noRoot, List.nil_append] at whole
        exact below.ne (congrArg List.length whole.symm)
      obtain ⟨separator, extra, rfl⟩ := List.exists_cons_of_ne_nil someRun
      obtain ⟨separates, separators⟩ := List.forall_mem_cons.mp splits.separators
      obtain rfl := (isSeparator_posix_iff separator).mp separates
      refine ⟨extra, separators, ?_⟩
      rw [Flavor.addSuffix, if_neg ends, List.append_assoc]
      exact whole

/--
A path that is too long, with `extra` separators behind the one that ends the name of its directory,
is shown with a front of that name exactly if there is room for one character of it and `extra` is
less than what is too long and four more. Otherwise it is shown as its file name is.
-/
theorem trim_shows_directory_iff {path text : Path} {width : Int} (stripped : strip path = text)
    (long : max leastWidth width.toNat < text.length)
    (below : (posix.flavor.fileName text).length < text.length) :
    ∃ extra, posix.flavor.IsSeparatorsOnly extra ∧
      text = posix.flavor.directoryName .none text ++ (extra ++ posix.flavor.fileName text) ∧
      ((∃ front, front ≠ [] ∧ front <+: posix.flavor.directoryName .none text ∧
          posix.flavor.trim .none (some path) width =
            front ++ ellipsis ++ posix.flavor.separator :: posix.flavor.fileName text) ↔
        (posix.flavor.fileName text).length + 4 < max leastWidth width.toNat ∧
          extra.length + max leastWidth width.toNat < text.length + 4) ∧
      (¬ ((posix.flavor.fileName text).length + 4 < max leastWidth width.toNat ∧
          extra.length + max leastWidth width.toNat < text.length + 4) →
        posix.flavor.trim .none (some path) width =
          posix.flavor.trim .none (some (posix.flavor.fileName text)) width) := by
  obtain ⟨extra, separators, whole⟩ := exists_directoryName_append_posix below
  have lengths := congrArg List.length whole
  simp only [List.length_append] at lengths
  have shown := posix.flavor.shortenPath_below .none long below
  have atMost := posix.flavor.length_shortenName_le_length (Nat.le_max_left leastWidth width.toNat)
    (posix.flavor.fileName text)
  rw [posix.flavor.trim_fileName, Flavor.trim, Option.getD_some, stripped, shown]
  refine ⟨extra, separators, whole, ?_, ?_⟩
  · constructor
    · rintro ⟨front, someFront, -, same⟩
      by_contra dropped
      rw [if_neg (by omega)] at same
      have positive := List.length_pos_iff.mpr someFront
      have sameLength := congrArg List.length same
      simp only [List.length_append, List.length_cons, length_ellipsis] at sameLength
      omega
    · intro kept
      rw [if_pos (by omega)]
      refine ⟨_, ?_, List.take_prefix _ _, rfl⟩
      rw [← List.length_pos_iff, List.length_take]
      omega
  · intro dropped
    rw [if_neg (by omega)]

theorem trim_shows_directory_iff_notes :
    strip " /home/user//notes.txt ".toList = "/home/user//notes.txt".toList ∧
      max leastWidth (20 : Int).toNat < "/home/user//notes.txt".toList.length ∧
      posix.flavor.fileName "/home/user//notes.txt".toList = "notes.txt".toList ∧
      posix.flavor.directoryName .none "/home/user//notes.txt".toList = "/home/user/".toList ∧
      ∃ front, front ≠ [] ∧ front <+: "/home/user/".toList ∧
        posix.flavor.trim .none (some " /home/user//notes.txt ".toList) 20 =
          front ++ ellipsis ++ '/' :: "notes.txt".toList := by
  have stripped : strip " /home/user//notes.txt ".toList = "/home/user//notes.txt".toList := by
    decide
  have long : max leastWidth (20 : Int).toNat < "/home/user//notes.txt".toList.length := by decide
  have name : posix.flavor.fileName "/home/user//notes.txt".toList = "notes.txt".toList := by
    decide
  have directory : posix.flavor.directoryName .none "/home/user//notes.txt".toList =
      "/home/user/".toList := by decide
  obtain ⟨extra, -, whole, shows, -⟩ :=
    trim_shows_directory_iff stripped long (by decide)
  rw [directory, name] at whole shows
  have oneMore : extra.length = 1 := by
    have lengths := congrArg List.length whole
    simp only [List.length_append] at lengths
    have counted : "/home/user//notes.txt".toList.length = 21 ∧
        "/home/user/".toList.length = 11 ∧ "notes.txt".toList.length = 9 := by decide
    omega
  exact ⟨stripped, long, name, directory, shows.mpr ⟨by decide, by rw [oneMore]; decide⟩⟩

/-- One character of the directory would fit, but the separators behind it are not counted. -/
theorem directory_lost_behind_separators :
    strip "////////////b".toList = "////////////b".toList ∧
      max leastWidth (12 : Int).toNat < "////////////b".toList.length ∧
      posix.flavor.fileName "////////////b".toList = "b".toList ∧
      "b".toList.length + 4 < max leastWidth (12 : Int).toNat ∧
      posix.flavor.directoryName .none "////////////b".toList = "/".toList ∧
      posix.flavor.trim .none (some "////////////b".toList) 12 = "b".toList ∧
      "b".toList ≠ "/".toList ++ ellipsis ++ '/' :: "b".toList := by
  decide

end PathStyle

end FileSpec
