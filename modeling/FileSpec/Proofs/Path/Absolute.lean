import FileSpec.Proofs.Path.Names
import FileSpec.Proofs.Path.Root
import Mathlib.Data.List.DropRight

/-!
# Absolute paths

A path begins at a root exactly if a separator or a drive stands at its front, so neither what is
appended nor what is cut off at the end takes the root away, until nothing is left. Dropping all
separators at the end leaves nothing of a path made of separators alone, and only then is the
absolute path not rooted: `isRooted_absolute_iff`.
-/

set_option autoImplicit false

namespace FileSpec

open Text

namespace Flavor

variable (flavor : Flavor)

/-- A letter and a colon at the front, where there are drives. -/
def BeginsWithDrive (path : Path) : Prop :=
  flavor.hasDriveRoots = true ∧
    ∃ letter rest, path = letter :: ':' :: rest ∧ isDriveLetter letter = true

def IsSeparatorsOnly (path : Path) : Prop :=
  ∀ character ∈ path, flavor.isSeparator character = true

instance (path : Path) : Decidable (flavor.IsSeparatorsOnly path) :=
  decidable_of_iff (path.all flavor.isSeparator = true) List.all_eq_true

variable {flavor} {path : Path}

theorem removeSuffix_eq_nil_iff : flavor.removeSuffix path = [] ↔ flavor.IsSeparatorsOnly path :=
  List.rdropWhile_eq_nil_iff

theorem removeSuffix_isPrefix (path : Path) : flavor.removeSuffix path <+: path :=
  List.rdropWhile_prefix _ _

@[simp]
theorem removeSuffix_removeSuffix (path : Path) :
    flavor.removeSuffix (flavor.removeSuffix path) = flavor.removeSuffix path :=
  List.rdropWhile_idempotent _ _

theorem removeSuffix_append_separators {front run : Path}
    (separators : flavor.IsSeparatorsOnly run) :
    flavor.removeSuffix (front ++ run) = flavor.removeSuffix front := by
  have whole : ∀ character ∈ run.reverse, flavor.isSeparator character = true :=
    fun character member => separators character (List.mem_reverse.mp member)
  rw [removeSuffix, dropTrailing, List.reverse_append, List.dropWhile_append_of_pos whole]
  rfl

theorem exists_addSuffix_eq (path : Path) :
    ∃ run, flavor.IsSeparatorsOnly run ∧ flavor.addSuffix path = path ++ run := by
  unfold addSuffix
  split
  · exact ⟨[], List.forall_mem_nil _, (List.append_nil path).symm⟩
  · exact ⟨[flavor.separator], by simp [IsSeparatorsOnly], rfl⟩

@[simp]
theorem removeSuffix_addSuffix (path : Path) :
    flavor.removeSuffix (flavor.addSuffix path) = flavor.removeSuffix path := by
  obtain ⟨run, separators, suffixed⟩ := flavor.exists_addSuffix_eq path
  rw [suffixed, removeSuffix_append_separators separators]

/-- What stands in front of a character that is no separator is kept. -/
theorem isPrefix_removeSuffix {front : Path} {last : Char} {rest : Path}
    (plain : flavor.isSeparator last = false) :
    front ++ [last] <+: flavor.removeSuffix (front ++ last :: rest) := by
  induction rest using List.reverseRecOn with
  | nil =>
      have kept : flavor.removeSuffix (front ++ [last]) = front ++ [last] :=
        removeSuffix_of_not_endsWithSeparator (by simp [endsWithSeparator, plain])
      exact ⟨[], by rw [List.append_nil, kept]⟩
  | append_singleton rest final inductionHypothesis =>
      rw [← List.cons_append, ← List.append_assoc]
      by_cases separates : flavor.isSeparator final = true
      · rw [removeSuffix_append_separators (by simpa [IsSeparatorsOnly] using separates)]
        exact inductionHypothesis
      · have ends : flavor.endsWithSeparator (front ++ last :: rest ++ [final]) = false := by
          rw [endsWithSeparator_append (List.cons_ne_nil final [])]
          simpa [endsWithSeparator] using separates
        rw [flavor.removeSuffix_of_not_endsWithSeparator ends]
        exact ⟨rest ++ [final], by simp⟩

end Flavor

namespace PathStyle

variable (style : PathStyle) {path base other : Path}

theorem isRooted_iff (path : Path) :
    style.flavor.isRooted path = true ↔
      style.flavor.beginsWithSeparator path = true ∨ style.flavor.BeginsWithDrive path := by
  obtain ⟨root, rest, rfl, roots⟩ := style.flavor.exists_roots path
  rw [style.isRooted_append roots]
  cases roots with
  | relative plain noDrive =>
      simp only [List.isEmpty_nil, Bool.not_true, Bool.false_eq_true, List.nil_append, plain,
        false_or, false_iff]
      rintro ⟨drives, letter, others, shape, isLetter⟩
      simp [noDrive drives letter others shape] at isLetter
  | separator separates => simp [separates]
  | drive drives isLetter => simpa using .inr ⟨drives, _, _, rfl, isLetter⟩
  | driveDirectory drives isLetter => simpa using .inr ⟨drives, _, _, rfl, isLetter⟩
  | server _ separates => simp [separates]
  | share _ separates => simp [separates]

theorem isRooted_append_right (rooted : style.flavor.isRooted base = true) (rest : Path) :
    style.flavor.isRooted (base ++ rest) = true := by
  rw [isRooted_iff] at rooted ⊢
  rcases rooted with begins | ⟨drives, letter, others, rfl, isLetter⟩
  · exact .inl (Flavor.beginsWithSeparator_of_isPrefix (List.prefix_append base rest) begins)
  · exact .inr ⟨drives, letter, others ++ rest, rfl, isLetter⟩

@[simp]
theorem not_isSeparator_colon : style.flavor.isSeparator ':' = false := by
  cases style <;> decide

theorem isRooted_removeSuffix (rooted : style.flavor.isRooted path = true)
    (left : ¬ style.flavor.IsSeparatorsOnly path) :
    style.flavor.isRooted (style.flavor.removeSuffix path) = true := by
  rw [isRooted_iff] at rooted ⊢
  rcases rooted with begins | ⟨drives, letter, rest, rfl, isLetter⟩
  · left
    have kept : style.flavor.removeSuffix path ≠ [] := mt Flavor.removeSuffix_eq_nil_iff.mp left
    obtain ⟨cut, shape⟩ := style.flavor.removeSuffix_isPrefix path
    obtain ⟨first, others, found⟩ := List.exists_cons_of_ne_nil kept
    rw [← shape, found] at begins
    rw [found]
    exact begins
  · right
    have kept : [letter] ++ [':'] <+: style.flavor.removeSuffix ([letter] ++ ':' :: rest) :=
      Flavor.isPrefix_removeSuffix style.not_isSeparator_colon
    obtain ⟨others, shape⟩ := kept
    exact ⟨drives, letter, others, shape.symm, isLetter⟩

@[simp]
theorem isRooted_nil : style.flavor.isRooted [] = false := by
  rw [← Bool.not_eq_true, isRooted_iff]
  rintro (begins | ⟨-, letter, rest, shape, -⟩)
  · cases begins
  · cases shape

theorem nonempty_of_isRooted (rooted : style.flavor.isRooted base = true) : base ≠ [] := by
  rintro rfl
  simp at rooted

end PathStyle

namespace Flavor

/-- A path as it is made absolute, before the separators at its end are dropped. -/
def placed (flavor : Flavor) (base path : Path) : Path :=
  if flavor.isRooted path then path else flavor.join base path

theorem absolute_eq (flavor : Flavor) (base path : Path) :
    flavor.absolute base path = flavor.removeSuffix (flavor.placed base path) := rfl

end Flavor

namespace PathStyle

variable (style : PathStyle) {path base other : Path}

theorem isRooted_placed (rooted : style.flavor.isRooted base = true) (path : Path) :
    style.flavor.isRooted (style.flavor.placed base path) = true := by
  unfold Flavor.placed
  split
  · next alone => exact alone
  · next relative =>
      rw [Flavor.join_eq_addSuffix (style.nonempty_of_isRooted rooted) (by simpa using relative)]
      obtain ⟨rest, shape⟩ := style.flavor.isPrefix_addSuffix base
      rw [← shape, List.append_assoc]
      exact style.isRooted_append_right rooted _

/-- An empty path stands for its base. Any other path that is made of separators is a root. -/
theorem isSeparatorsOnly_placed_iff (rooted : style.flavor.isRooted base = true) :
    style.flavor.IsSeparatorsOnly (style.flavor.placed base path) ↔
      style.flavor.IsSeparatorsOnly (if path = [] then base else path) := by
  by_cases empty : path = []
  · subst empty
    rw [if_pos rfl, ← Flavor.removeSuffix_eq_nil_iff, ← Flavor.removeSuffix_eq_nil_iff,
      Flavor.placed, style.isRooted_nil, if_neg Bool.false_ne_true,
      Flavor.join_eq_addSuffix (style.nonempty_of_isRooted rooted) style.isRooted_nil,
      List.append_nil, Flavor.removeSuffix_addSuffix]
  · rw [if_neg empty]
    unfold Flavor.placed
    split
    · exact Iff.rfl
    · next relative =>
        rw [Flavor.join_eq_addSuffix (style.nonempty_of_isRooted rooted)
          (by simpa using relative)]
        have notOnly : ¬ style.flavor.IsSeparatorsOnly path := by
          intro only
          obtain ⟨first, rest, rfl⟩ := List.exists_cons_of_ne_nil empty
          apply relative
          rw [isRooted_iff]
          exact .inl (only first List.mem_cons_self)
        constructor
        · exact fun only => fun character member => only character (List.mem_append_right _ member)
        · exact fun only => absurd only notOnly

theorem absolute_of_separatorsOnly (rooted : style.flavor.isRooted base = true)
    (only : style.flavor.IsSeparatorsOnly (if path = [] then base else path)) :
    style.flavor.absolute base path = [] := by
  rw [Flavor.absolute_eq, Flavor.removeSuffix_eq_nil_iff, style.isSeparatorsOnly_placed_iff rooted]
  exact only

theorem isRooted_absolute (rooted : style.flavor.isRooted base = true)
    (notOnly : ¬ style.flavor.IsSeparatorsOnly (if path = [] then base else path)) :
    style.flavor.isRooted (style.flavor.absolute base path) = true := by
  apply style.isRooted_removeSuffix (style.isRooted_placed rooted path)
  rwa [style.isSeparatorsOnly_placed_iff rooted]

/-- An absolute path that is rooted is its own absolute path from anywhere. -/
theorem absolute_of_isRooted (other : Path)
    (rooted : style.flavor.isRooted (style.flavor.absolute base path) = true) :
    style.flavor.absolute other (style.flavor.absolute base path) =
      style.flavor.absolute base path := by
  rw [Flavor.absolute_eq, Flavor.placed, if_pos rooted, Flavor.absolute_eq,
    Flavor.removeSuffix_removeSuffix]

/--
The absolute path from a rooted base is rooted unless the path, or for an empty path the base, is
made of separators alone, of which nothing is left. If it is rooted, making it absolute once more
changes nothing; if not, the other base has to be made of separators alone as well.
-/
theorem isRooted_absolute_iff (rooted : style.flavor.isRooted base = true) (path : Path) :
    (style.flavor.isRooted (style.flavor.absolute base path) = true ↔
      ¬ style.flavor.IsSeparatorsOnly (if path = [] then base else path)) ∧
    (style.flavor.IsSeparatorsOnly (if path = [] then base else path) →
      style.flavor.absolute base path = []) ∧
    ∀ other, style.flavor.isRooted other = true →
      (style.flavor.absolute other (style.flavor.absolute base path) =
          style.flavor.absolute base path ↔
        (style.flavor.IsSeparatorsOnly (if path = [] then base else path) →
          style.flavor.IsSeparatorsOnly other)) := by
  by_cases only : style.flavor.IsSeparatorsOnly (if path = [] then base else path)
  · have nothing := style.absolute_of_separatorsOnly rooted only
    rw [nothing]
    refine ⟨by simp [only], fun _ => rfl, fun other otherRooted => ?_⟩
    rw [Flavor.absolute_eq, Flavor.removeSuffix_eq_nil_iff,
      style.isSeparatorsOnly_placed_iff otherRooted, if_pos rfl]
    exact ⟨fun otherOnly _ => otherOnly, fun otherOnly => otherOnly only⟩
  · have stays := style.isRooted_absolute rooted only
    refine ⟨by simp [stays, only], fun isOnly => absurd isOnly only, fun other _ => ?_⟩
    simp [style.absolute_of_isRooted other stays, only]

/-- A drive is not made of separators: its root stays when the separator behind it is dropped. -/
theorem isRooted_absolute_iff_drive :
    windows.flavor.isRooted "C:\\".toList = true ∧
    windows.flavor.isRooted "//srv/share/".toList = true ∧
    windows.flavor.absolute "C:\\".toList [] = "C:".toList ∧
    windows.flavor.isRooted (windows.flavor.absolute "C:\\".toList []) = true ∧
    windows.flavor.absolute "//srv/share/".toList (windows.flavor.absolute "C:\\".toList []) =
      windows.flavor.absolute "C:\\".toList [] := by
  have drive : windows.flavor.isRooted "C:\\".toList = true := by decide
  have share : windows.flavor.isRooted "//srv/share/".toList = true := by decide
  have notOnly : ¬ windows.flavor.IsSeparatorsOnly
      (if ([] : Path) = [] then "C:\\".toList else []) := by decide
  obtain ⟨isRooted, -, again⟩ := windows.isRooted_absolute_iff drive []
  exact ⟨drive, share, by decide, isRooted.mpr notOnly,
    (again _ share).mpr fun only => absurd only notOnly⟩

/-- Nothing is left of the top: it is no rooted path any more, and stands for any base then. -/
theorem absolute_top_lost :
    posix.flavor.isRooted "/b".toList = true ∧ posix.flavor.isRooted "/c".toList = true ∧
    posix.flavor.isRooted (posix.flavor.absolute "/b".toList "/".toList) = false ∧
    posix.flavor.absolute "/c".toList (posix.flavor.absolute "/b".toList "/".toList) ≠
      posix.flavor.absolute "/b".toList "/".toList := by
  decide

end PathStyle

end FileSpec
