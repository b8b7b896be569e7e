import FileSpec.Proofs.Path.Absolute

/-!
# Joined paths

Joining keeps what is rooted: a joined path is rooted exactly if one of its parts is, since a
separator between two parts makes neither a drive nor a separator at the front. So it does not
matter in which order three paths are joined: `join_assoc`.
-/

set_option autoImplicit false

namespace FileSpec

namespace Flavor

variable {flavor : Flavor} {name : Path}

@[simp]
theorem nil_join (name : Path) : flavor.join [] name = name :=
  if_pos rfl

theorem join_of_isRooted (directory : Path) (rooted : flavor.isRooted name = true) :
    flavor.join directory name = name :=
  if_pos (by rw [rooted, Bool.or_true])

/-- A relative path goes on in the same way behind a directory and behind a path in it. -/
theorem addSuffix_append_join (directory path : Path) (relative : flavor.isRooted name = false) :
    flavor.addSuffix (flavor.addSuffix directory ++ path) ++ name =
      flavor.addSuffix directory ++ flavor.join path name := by
  by_cases empty : path = []
  · rw [empty, List.append_nil, addSuffix_addSuffix, nil_join]
  · rw [addSuffix_append _ empty, join_eq_addSuffix empty relative, List.append_assoc]

end Flavor

namespace PathStyle

variable (style : PathStyle) {path : Path}

/-- A letter that a separator follows is no drive. -/
theorem beginsWithDrive_of_addSuffix_append (nonempty : path ≠ []) {rest : Path}
    (driven : style.flavor.BeginsWithDrive (style.flavor.addSuffix path ++ rest)) :
    style.flavor.BeginsWithDrive path := by
  obtain ⟨drives, letter, others, shape, isLetter⟩ := driven
  obtain ⟨first, left, rfl⟩ := List.exists_cons_of_ne_nil nonempty
  cases left with
  | nil =>
      cases separates : style.flavor.isSeparator first with
      | true =>
          have ends : style.flavor.endsWithSeparator [first] = true := separates
          rw [Flavor.addSuffix_of_endsWithSeparator ends, List.singleton_append,
            List.cons.injEq] at shape
          rw [shape.1, style.isSeparator_of_isDriveLetter letter isLetter] at separates
          exact absurd separates Bool.false_ne_true
      | false =>
          have ends : style.flavor.endsWithSeparator [first] = false := separates
          have behind : style.flavor.isSeparator style.flavor.separator = true :=
            Flavor.isSeparator_separator
          rw [Flavor.addSuffix_of_not_endsWithSeparator ends] at shape
          simp only [List.cons_append, List.nil_append, List.cons.injEq] at shape
          rw [shape.2.1, style.not_isSeparator_colon] at behind
          exact absurd behind Bool.false_ne_true
  | cons second left =>
      obtain ⟨more, suffixed⟩ := style.flavor.isPrefix_addSuffix (first :: second :: left)
      rw [← suffixed] at shape
      simp only [List.cons_append, List.cons.injEq] at shape
      exact ⟨drives, letter, left, by rw [shape.1, shape.2.1], isLetter⟩

/-- What follows a path behind a separator does not root it. -/
theorem isRooted_addSuffix_append (nonempty : path ≠ []) (rest : Path) :
    style.flavor.isRooted (style.flavor.addSuffix path ++ rest) = style.flavor.isRooted path := by
  obtain ⟨more, suffixed⟩ := style.flavor.isPrefix_addSuffix path
  rw [Bool.eq_iff_iff]
  constructor
  · intro rooted
    rw [isRooted_iff] at rooted ⊢
    rcases rooted with begins | driven
    · left
      obtain ⟨first, left, rfl⟩ := List.exists_cons_of_ne_nil nonempty
      rw [← suffixed] at begins
      exact begins
    · exact .inr (style.beginsWithDrive_of_addSuffix_append nonempty driven)
  · intro rooted
    rw [← suffixed, List.append_assoc]
    exact style.isRooted_append_right rooted _

theorem isRooted_join (directory name : Path) :
    style.flavor.isRooted (style.flavor.join directory name) =
      (style.flavor.isRooted directory || style.flavor.isRooted name) := by
  by_cases empty : directory = []
  · rw [empty, Flavor.nil_join, style.isRooted_nil, Bool.false_or]
  cases rooted : style.flavor.isRooted name with
  | true => rw [Flavor.join_of_isRooted directory rooted, rooted, Bool.or_true]
  | false =>
      rw [Flavor.join_eq_addSuffix empty rooted, style.isRooted_addSuffix_append empty,
        Bool.or_false]

/-- Three paths can be joined in either order. -/
theorem join_assoc (first second third : Path) :
    style.flavor.join (style.flavor.join first second) third =
      style.flavor.join first (style.flavor.join second third) := by
  by_cases nothing : first = []
  · rw [nothing, Flavor.nil_join, Flavor.nil_join]
  cases thirdRooted : style.flavor.isRooted third with
  | true =>
      -- A rooted path stands for itself behind any other.
      rw [Flavor.join_of_isRooted _ thirdRooted, Flavor.join_of_isRooted second thirdRooted,
        Flavor.join_of_isRooted first thirdRooted]
  | false =>
      cases secondRooted : style.flavor.isRooted second with
      | true =>
          have rooted : style.flavor.isRooted (style.flavor.join second third) = true := by
            rw [style.isRooted_join, secondRooted, Bool.true_or]
          rw [Flavor.join_of_isRooted first secondRooted, Flavor.join_of_isRooted first rooted]
      | false =>
          -- Neither order makes a root behind the first path, so all three are written out.
          have someFront : style.flavor.addSuffix first ++ second ≠ [] :=
            List.append_ne_nil_of_left_ne_nil (Flavor.addSuffix_ne_nil first) second
          have relative : style.flavor.isRooted (style.flavor.join second third) = false := by
            rw [style.isRooted_join, secondRooted, thirdRooted, Bool.or_false]
          rw [Flavor.join_eq_addSuffix nothing secondRooted,
            Flavor.join_eq_addSuffix someFront thirdRooted,
            Flavor.addSuffix_append_join first second thirdRooted,
            Flavor.join_eq_addSuffix nothing relative]

end PathStyle

end FileSpec
