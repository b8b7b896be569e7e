import FileSpec.FileTree.Search
import FileSpec.Proofs.Except
import FileSpec.Proofs.FileTree.Places
import FileSpec.Proofs.Path.Unique

/-!
# Numbered variants in a tree

The numbered variants of a path differ in one name of it, so those that are there have their names
in one directory. A tree has as many nodes as any of its directories has names, and so the size of
the tree is a limit for the search for a free variant: `FileTree.hasFewVariants`.
-/

set_option autoImplicit false

namespace FileSpec

open Text

namespace Flavor

variable {flavor : Flavor}

theorem pieces_append_of_plain {plain back piece : Path} {others : List Path}
    (isPlain : ∀ character ∈ plain, flavor.isSeparator character = false)
    (pieces : flavor.pieces back = piece :: others) :
    flavor.pieces (plain ++ back) = (plain ++ piece) :: others := by
  induction plain with
  | nil => exact pieces
  | cons first plain inductionHypothesis =>
      obtain ⟨plainFirst, plainOthers⟩ := List.forall_mem_cons.mp isPlain
      exact pieces_cons plainFirst (inductionHypothesis plainOthers)

/-- A text without separators that stands within another one is part of a single piece. -/
theorem exists_pieces_around (flavor : Flavor) (front back : Path) :
    ∃ above before after below, ∀ middle : Path,
      (∀ character ∈ middle, flavor.isSeparator character = false) →
      flavor.pieces (front ++ (middle ++ back)) =
        above ++ (before ++ (middle ++ after)) :: below := by
  induction front with
  | nil =>
      obtain ⟨after, below, pieces⟩ := List.exists_cons_of_ne_nil (flavor.pieces_ne_nil back)
      exact ⟨[], [], after, below, fun middle plain =>
        (pieces_append_of_plain plain pieces :)⟩
  | cons first front inductionHypothesis =>
      obtain ⟨above, before, after, below, split⟩ := inductionHypothesis
      by_cases separates : flavor.isSeparator first = true
      · refine ⟨[] :: above, before, after, below, fun middle plain => ?_⟩
        rw [List.cons_append, pieces_separator separates, split middle plain, List.cons_append]
      · have plainFirst : flavor.isSeparator first = false := by simpa using separates
        cases above with
        | nil =>
            refine ⟨[], first :: before, after, below, fun middle plain => ?_⟩
            exact pieces_cons plainFirst (split middle plain)
        | cons piece above =>
            refine ⟨(first :: piece) :: above, before, after, below, fun middle plain => ?_⟩
            exact pieces_cons plainFirst (split middle plain)

theorem numberMark_plain (number : Nat) :
    ∀ character ∈ numberMark number, posix.isSeparator character = false :=
  isSeparator_eq_false_of_not_mem (not_mem_numberMark rfl (by decide) number)

end Flavor

namespace Node

theorem length_le_sizeOfEntries (entries : List (List Char × Node)) :
    entries.length ≤ sizeOfEntries entries := by
  induction entries with
  | nil => exact Nat.zero_le _
  | cons entry others inductionHypothesis =>
      obtain ⟨name, node⟩ := entry
      have positive : 1 ≤ node.size := by
        cases node <;> simp [size]
      rw [sizeOfEntries, List.length_cons]
      omega

theorem size_le_of_lookup {name : List Char} {node : Node} {entries : List (List Char × Node)}
    (found : entries.lookup name = some node) : node.size ≤ sizeOfEntries entries := by
  induction entries with
  | nil => cases found
  | cons entry others inductionHypothesis =>
      obtain ⟨other, first⟩ := entry
      rw [sizeOfEntries]
      rw [List.lookup_cons] at found
      split at found
      · obtain rfl := Option.some.inj found
        exact Nat.le_add_right _ _
      · exact (inductionHypothesis found).trans (Nat.le_add_left _ _)

/-- Each name on the way to a node is one of a node above it. -/
theorem length_add_size_below?_le {place : Place} {node inner : Node}
    (found : node.below? place = some inner) : place.length + inner.size ≤ node.size := by
  induction place generalizing node with
  | nil =>
      obtain rfl := Option.some.inj found
      simp
  | cons name place inductionHypothesis =>
      obtain ⟨entry, here, below⟩ := Option.bind_eq_some_iff.mp found
      have smaller := inductionHypothesis below
      cases node with
      | file content => cases here
      | directory entries =>
          have entrySize : entry.size ≤ sizeOfEntries entries := size_le_of_lookup here
          rw [size, List.length_cons]
          omega

theorem size_below?_le {place : Place} {node inner : Node}
    (found : node.below? place = some inner) : inner.size ≤ node.size :=
  (Nat.le_add_left _ _).trans (length_add_size_below?_le found)

end Node

namespace FileTree

variable (tree : FileTree)

/-- The names of what a directory holds; none if there is no directory. -/
def namesIn (place : Place) : List (List Char) :=
  (((tree.node? place).map Node.entries).getD []).map (·.1)

theorem length_namesIn_le (place : Place) : (tree.namesIn place).length ≤ tree.top.size := by
  unfold namesIn
  cases here : tree.node? place with
  | none => exact Nat.zero_le _
  | some node =>
      refine Nat.le_trans ?_ (Node.size_below?_le here)
      cases node with
      | file content => exact Nat.zero_le _
      | directory entries =>
          simp only [Option.map_some, Option.getD_some, List.length_map, Node.entries_directory,
            Node.size]
          exact (Node.length_le_sizeOfEntries entries).trans (Nat.le_succ _)

theorem mem_namesIn_of_present {place : Place} {name : List Char}
    (present : (tree.node? (place ++ [name])).isSome = true) : name ∈ tree.namesIn place := by
  rw [node?_append] at present
  unfold namesIn
  cases here : tree.node? place with
  | none => simp [here] at present
  | some node =>
      rw [here, Option.bind_some, Node.below?_cons] at present
      simpa [List.lookup_isSome_iff] using Option.isSome_of_isSome_bind present

variable {path other : Path} {place next : Place}

/-- Only the error of a step says which path is followed. -/
theorem step_of_step {name : List Char} (reached : tree.step path place name = .ok next) :
    tree.step other place name = .ok next := by
  unfold step at reached ⊢
  split_ifs at reached ⊢ <;> exact reached

theorem steps_of_steps {names : List (List Char)}
    (reached : names.foldlM (tree.step path) place = .ok next) :
    names.foldlM (tree.step other) place = .ok next := by
  induction names generalizing place with
  | nil => exact reached
  | cons name names inductionHypothesis =>
      rw [List.foldlM_cons] at reached ⊢
      cases step : tree.step path place name with
      | error error =>
          rw [step] at reached
          cases reached
      | ok middle =>
          rw [step] at reached
          rw [tree.step_of_step step]
          exact inductionHypothesis reached

theorem exists_steps_of_fileExists (present : tree.fileExists path = true) :
    ∃ place, (names path).foldlM (tree.step path) (tree.startOf path) = .ok place := by
  unfold fileExists nodeAtPath? locate follow at present
  cases requested : requestedNames path with
  | error error => simp [requested, bind, Except.bind] at present
  | ok requestedNames =>
      have same : requestedNames = names path := by
        unfold FileTree.requestedNames at requested
        split_ifs at requested
        exact (Except.ok.inj requested).symm
      cases steps : (names path).foldlM (tree.step path) (tree.startOf path) with
      | error error => simp [requested, same, steps, bind, Except.bind, Except.mapError] at present
      | ok place => exact ⟨place, rfl⟩

theorem startOf_append_numberMark (front back : Path) (number : Nat) :
    tree.startOf (front ++ (Flavor.numberMark number ++ back)) = tree.startOf front := by
  cases front with
  | nil => rfl
  | cons first front => rfl

/-- A step into a name that a variant has leads to an entry. -/
theorem mem_namesIn_of_step {name : List Char} (bracketed : '(' ∈ name)
    (reached : tree.step path place name = .ok next) : name ∈ tree.namesIn place := by
  have named : (name.isEmpty || name == ['.']) = false := by
    rw [← Bool.not_eq_true]
    rintro here
    rcases Bool.or_eq_true _ _ |>.mp here with empty | dot
    · simp [List.isEmpty_iff.mp empty] at bracketed
    · simp [beq_iff_eq.mp dot] at bracketed
  have notUp : (name == ['.', '.']) = false := by
    rw [← Bool.not_eq_true]
    intro up
    simp [beq_iff_eq.mp up] at bracketed
  unfold step at reached
  simp only [named, notUp, Bool.false_eq_true, if_false] at reached
  split_ifs at reached with _ _ present
  exact tree.mem_namesIn_of_present present

/-- No path has more variants that are files than the tree has nodes. -/
theorem hasFewVariants (flavor : Flavor) :
    flavor.HasFewVariants tree.fileExists tree.top.size := by
  intro path
  let front := path.take (path.length - (flavor.fileName path).length) ++ flavor.stem path
  obtain ⟨above, before, after, below, split⟩ :=
    Flavor.posix.exists_pieces_around front (flavor.extension path)
  let name := fun number => before ++ (Flavor.numberMark number ++ after)
  have injective : Function.Injective name := fun first second same =>
    Flavor.numberMark_injective (List.append_cancel_right (List.append_cancel_left same))
  -- All variants lead through the same names into the directory that holds the numbered one.
  have entered : ∀ number, tree.fileExists (flavor.numbered path number) = true →
      ∃ directory, above.foldlM (tree.step path) (tree.startOf front) = .ok directory ∧
        name number ∈ tree.namesIn directory := by
    intro number present
    obtain ⟨place, steps⟩ := tree.exists_steps_of_fileExists present
    rw [flavor.numbered_eq, names, split _ (Flavor.numberMark_plain number),
      tree.startOf_append_numberMark, List.foldlM_append] at steps
    obtain ⟨directory, toDirectory, inside⟩ := exists_of_bind_eq_ok steps
    rw [List.foldlM_cons] at inside
    obtain ⟨entry, toEntry, -⟩ := exists_of_bind_eq_ok inside
    have bracketed : '(' ∈ name number := by simp [name, Flavor.numberMark]
    exact ⟨directory, tree.steps_of_steps toDirectory,
      tree.mem_namesIn_of_step bracketed toEntry⟩
  cases reached : above.foldlM (tree.step path) (tree.startOf front) with
  | error error =>
      refine ⟨∅, Nat.zero_le _, fun number present => ?_⟩
      obtain ⟨directory, found, -⟩ := entered number present
      rw [reached] at found
      cases found
  | ok directory =>
      have enough : (tree.namesIn directory).toFinset.card ≤ tree.top.size :=
        (List.toFinset_card_le _).trans (tree.length_namesIn_le directory)
      obtain ⟨numbers, within, complete⟩ := Numbering.exists_numbers injective enough
      refine ⟨numbers, within, fun number present => complete number ?_⟩
      obtain ⟨other, found, member⟩ := entered number present
      rw [reached] at found
      rw [Except.ok.inj found]
      exact List.mem_toFinset.mpr member

end FileTree

end FileSpec
