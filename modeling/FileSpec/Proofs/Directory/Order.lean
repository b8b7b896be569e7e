import FileSpec.Proofs.Directory.Found
import FileSpec.Proofs.Text.Order

/-!
# The order of walks

Where names are sorted, the directories of a tree stand in the order in which they are visited. A
walk finds entries in that order: those of a directory by their names, in front of all that is in
its subdirectories, and these one after the other.
-/

set_option autoImplicit false

namespace FileSpec

open Text

/-- The order in which directories are visited, by the names that lead to them. -/
inductive VisitedBefore : List Path → List Path → Prop where
  /-- A directory comes before those below it. -/
  | below {above name rest} : VisitedBefore above (above ++ name :: rest)
  /-- All that is in a subdirectory comes before all that is in a later one. -/
  | beside {above first second firstRest secondRest} :
      List.Lex Below first second →
      VisitedBefore (above ++ first :: firstRest) (above ++ second :: secondRest)

theorem VisitedBefore.cons {first second : List Path} (before : VisitedBefore first second)
    (name : Path) : VisitedBefore (name :: first) (name :: second) := by
  cases before with
  | @below _ subdirectory rest =>
      exact (below : VisitedBefore (name :: first) ((name :: first) ++ subdirectory :: rest))
  | @beside above one two oneRest twoRest parts =>
      exact (beside parts :
        VisitedBefore ((name :: above) ++ one :: oneRest) ((name :: above) ++ two :: twoRest))

/-- An entry is found before those of later directories and, in its own, before later names. -/
def TreeEntry.FoundBefore (first second : TreeEntry) : Prop :=
  VisitedBefore first.above second.above ∨
    first.above = second.above ∧ List.Lex Below first.name second.name

namespace DirectoryTree

def HasSortedNames (tree : DirectoryTree) : Prop :=
  ∀ directory ∈ tree.directories, ∀ kind, (directory.entries kind).Pairwise (List.Lex Below)

namespace HasSortedNames

variable {tree : DirectoryTree}

theorem distinct (sorted : tree.HasSortedNames) : tree.HasDistinctNames := by
  intro directory member kind
  refine (sorted directory member kind).imp fun below same => ?_
  exact irrefl _ (same ▸ below)

theorem subtree {files subdirectories : List Path} {below : Path → DirectoryTree}
    (sorted : (node files subdirectories below).HasSortedNames) {name : Path}
    (member : name ∈ subdirectories) : (below name).HasSortedNames := by
  intro directory inside kind
  exact sorted _ (under_mem_directories member inside) kind

theorem pairwise_names (sorted : tree.HasSortedNames) :
    tree.directories.Pairwise fun first second => VisitedBefore first.names second.names := by
  induction tree with
  | leaf files => exact List.pairwise_singleton _ _
  | node files subdirectories below inductionHypothesis =>
      rw [directories, List.pairwise_cons]
      constructor
      · intro directory member
        obtain ⟨name, _, inBelow⟩ := List.mem_flatMap.mp member
        obtain ⟨inner, _, rfl⟩ := List.mem_map.mp inBelow
        exact (.below : VisitedBefore [] ([] ++ name :: inner.names))
      · rw [List.pairwise_flatMap]
        constructor
        · intro name member
          rw [List.pairwise_map]
          exact (inductionHypothesis name (sorted.subtree member)).imp fun before => before.cons name
        · refine (sorted _ top_mem_directories .directory).imp fun before first inFirst second
            inSecond => ?_
          obtain ⟨one, _, rfl⟩ := List.mem_map.mp inFirst
          obtain ⟨two, _, rfl⟩ := List.mem_map.mp inSecond
          exact (.beside before : VisitedBefore ([] ++ _ :: one.names) ([] ++ _ :: two.names))

end HasSortedNames

end DirectoryTree

namespace Walk

variable {walk : Walk} {failures : ListingFailures} {start : Path} {tree : DirectoryTree}

theorem pairwise_matching {directory : TreeDirectory}
    (sorted : (directory.entries walk.kind).Pairwise (List.Lex Below)) :
    (walk.matching directory).Pairwise TreeEntry.FoundBefore := by
  rw [matching, List.pairwise_map]
  exact (sorted.sublist List.filter_sublist).imp fun before => .inr ⟨rfl, before⟩

/-- In a tree with sorted names, a walk finds entries in their order. -/
theorem pairwise_entries (sorted : tree.HasSortedNames) :
    (walk.entries failures start tree).Pairwise TreeEntry.FoundBefore := by
  rw [entries_eq, List.pairwise_flatMap]
  constructor
  · intro directory listed
    exact pairwise_matching (sorted directory (List.mem_of_mem_filter listed) walk.kind)
  · refine (sorted.pairwise_names.sublist List.filter_sublist).imp fun before one inFirst two
      inSecond => ?_
    obtain ⟨_, _, rfl⟩ := List.mem_map.mp inFirst
    obtain ⟨_, _, rfl⟩ := List.mem_map.mp inSecond
    exact .inl before

end Walk

end FileSpec
