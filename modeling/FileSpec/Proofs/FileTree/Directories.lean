import FileSpec.Proofs.Directory.Order
import FileSpec.Proofs.FileTree.Variants

/-!
# The directories of a tree

Below a directory of a tree, the directories with their sorted names are a finite tree as a walk
goes through it: `Node.mem_directories_iff`. Its names are different, sorted and fit for entries if
those of the nodes are.
-/

set_option autoImplicit false

namespace FileSpec

open Text

theorem lookup_eq_some_iff_mem {Value : Type} {entries : List (List Char × Value)}
    (distinct : (entries.map Prod.fst).Nodup) {name : List Char} {value : Value} :
    entries.lookup name = some value ↔ (name, value) ∈ entries := by
  induction entries with
  | nil => simp
  | cons entry others inductionHypothesis =>
      obtain ⟨first, firstValue⟩ := entry
      obtain ⟨fresh, distinctOthers⟩ := List.nodup_cons.mp distinct
      have inductionHypothesis := inductionHypothesis distinctOthers
      by_cases same : name = first
      · subst same
        have notLater : (name, value) ∉ others := fun member =>
          fresh (List.mem_map.mpr ⟨_, member, rfl⟩)
        simp [notLater, eq_comm]
      · rw [List.lookup_cons, beq_eq_false_iff_ne.mpr same]
        simpa [same] using inductionHypothesis

namespace Node

/-- In every directory, the names are those of entries and different. -/
inductive HasEntryNames : Node → Prop where
  | file {content} : HasEntryNames (file content)
  | directory {entries} :
      (entries.map Prod.fst).Nodup → (∀ entry ∈ entries, IsEntryName entry.1) →
      (∀ entry ∈ entries, HasEntryNames entry.2) → HasEntryNames (directory entries)

/-- The names of the entries of one kind, in order. -/
def namesOf (node : Node) (kind : EntryKind) : List (List Char) :=
  sortTexts ((node.entries.filter fun entry => FileTree.isOfKind kind entry.2).map Prod.fst)

theorem isDirectory_of_mem_namesOf {node : Node} {kind : EntryKind} {name : List Char}
    (member : name ∈ node.namesOf kind) : node.isDirectory = true := by
  cases node with
  | file content => simp [namesOf] at member
  | directory entries => rfl

mutual

/-- The directories at and below a node, with their names in order. -/
def directoryTree : Node → DirectoryTree
  | file _ => .leaf []
  | directory entries =>
      .node (namesOf (directory entries) .file) (namesOf (directory entries) .directory)
        (treeBelow entries)

def treeBelow : List (List Char × Node) → Path → DirectoryTree
  | [], _ => .leaf []
  | (other, node) :: others, name =>
      if name == other then node.directoryTree else treeBelow others name

end

theorem treeBelow_of_lookup {entries : List (List Char × Node)} {name : List Char} {node : Node}
    (found : entries.lookup name = some node) : treeBelow entries name = node.directoryTree := by
  induction entries with
  | nil => cases found
  | cons entry others inductionHypothesis =>
      obtain ⟨other, first⟩ := entry
      rw [List.lookup_cons] at found
      rw [treeBelow]
      split at found
      · next same =>
          obtain rfl := Option.some.inj found
          rw [if_pos same]
      · next different =>
          rw [different, if_neg Bool.false_ne_true]
          exact inductionHypothesis found

namespace HasEntryNames

variable {node : Node} (named : node.HasEntryNames)

include named

theorem distinct : (node.entries.map Prod.fst).Nodup := by
  cases named with
  | file => exact List.nodup_nil
  | directory distinct => exact distinct

theorem of_lookup {name : List Char} {inner : Node} (found : node.entries.lookup name = some inner) :
    IsEntryName name ∧ inner.HasEntryNames := by
  have member := (lookup_eq_some_iff_mem named.distinct).mp found
  cases named with
  | file => cases member
  | directory _ legal below => exact ⟨legal _ member, below _ member⟩

theorem of_below? {names : Place} {inner : Node} (found : node.below? names = some inner) :
    (∀ name ∈ names, IsEntryName name) ∧ inner.HasEntryNames := by
  induction names generalizing node with
  | nil =>
      obtain rfl := Option.some.inj found
      exact ⟨List.forall_mem_nil _, named⟩
  | cons name names inductionHypothesis =>
      obtain ⟨entry, here, below⟩ := Option.bind_eq_some_iff.mp found
      obtain ⟨legal, namedEntry⟩ := named.of_lookup here
      obtain ⟨legalOthers, namedInner⟩ := inductionHypothesis namedEntry below
      exact ⟨List.forall_mem_cons.mpr ⟨legal, legalOthers⟩, namedInner⟩

theorem mem_namesOf {kind : EntryKind} {name : List Char} :
    name ∈ node.namesOf kind ↔
      ∃ inner, node.entries.lookup name = some inner ∧ FileTree.isOfKind kind inner = true := by
  simp only [namesOf, mem_sortTexts, List.mem_map, List.mem_filter, Prod.exists,
    lookup_eq_some_iff_mem named.distinct]
  constructor
  · rintro ⟨_, inner, ⟨member, ofKind⟩, rfl⟩
    exact ⟨inner, member, ofKind⟩
  · rintro ⟨inner, member, ofKind⟩
    exact ⟨name, inner, ⟨member, ofKind⟩, rfl⟩

theorem pairwise_namesOf (kind : EntryKind) :
    (node.namesOf kind).Pairwise (List.Lex Below) :=
  pairwise_sortTexts (named.distinct.sublist (List.filter_sublist.map _))

end HasEntryNames

/-- A directory in which a walk finds the entries of a node. -/
def listedAt (node : Node) (names : List Path) : TreeDirectory :=
  ⟨names, node.namesOf .file, node.namesOf .directory⟩

@[simp]
theorem entries_listedAt (node : Node) (names : List Path) (kind : EntryKind) :
    (node.listedAt names).entries kind = node.namesOf kind := by
  cases kind <;> rfl

variable {node : Node}

theorem mem_directories_directoryTree (isDirectory : node.isDirectory = true)
    {directory : TreeDirectory} :
    directory ∈ node.directoryTree.directories ↔
      directory = node.listedAt [] ∨
        ∃ name ∈ node.namesOf .directory, ∃ inner ∈ (treeBelow node.entries name).directories,
          directory = inner.under name := by
  cases node with
  | file content => cases isDirectory
  | directory entries =>
      rw [directoryTree, DirectoryTree.mem_directories_node]
      rfl

theorem exists_of_mem_directories (named : node.HasEntryNames)
    (isDirectory : node.isDirectory = true) {directory : TreeDirectory}
    (member : directory ∈ node.directoryTree.directories) :
    ∃ inner, node.below? directory.names = some inner ∧ inner.isDirectory = true ∧
      directory = inner.listedAt directory.names := by
  -- The induction is on the names that lead to the directory.
  generalize leads : directory.names = names
  induction names generalizing node directory with
  | nil =>
      rcases (mem_directories_directoryTree isDirectory).mp member with
        rfl | ⟨name, _, inner, _, rfl⟩
      · exact ⟨node, rfl, isDirectory, rfl⟩
      · cases leads
  | cons name names inductionHypothesis =>
      rcases (mem_directories_directoryTree isDirectory).mp member with
        rfl | ⟨first, present, inner, inside, rfl⟩
      · cases leads
      · obtain ⟨rfl, leadsInside⟩ := List.cons.inj leads
        obtain ⟨entry, found, ofKind⟩ := named.mem_namesOf.mp present
        rw [treeBelow_of_lookup found] at inside
        obtain ⟨node, below, isNode, rfl⟩ :=
          inductionHypothesis (named.of_lookup found).2 ofKind inside leadsInside
        exact ⟨node, by rw [below?_cons, found, Option.bind_some, below], isNode, rfl⟩

theorem listedAt_mem_directories (named : node.HasEntryNames)
    (isDirectory : node.isDirectory = true) {names : Place} {inner : Node}
    (below : node.below? names = some inner) (isInner : inner.isDirectory = true) :
    inner.listedAt names ∈ node.directoryTree.directories := by
  induction names generalizing node with
  | nil =>
      obtain rfl := Option.some.inj below
      exact (mem_directories_directoryTree isDirectory).mpr (.inl rfl)
  | cons name names inductionHypothesis =>
      obtain ⟨entry, found, belowEntry⟩ := Option.bind_eq_some_iff.mp below
      have isEntry : entry.isDirectory = true := by
        cases names with
        | nil =>
            obtain rfl := Option.some.inj belowEntry
            exact isInner
        | cons next names =>
            cases entry with
            | file content => cases belowEntry
            | directory entries => rfl
      have inside := inductionHypothesis (named.of_lookup found).2 isEntry belowEntry
      rw [← treeBelow_of_lookup found] at inside
      refine (mem_directories_directoryTree isDirectory).mpr (.inr ⟨name, ?_, _, inside, rfl⟩)
      exact named.mem_namesOf.mpr ⟨entry, found, isEntry⟩

/-- The directories of a node are those below it, by the names that lead to them. -/
theorem mem_directories_iff (named : node.HasEntryNames) (isDirectory : node.isDirectory = true)
    {directory : TreeDirectory} :
    directory ∈ node.directoryTree.directories ↔
      ∃ inner, node.below? directory.names = some inner ∧ inner.isDirectory = true ∧
        directory = inner.listedAt directory.names := by
  constructor
  · exact exists_of_mem_directories named isDirectory
  · rintro ⟨inner, below, isInner, same⟩
    rw [same]
    exact listedAt_mem_directories named isDirectory below isInner

section Names

variable (named : node.HasEntryNames) (isDirectory : node.isDirectory = true)

include named isDirectory

theorem hasSortedNames : node.directoryTree.HasSortedNames := by
  intro directory member kind
  obtain ⟨inner, below, _, same⟩ := (mem_directories_iff named isDirectory).mp member
  rw [same, entries_listedAt]
  exact (named.of_below? below).2.pairwise_namesOf kind

theorem entries_areEntryNames {directory : TreeDirectory}
    (member : directory ∈ node.directoryTree.directories) {kind : EntryKind} :
    ∀ name ∈ directory.entries kind, IsEntryName name := by
  obtain ⟨inner, below, _, same⟩ := (mem_directories_iff named isDirectory).mp member
  intro name inside
  rw [same, entries_listedAt] at inside
  have namedInner := (named.of_below? below).2
  obtain ⟨entry, found, _⟩ := namedInner.mem_namesOf.mp inside
  exact (namedInner.of_lookup found).1

theorem isWithin_size : node.directoryTree.IsWithin (node.size + 1) := by
  intro directory member
  obtain ⟨inner, below, _, _⟩ := (mem_directories_iff named isDirectory).mp member
  have bound := length_add_size_below?_le below
  omega

end Names

end Node

end FileSpec
