import FileSpec.Directory.Lister
import FileSpec.Proofs.Path.Names
import Mathlib.Data.List.Nodup

/-!
# Trees of directories

A lister serves a finite tree if each of its calls on a directory of the tree fails or answers
with the names there. The directories of a tree stand in a list, each in front of those below it
and apart from the others: this is the order in which they are walked through.
-/

set_option autoImplicit false

namespace FileSpec

/-- A finite tree of directories. A subdirectory is looked up by its name. -/
inductive DirectoryTree where
  | leaf (files : List Path)
  | node (files subdirectories : List Path) (below : Path → DirectoryTree)

/-- A directory in a tree: the names that lead to it from the top, and the names in it. -/
structure TreeDirectory where
  names : List Path
  files : List Path
  subdirectories : List Path
  deriving DecidableEq

/-- A file or directory in a tree by its name in the directory that names lead to. -/
@[ext]
structure TreeEntry where
  above : List Path
  name : Path
  deriving DecidableEq

def TreeEntry.path (flavor : Flavor) (start : Path) (entry : TreeEntry) : Path :=
  flavor.join (flavor.pathTo start entry.above) entry.name

theorem EntryKind.forall {holds : EntryKind → Prop} :
    (∀ kind, holds kind) ↔ holds .file ∧ holds .directory := by
  constructor
  · exact fun all => ⟨all .file, all .directory⟩
  · rintro ⟨file, directory⟩ (_ | _)
    · exact file
    · exact directory

namespace TreeDirectory

variable (directory : TreeDirectory)

def entries : EntryKind → List Path
  | .file => directory.files
  | .directory => directory.subdirectories

def path (flavor : Flavor) (start : Path) : Path :=
  flavor.pathTo start directory.names

/-- The directory as one of a larger tree, in which its tree has the given name. -/
def under (name : Path) : TreeDirectory :=
  { directory with names := name :: directory.names }

/-- The names that lead to each of the directories above, the top first. -/
def above : List (List Path) :=
  (List.range directory.names.length).map directory.names.take

@[simp]
theorem path_top (flavor : Flavor) (start : Path) (files subdirectories : List Path) :
    path ⟨[], files, subdirectories⟩ flavor start = start := rfl

@[simp]
theorem above_under (name : Path) :
    (directory.under name).above = [] :: directory.above.map (name :: ·) := by
  simp [above, under, List.range_succ_eq_map, Function.comp_def]

theorem mem_above_iff {names : List Path} :
    names ∈ directory.above ↔ names <+: directory.names ∧ names ≠ directory.names := by
  simp only [above, List.mem_map, List.mem_range]
  constructor
  · rintro ⟨length, shorter, rfl⟩
    refine ⟨List.take_prefix _ _, fun same => ?_⟩
    have lengths := congrArg List.length same
    rw [List.length_take] at lengths
    omega
  · rintro ⟨inFront, different⟩
    refine ⟨names.length, ?_, (List.prefix_iff_eq_take.mp inFront).symm⟩
    have atMost := inFront.length_le
    have notSame : names.length ≠ directory.names.length :=
      fun same => different (inFront.eq_of_length same)
    omega

end TreeDirectory

namespace DirectoryTree

/-- The directories of a tree, each in front of those below it. -/
def directories : DirectoryTree → List TreeDirectory
  | leaf files => [⟨[], files, []⟩]
  | node files subdirectories below =>
      ⟨[], files, subdirectories⟩ ::
        subdirectories.flatMap fun name => (below name).directories.map (·.under name)

/-- No chain of directories is longer than `depth`. -/
def IsWithin (tree : DirectoryTree) (depth : Nat) : Prop :=
  ∀ directory ∈ tree.directories, directory.names.length < depth

/-- Every name is one that a flavor allows for an entry. -/
def HasLegalNames (flavor : Flavor) (tree : DirectoryTree) : Prop :=
  ∀ directory ∈ tree.directories, ∀ kind, ∀ name ∈ directory.entries kind,
    flavor.IsLegalName name

def HasDistinctNames (tree : DirectoryTree) : Prop :=
  ∀ directory ∈ tree.directories, ∀ kind, (directory.entries kind).Nodup

instance (flavor : Flavor) (tree : DirectoryTree) : Decidable (tree.HasLegalNames flavor) :=
  decidable_of_iff
    (∀ directory ∈ tree.directories, ∀ name ∈ directory.files ++ directory.subdirectories,
      flavor.IsLegalName name) <| by
    simp [HasLegalNames, EntryKind.forall, TreeDirectory.entries, or_imp, forall_and]

instance (tree : DirectoryTree) : Decidable tree.HasDistinctNames :=
  decidable_of_iff
    (∀ directory ∈ tree.directories, directory.files.Nodup ∧ directory.subdirectories.Nodup) <| by
    simp [HasDistinctNames, EntryKind.forall, TreeDirectory.entries]

variable {files subdirectories : List Path} {below : Path → DirectoryTree}

@[simp]
theorem top_mem_directories :
    ⟨[], files, subdirectories⟩ ∈ (node files subdirectories below).directories := by
  simp [directories]

theorem under_mem_directories {name : Path} (member : name ∈ subdirectories)
    {directory : TreeDirectory} (inside : directory ∈ (below name).directories) :
    directory.under name ∈ (node files subdirectories below).directories := by
  simp only [directories, List.mem_cons, List.mem_flatMap, List.mem_map]
  exact .inr ⟨name, member, directory, inside, rfl⟩

@[simp]
theorem mem_directories_leaf {directory : TreeDirectory} :
    directory ∈ (leaf files).directories ↔ directory = ⟨[], files, []⟩ := by
  simp [directories]

@[simp]
theorem mem_directories_node {directory : TreeDirectory} :
    directory ∈ (node files subdirectories below).directories ↔
      directory = ⟨[], files, subdirectories⟩ ∨
        ∃ name ∈ subdirectories, ∃ inner ∈ (below name).directories,
          directory = inner.under name := by
  simp only [directories, List.mem_cons, List.mem_flatMap, List.mem_map, eq_comm]

theorem IsWithin.positive {tree : DirectoryTree} {depth : Nat} (within : tree.IsWithin depth) :
    0 < depth := by
  cases tree with
  | leaf files => exact within _ (mem_directories_leaf.mpr rfl)
  | node files subdirectories below => exact within _ top_mem_directories

theorem IsWithin.subtree {depth : Nat}
    (within : (node files subdirectories below).IsWithin (depth + 1)) {name : Path}
    (member : name ∈ subdirectories) : (below name).IsWithin depth := by
  intro directory inside
  exact Nat.lt_of_succ_lt_succ (within _ (under_mem_directories member inside))

theorem HasLegalNames.subtree {flavor : Flavor}
    (legal : (node files subdirectories below).HasLegalNames flavor) {name : Path}
    (member : name ∈ subdirectories) : (below name).HasLegalNames flavor := by
  intro directory inside kind
  exact legal _ (under_mem_directories member inside) kind

theorem HasDistinctNames.subtree (distinct : (node files subdirectories below).HasDistinctNames)
    {name : Path} (member : name ∈ subdirectories) : (below name).HasDistinctNames := by
  intro directory inside kind
  exact distinct _ (under_mem_directories member inside) kind

theorem HasLegalNames.names_legal {flavor : Flavor} {tree : DirectoryTree}
    (legal : tree.HasLegalNames flavor) {directory : TreeDirectory}
    (member : directory ∈ tree.directories) :
    ∀ name ∈ directory.names, flavor.IsLegalName name := by
  induction tree generalizing directory with
  | leaf files =>
      rw [mem_directories_leaf] at member
      simp [member]
  | node files subdirectories below inductionHypothesis =>
      rcases mem_directories_node.mp member with rfl | ⟨name, inTop, inner, inside, rfl⟩
      · simp
      · have legalName := legal _ top_mem_directories .directory name inTop
        have legalBelow := inductionHypothesis name (legal.subtree inTop) inside
        exact List.forall_mem_cons.mpr ⟨legalName, legalBelow⟩

/-- The names in front of those of a directory lead to the directories above it. -/
theorem exists_of_isPrefix {tree : DirectoryTree} {directory : TreeDirectory}
    (member : directory ∈ tree.directories) {names : List Path}
    (inFront : names <+: directory.names) :
    ∃ other ∈ tree.directories, other.names = names := by
  induction tree generalizing directory names with
  | leaf files =>
      rw [mem_directories_leaf] at member
      subst member
      exact ⟨_, mem_directories_leaf.mpr rfl, (List.prefix_nil.mp inFront).symm⟩
  | node files subdirectories below inductionHypothesis =>
      cases names with
      | nil => exact ⟨_, top_mem_directories, rfl⟩
      | cons name names =>
          rcases mem_directories_node.mp member with rfl | ⟨first, inTop, inner, inside, rfl⟩
          · exact absurd (List.prefix_nil.mp inFront) (List.cons_ne_nil _ _)
          · obtain ⟨rfl, inFrontOfInner⟩ := List.cons_prefix_cons.mp inFront
            obtain ⟨other, inBelow, rfl⟩ := inductionHypothesis name inside inFrontOfInner
            exact ⟨other.under name, under_mem_directories inTop inBelow, rfl⟩

theorem HasDistinctNames.nodup_names {tree : DirectoryTree} (distinct : tree.HasDistinctNames) :
    (tree.directories.map TreeDirectory.names).Nodup := by
  induction tree with
  | leaf files => simp [directories]
  | node files subdirectories below inductionHypothesis =>
      have notTop : [] ∉ (subdirectories.flatMap fun name =>
          (below name).directories.map (·.under name)).map TreeDirectory.names := by
        simp [TreeDirectory.under]
      have apart : subdirectories.Pairwise fun first second =>
          List.Disjoint ((below first).directories.map fun inner => first :: inner.names)
            ((below second).directories.map fun inner => second :: inner.names) := by
        refine (distinct _ top_mem_directories .directory).imp fun different names one two => ?_
        obtain ⟨_, _, rfl⟩ := List.mem_map.mp one
        obtain ⟨_, _, same⟩ := List.mem_map.mp two
        exact different (List.cons.inj same).1.symm
      rw [directories, List.map_cons, List.nodup_cons]
      refine ⟨notTop, ?_⟩
      rw [List.map_flatMap, List.nodup_flatMap]
      simp only [List.map_map]
      refine ⟨fun name member => ?_, apart⟩
      have nodup := inductionHypothesis name (distinct.subtree member)
      have prefixed := nodup.map (List.cons_injective (a := name))
      simpa [Function.comp_def, TreeDirectory.under] using prefixed

theorem nodup_paths {style : PathStyle} {start : Path} {tree : DirectoryTree}
    (nonempty : start ≠ []) (legal : tree.HasLegalNames style.flavor)
    (distinct : tree.HasDistinctNames) :
    (tree.directories.map (TreeDirectory.path · style.flavor start)).Nodup := by
  have separate : tree.directories.Pairwise fun first second => first.names ≠ second.names :=
    List.pairwise_map.mp distinct.nodup_names
  refine List.pairwise_map.mpr (separate.imp_of_mem fun inTree inTreeToo different same => ?_)
  exact different
    (style.pathTo_inj nonempty (legal.names_legal inTree) (legal.names_legal inTreeToo) same)

end DirectoryTree

/-- Calls that fail: the error of a call for entries of one kind in a directory. -/
abbrev ListingFailures := EntryKind → Path → Option OsError

/-- Each call on a directory fails or is answered with the names that are accepted. -/
def Lister.AnswersIn (lister : Lister) (failures : ListingFailures) (start : Path)
    (directory : TreeDirectory) : Prop :=
  ∀ kind matcher,
    lister.list kind (directory.path lister.flavor start) matcher =
      match failures kind (directory.path lister.flavor start) with
      | some error => .error error
      | none => .ok (((directory.entries kind).filter matcher.accepts).map
          (lister.flavor.join (directory.path lister.flavor start)))

def Lister.Answers (lister : Lister) (failures : ListingFailures) (start : Path)
    (tree : DirectoryTree) : Prop :=
  ∀ directory ∈ tree.directories, lister.AnswersIn failures start directory

/-- A lister serves a tree at a start if it answers calls and follows every chain to its end. -/
structure Lister.Serves (lister : Lister) (failures : ListingFailures) (start : Path)
    (tree : DirectoryTree) : Prop where
  answers : lister.Answers failures start tree
  deep : tree.IsWithin lister.depth

theorem Lister.Answers.subtree {lister : Lister} {failures : ListingFailures} {start : Path}
    {files subdirectories : List Path} {below : Path → DirectoryTree}
    (answers : lister.Answers failures start (.node files subdirectories below)) {name : Path}
    (member : name ∈ subdirectories) :
    lister.Answers failures (lister.flavor.join start name) (below name) := by
  intro directory inside
  exact answers _ (DirectoryTree.under_mem_directories member inside)

end FileSpec
