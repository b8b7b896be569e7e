import FileSpec.Proofs.Directory.FileWalk
import FileSpec.Proofs.FileTree.Listing

/-!
# Walks below a directory

A walk for everything below a directory of a tree finds what is there behind directories that are
open, in order, and reports the others that it comes to. A directory is open if it is not locked
and its path, as the walk writes it, is not too long.
-/

set_option autoImplicit false

namespace FileSpec

open Text

namespace FileTree

variable (tree : FileTree) (ignoreCase : Bool) (kind : EntryKind)

/-- The walk for all entries of a kind, through all subdirectories. -/
def fullWalk : Walk :=
  PathStyle.posix.walk (tree.lister .posix ignoreCase) kind ['*'] true

@[simp]
theorem failureAt?_fullWalk (path : Path) :
    (tree.fullWalk ignoreCase kind).failureAt? (fun _ => tree.listingFailure?) path =
      tree.listingFailure? path := by
  simp [Walk.failureAt?, fullWalk, PathStyle.walk]

namespace StartsAt

variable {tree} {start : Path} {place : Place} {node : Node}
  (starts : tree.StartsAt start place node)

include starts

theorem nonempty : start ≠ [] :=
  starts.leads.nonempty

theorem hasSortedNames : node.directoryTree.HasSortedNames :=
  Node.hasSortedNames starts.named starts.isDirectory

theorem hasLegalNames : node.directoryTree.HasLegalNames PathStyle.posix.flavor := by
  intro directory member kind name inside
  exact (Node.entries_areEntryNames starts.named starts.isDirectory member name inside).isLegalName

theorem node?_append_eq (names : Place) : tree.node? (place ++ names) = node.below? names := by
  rw [node?_append, starts.present, Option.bind_some]

theorem failureAt?_pathTo {names above : List Path} (there : (node.below? names).isSome = true)
    (inFront : above <+: names) :
    (tree.fullWalk ignoreCase kind).failureAt? (fun _ => tree.listingFailure?)
        (Flavor.posix.pathTo start above) =
      if tree.IsOpen start place above then none
      else some (refusal (Flavor.posix.pathTo start above)) := by
  obtain ⟨rest, rfl⟩ := inFront
  rw [Node.below?_append] at there
  have thereAbove := Option.isSome_of_isSome_bind there
  obtain ⟨inner, below⟩ := Option.isSome_iff_exists.mp thereAbove
  rw [failureAt?_fullWalk]
  apply tree.listingFailure?_pathTo starts.leads (starts.named.of_below? below).1
  rwa [starts.node?_append_eq]

section Directory

variable {directory : TreeDirectory} (member : directory ∈ node.directoryTree.directories)

include member

theorem isSome_below?_names : (node.below? directory.names).isSome = true := by
  obtain ⟨inner, below, -⟩ := starts.mem_directories_iff.mp member
  rw [below]
  rfl

theorem failureAt?_eq_none_iff {above : List Path} (inFront : above <+: directory.names) :
    (tree.fullWalk ignoreCase kind).failureAt? (fun _ => tree.listingFailure?)
        (Flavor.posix.pathTo start above) = none ↔ tree.IsOpen start place above := by
  rw [starts.failureAt?_pathTo ignoreCase kind (starts.isSome_below?_names member) inFront]
  split
  · next isOpen => exact iff_of_true rfl isOpen
  · next refused => exact iff_of_false (Option.some_ne_none _) refused

theorem lists_iff_isOpen :
    (tree.fullWalk ignoreCase kind).lists (fun _ => tree.listingFailure?) start directory = true ↔
      ∀ names, names <+: directory.names → tree.IsOpen start place names := by
  rw [Walk.lists_iff, and_iff_right (.inl rfl)]
  exact forall₂_congr fun names inFront =>
    starts.failureAt?_eq_none_iff ignoreCase kind member inFront

theorem reaches_iff_isOpen :
    (tree.fullWalk ignoreCase kind).reaches (fun _ => tree.listingFailure?) start directory = true ↔
      ∀ names ∈ directory.above, tree.IsOpen start place names := by
  simp only [Walk.reaches, fullWalk, PathStyle.walk, Bool.true_or, Bool.true_and,
    List.all_eq_true, Option.isNone_iff_eq_none]
  exact forall₂_congr fun names isAbove =>
    starts.failureAt?_eq_none_iff ignoreCase kind member (directory.mem_above_iff.mp isAbove).1

end Directory

/-- An entry below the start is an entry of the directory that the names above it lead to. -/
theorem any_isOfKind_iff {above : List Path} {name : Path} :
    (tree.node? (place ++ above ++ [name])).any (isOfKind kind) = true ↔
      ∃ inner, node.below? above = some inner ∧ name ∈ inner.namesOf kind := by
  rw [List.append_assoc, starts.node?_append_eq, Node.below?_append, Option.any_eq_true]
  constructor
  · rintro ⟨entry, found, ofKind⟩
    obtain ⟨inner, below, inside⟩ := Option.bind_eq_some_iff.mp found
    obtain ⟨_, lookup, same⟩ := Option.bind_eq_some_iff.mp inside
    obtain rfl := Option.some.inj same
    refine ⟨inner, below, ?_⟩
    exact (starts.named.of_below? below).2.mem_namesOf.mpr ⟨_, lookup, ofKind⟩
  · rintro ⟨inner, below, inside⟩
    obtain ⟨entry, lookup, ofKind⟩ := (starts.named.of_below? below).2.mem_namesOf.mp inside
    refine ⟨entry, ?_, ofKind⟩
    rw [below, Option.bind_some, Node.below?_cons, lookup]
    rfl

/-- What a walk finds are the entries behind open directories. -/
theorem mem_entries_iff {entry : TreeEntry} :
    entry ∈ (tree.fullWalk ignoreCase kind).entries (fun _ => tree.listingFailure?) start
        node.directoryTree ↔
      (tree.node? (place ++ entry.above ++ [entry.name])).any (isOfKind kind) = true ∧
        ∀ names, names <+: entry.above → tree.IsOpen start place names := by
  rw [Walk.entries_eq, List.mem_flatMap, starts.any_isOfKind_iff]
  constructor
  · rintro ⟨directory, listed, matched⟩
    obtain ⟨member, lists⟩ := List.mem_filter.mp listed
    rw [fullWalk, Walk.matching_everything starts.hasLegalNames member] at matched
    obtain ⟨name, inside, rfl⟩ := List.mem_map.mp matched
    obtain ⟨inner, below, _, same⟩ := starts.mem_directories_iff.mp member
    rw [same, Node.entries_listedAt] at inside
    exact ⟨⟨inner, below, inside⟩, (starts.lists_iff_isOpen ignoreCase kind member).mp lists⟩
  · rintro ⟨⟨inner, below, inside⟩, allOpen⟩
    have isInner := Node.isDirectory_of_mem_namesOf inside
    have member : inner.listedAt entry.above ∈ node.directoryTree.directories :=
      starts.mem_directories_iff.mpr ⟨inner, below, isInner, rfl⟩
    refine ⟨inner.listedAt entry.above, ?_, ?_⟩
    · exact List.mem_filter.mpr
        ⟨member, (starts.lists_iff_isOpen ignoreCase kind member).mpr allOpen⟩
    · rw [fullWalk, Walk.matching_everything starts.hasLegalNames member,
        Node.entries_listedAt]
      exact List.mem_map.mpr ⟨entry.name, inside, rfl⟩

omit starts in
/-- The directories that a walk comes to and cannot list, by the names that lead to them. -/
def closedBelow (tree : FileTree) (start : Path) (place : Place) (node : Node) :
    List (List Path) :=
  (node.directoryTree.directories.filter fun directory =>
    decide ((∀ above ∈ directory.above, tree.IsOpen start place above) ∧
      ¬ tree.IsOpen start place directory.names)).map TreeDirectory.names

theorem mem_closedBelow_iff {names : List Path} :
    names ∈ closedBelow tree start place node ↔
      tree.isDirectoryAt (place ++ names) = true ∧
        (∀ above, above <+: names → above ≠ names → tree.IsOpen start place above) ∧
        ¬ tree.IsOpen start place names := by
  simp only [closedBelow, List.mem_map, List.mem_filter, decide_eq_true_eq,
    TreeDirectory.mem_above_iff, and_imp]
  rw [isDirectoryAt, starts.node?_append_eq, Option.any_eq_true]
  constructor
  · rintro ⟨directory, ⟨member, closed⟩, rfl⟩
    obtain ⟨inner, below, isInner, -⟩ := starts.mem_directories_iff.mp member
    exact ⟨⟨inner, below, isInner⟩, closed⟩
  · rintro ⟨⟨inner, below, isInner⟩, closed⟩
    have member : inner.listedAt names ∈ node.directoryTree.directories :=
      starts.mem_directories_iff.mpr ⟨inner, below, isInner, rfl⟩
    exact ⟨inner.listedAt names, ⟨member, closed⟩, rfl⟩

theorem pairwise_closedBelow : (closedBelow tree start place node).Pairwise VisitedBefore := by
  rw [closedBelow, List.pairwise_map]
  exact starts.hasSortedNames.pairwise_names.sublist List.filter_sublist

/-- What a walk reports are the directories that it comes to and that are not open. -/
theorem failuresIn_eq :
    (tree.fullWalk ignoreCase kind).failuresIn (fun _ => tree.listingFailure?) start
        node.directoryTree =
      (closedBelow tree start place node).map fun names =>
        ⟨Flavor.posix.pathTo start names, refusal (Flavor.posix.pathTo start names)⟩ := by
  rw [Walk.failuresIn, Walk.reached, closedBelow, List.map_map, List.filterMap_filter,
    ← List.filterMap_eq_map, List.filterMap_filter]
  refine List.filterMap_congr fun directory member => ?_
  have here : (tree.fullWalk ignoreCase kind).failureAt? (fun _ => tree.listingFailure?)
      (directory.path Flavor.posix start) = _ :=
    starts.failureAt?_pathTo ignoreCase kind (starts.isSome_below?_names member) List.prefix_rfl
  have sameFlavor : (tree.fullWalk ignoreCase kind).lister.flavor = Flavor.posix := rfl
  have reaches_iff := starts.reaches_iff_isOpen ignoreCase kind member
  rw [sameFlavor, here]
  by_cases reached : ∀ names ∈ directory.above, tree.IsOpen start place names
  · rw [if_pos (reaches_iff.mpr reached)]
    by_cases isOpen : tree.IsOpen start place directory.names
    · rw [if_pos isOpen, if_neg (by simp [isOpen])]
      rfl
    · rw [if_neg isOpen, if_pos (decide_eq_true ⟨reached, isOpen⟩)]
      rfl
  · rw [if_neg (mt reaches_iff.mp reached), if_neg (by simp [reached])]

omit starts in
theorem ofSpecification?_fullWalk :
    Walk.ofSpecification? (tree.lister .posix ignoreCase) kind ['*'] true =
      some (tree.fullWalk ignoreCase kind) := by
  have conventions : (tree.lister .posix ignoreCase).flavor = PathStyle.posix.flavor := rfl
  exact Walk.ofSpecification?_eq conventions kind ['*'] true

theorem walk_eq : tree.walk kind ⟨start, ['*'], true⟩ =
    .ok ((tree.fullWalk false kind).run .report none start) := by
  simp [walk, starts.leads.noNul, ofSpecification?_fullWalk]

theorem seesAll : (tree.fullWalk ignoreCase kind).SeesAll node.directoryTree :=
  Walk.seesAll starts.hasLegalNames kind ['*'] true

theorem run_result : ((tree.fullWalk ignoreCase kind).run .report none start).result =
    .ok (((tree.fullWalk ignoreCase kind).entries (fun _ => tree.listingFailure?) start
      node.directoryTree).map (TreeEntry.path Flavor.posix start)) :=
  Walk.run_result (starts.serves ignoreCase) (starts.seesAll ignoreCase kind) (by decide)

theorem run_reported : ((tree.fullWalk ignoreCase kind).run .report none start).reported =
    (closedBelow tree start place node).map fun names =>
      ⟨Flavor.posix.pathTo start names, refusal (Flavor.posix.pathTo start names)⟩ :=
  (Walk.run_reported (starts.serves ignoreCase) (starts.seesAll ignoreCase kind)).trans
    (starts.failuresIn_eq ignoreCase kind)

theorem exists_reported {names : List Path} (closed : names ∈ closedBelow tree start place node) :
    ∃ failure ∈ ((tree.fullWalk ignoreCase kind).run .report none start).reported,
      failure.directory = Flavor.posix.pathTo start names := by
  rw [starts.run_reported]
  exact ⟨_, List.mem_map_of_mem closed, rfl⟩

theorem nodup_entries :
    (((tree.fullWalk ignoreCase kind).entries (fun _ => tree.listingFailure?) start
      node.directoryTree).map (TreeEntry.path Flavor.posix start)).Nodup := by
  have conventions : (tree.fullWalk ignoreCase kind).lister.flavor = PathStyle.posix.flavor := rfl
  have paths : ((tree.fullWalk ignoreCase kind).paths (fun _ => tree.listingFailure?) start
      node.directoryTree).Nodup :=
    Walk.nodup_paths conventions starts.nonempty starts.hasLegalNames
      starts.hasSortedNames.distinct
  exact paths

theorem nodup_closedBelow :
    ((closedBelow tree start place node).map (Flavor.posix.pathTo start)).Nodup := by
  have apart := DirectoryTree.nodup_paths starts.nonempty starts.hasLegalNames
    starts.hasSortedNames.distinct
  rw [closedBelow, List.map_map]
  exact apart.sublist (List.filter_sublist.map _)

end StartsAt

end FileTree

/-- However its start is written, a walk for everything finds, each once and in order, the entries
behind directories that are open, and reports the directories that it comes to and that are not. A
start that is itself too long is one of these. -/
theorem walk_through_files (tree : FileTree) (named : tree.top.HasEntryNames) {start : Path}
    {place : Place} (leads : tree.LeadsTo start place)
    (isDirectory : tree.isDirectoryAt place = true) (ignoreCase : Bool) (kind : EntryKind) :
    ∃ (walk : Walk) (entries : List TreeEntry) (closed : List (List Path)),
      Walk.ofSpecification? (tree.lister .posix ignoreCase) kind ['*'] true = some walk ∧
      (ignoreCase = false →
        tree.walk kind ⟨start, ['*'], true⟩ = .ok (walk.run .report none start)) ∧
      (walk.run .report none start).result =
        .ok (entries.map (TreeEntry.path Flavor.posix start)) ∧
      (∀ entry, entry ∈ entries ↔
        (tree.node? (place ++ entry.above ++ [entry.name])).any (FileTree.isOfKind kind) = true ∧
          ∀ names, names <+: entry.above → tree.IsOpen start place names) ∧
      (entries.map (TreeEntry.path Flavor.posix start)).Nodup ∧
      entries.Pairwise TreeEntry.FoundBefore ∧
      (walk.run .report none start).reported = closed.map (fun names =>
        ⟨Flavor.posix.pathTo start names,
          FileTree.refusal (Flavor.posix.pathTo start names)⟩) ∧
      (∀ names, names ∈ closed ↔
        tree.isDirectoryAt (place ++ names) = true ∧
          (∀ above, above <+: names → above ≠ names → tree.IsOpen start place above) ∧
          ¬ tree.IsOpen start place names) ∧
      (closed.map (Flavor.posix.pathTo start)).Nodup ∧
      closed.Pairwise VisitedBefore := by
  obtain ⟨node, starts⟩ := FileTree.StartsAt.of_leads named leads isDirectory
  refine ⟨_, _, _, FileTree.StartsAt.ofSpecification?_fullWalk ignoreCase kind, ?_,
    starts.run_result ignoreCase kind, fun _ => starts.mem_entries_iff ignoreCase kind,
    starts.nodup_entries ignoreCase kind, Walk.pairwise_entries starts.hasSortedNames,
    starts.run_reported ignoreCase kind, fun _ => starts.mem_closedBelow_iff,
    starts.nodup_closedBelow, starts.pairwise_closedBelow⟩
  rintro rfl
  exact starts.walk_eq kind

/-- A directory with a file, a directory that can be listed, and one that is locked. -/
def cellar : FileTree where
  top := .directory [("d".toList, .directory
    [("c".toList, .directory [("y".toList, .file .empty)]), ("b.txt".toList, .file .empty),
      ("a".toList, .directory [("x".toList, .file .empty)])])]
  locked := [["d".toList, "c".toList]]
  workingDirectory := []

theorem hasEntryNames_cellar : cellar.top.HasEntryNames := by
  have leaf {name : List Char} (legal : IsEntryName name) :
      (Node.directory [(name, .file .empty)]).HasEntryNames :=
    .directory (List.nodup_singleton name) (by simpa using legal) (by simpa using .file)
  refine .directory (by decide) (by decide) (List.forall_mem_singleton.mpr ?_)
  refine .directory (by decide) (by decide) ?_
  simp only [List.forall_mem_cons]
  exact ⟨leaf (by decide), .file, leaf (by decide), List.forall_mem_nil _⟩

theorem eq_nil_of_isPrefix_singleton {name : Path} {above : List Path} (inFront : above <+: [name])
    (different : above ≠ [name]) : above = [] :=
  List.prefix_nil.mp ((List.prefix_concat_iff.mp inFront).resolve_left different)

theorem walk_through_files_cellar :
    cellar.top.HasEntryNames ∧ cellar.LeadsTo "./d//".toList ["d".toList] ∧
      cellar.isDirectoryAt ["d".toList] = true ∧
      ∃ (walk : Walk) (entries : List TreeEntry),
        cellar.walk .file ⟨"./d//".toList, ['*'], true⟩ =
          .ok (walk.run .report none "./d//".toList) ∧
        (walk.run .report none "./d//".toList).result =
          .ok (entries.map (TreeEntry.path Flavor.posix "./d//".toList)) ∧
        ⟨["a".toList], "x".toList⟩ ∈ entries ∧ ⟨["c".toList], "y".toList⟩ ∉ entries ∧
        ⟨"./d//c".toList, .permissionDenied "./d//c".toList⟩ ∈
          (walk.run .report none "./d//".toList).reported := by
  have leads : cellar.LeadsTo "./d//".toList ["d".toList] :=
    ⟨by decide +kernel, by decide +kernel, by decide +kernel⟩
  have isDirectory : cellar.isDirectoryAt ["d".toList] = true := by decide +kernel
  obtain ⟨walk, entries, closed, -, walked, result, found, -, -, reported, isClosed, -, -⟩ :=
    walk_through_files cellar hasEntryNames_cellar leads isDirectory false .file
  have opens : ∀ names ∈ ["a".toList].inits,
      cellar.IsOpen "./d//".toList ["d".toList] names := by decide +kernel
  have locked : ¬ cellar.IsOpen "./d//".toList ["d".toList] ["c".toList] := by decide +kernel
  refine ⟨hasEntryNames_cellar, leads, isDirectory, walk, entries, walked rfl, result, ?_,
    ?_, ?_⟩
  · exact (found _).mpr ⟨by decide +kernel, fun names inFront =>
      opens names ((List.mem_inits _ _).mpr inFront)⟩
  · exact fun member => locked (((found _).mp member).2 _ List.prefix_rfl)
  · have member : ["c".toList] ∈ closed := by
      refine (isClosed _).mpr ⟨by decide +kernel, fun above inFront different => ?_, locked⟩
      obtain rfl := eq_nil_of_isPrefix_singleton inFront different
      exact opens [] (by simp)
    rw [reported]
    exact List.mem_map.mpr ⟨_, member, by decide +kernel⟩

def attic : FileTree where
  top := .directory [("d".toList, .directory
    [("s".toList, .directory [("b".toList, .file .empty)])])]
  locked := []
  workingDirectory := []

def atticPath (slashes : Nat) : Path :=
  "d".toList ++ List.replicate slashes '/'

section Attic

variable {slashes : Nat}

theorem atticPath_startsAt (slashes : Nat) :
    ∃ node, attic.StartsAt (atticPath slashes) ["d".toList] node := by
  have named : attic.top.HasEntryNames := by
    refine .directory (by decide) (by decide) (List.forall_mem_singleton.mpr ?_)
    refine .directory (by decide) (by decide) (List.forall_mem_singleton.mpr ?_)
    exact .directory (by decide) (by decide) (List.forall_mem_singleton.mpr .file)
  have isDirectory : attic.isDirectoryAt ["d".toList] = true := by decide +kernel
  have leads : attic.LeadsTo "d".toList ["d".toList] :=
    ⟨by decide +kernel, by decide +kernel, by decide +kernel⟩
  exact FileTree.StartsAt.of_leads named (leads.append_slashes isDirectory slashes) isDirectory

@[simp]
theorem byteLength_atticPath (slashes : Nat) :
    FileTree.byteLength (atticPath slashes) = slashes + 1 := by
  have single : FileTree.byteLength "d".toList = 1 := by decide +kernel
  rw [atticPath, FileTree.byteLength_append, FileTree.byteLength_replicate_slash, single,
    Nat.add_comm]

theorem pathTo_atticPath (positive : 0 < slashes) :
    Flavor.posix.pathTo (atticPath slashes) ["s".toList] = atticPath slashes ++ "s".toList := by
  have legal : IsEntryName "s".toList := by decide
  exact FileTree.join_append_slashes legal "d".toList positive

theorem not_isOpen_attic (long : FileTree.longestPath < slashes + 2) :
    ¬ attic.IsOpen (atticPath slashes) ["d".toList] ["s".toList] := by
  rintro ⟨-, short⟩
  have positive : 0 < slashes := by
    rw [FileTree.longestPath] at long
    omega
  have single : FileTree.byteLength "s".toList = 1 := by decide +kernel
  rw [pathTo_atticPath positive, FileTree.byteLength_append, byteLength_atticPath, single] at short
  omega

end Attic

theorem eq_of_present_attic {first : Path} {rest : List Path}
    (present : (attic.node? ("d".toList :: first :: rest)).isSome = true) : first = "s".toList := by
  by_contra different
  have other : (first == ['s']) = false := beq_eq_false_iff_ne.mpr different
  simp [attic, FileTree.node?, List.lookup_cons, other] at present

/-- A file is missed and its directory reported, although nothing is locked: the directory has a
path that no request can be about. -/
theorem walk_loses_long_paths :
    (attic.node? ["d".toList, "s".toList, "b".toList]).any (FileTree.isOfKind .file) = true ∧
      attic.locked = [] ∧ attic.locate (atticPath 4094) = .ok ["d".toList] ∧
      ∃ outcome, attic.walk .file ⟨atticPath 4094, ['*'], true⟩ = .ok outcome ∧
        outcome.result = .ok [] ∧
        ∃ failure ∈ outcome.reported, failure.directory = atticPath 4094 ++ "s".toList := by
  obtain ⟨node, starts⟩ := atticPath_startsAt 4094
  have short : FileTree.byteLength (atticPath 4094) ≤ FileTree.longestPath := by
    rw [byteLength_atticPath, FileTree.longestPath]
  have notOpen := not_isOpen_attic (by decide : FileTree.longestPath < 4094 + 2)
  have located : attic.locate (atticPath 4094) = .ok ["d".toList] := by
    rw [starts.leads.locate_eq, if_pos short]
  refine ⟨by decide +kernel, rfl, located, _, starts.walk_eq .file, ?_, ?_⟩
  · rw [starts.run_result, Except.ok.injEq, List.map_eq_nil_iff, List.eq_nil_iff_forall_not_mem]
    rintro ⟨above, name⟩ member
    obtain ⟨present, allOpen⟩ := (starts.mem_entries_iff false .file).mp member
    cases above with
    | nil =>
        obtain rfl := eq_of_present_attic (Option.isSome_of_any present)
        revert present
        decide +kernel
    | cons first rest =>
        obtain rfl := eq_of_present_attic (Option.isSome_of_any present)
        exact notOpen (allOpen _ (List.prefix_append [_] rest))
  · have startIsOpen : attic.IsOpen (atticPath 4094) ["d".toList] [] :=
      ⟨List.not_mem_nil, short⟩
    have closed : ["s".toList] ∈
        FileTree.StartsAt.closedBelow attic (atticPath 4094) ["d".toList] node := by
      refine starts.mem_closedBelow_iff.mpr ⟨by decide +kernel, fun above inFront different => ?_,
        notOpen⟩
      obtain rfl := eq_nil_of_isPrefix_singleton inFront different
      exact startIsOpen
    rw [← pathTo_atticPath (by decide)]
    exact starts.exists_reported false .file closed

end FileSpec
