import FileSpec.Proofs.Directory.LazyWalk
import FileSpec.Proofs.Directory.Selection

/-!
# Directories that cannot be listed

A selection fails with the error of its start if that cannot be listed. Any other directory that it
comes to and that cannot be listed leads to a warning, and else counts as one in which there is
nothing: the same files are selected in the tree in which these directories are empty,
`selection_despite_failures`.
-/

set_option autoImplicit false

namespace FileSpec

/-- The entry as one of a larger tree, in which its tree has the given name. -/
def TreeEntry.under (name : Path) (entry : TreeEntry) : TreeEntry :=
  { entry with above := name :: entry.above }

namespace DirectoryTree

/-- The tree in which there is nothing in the directories at some places. -/
def emptied : DirectoryTree → (isEmpty : List Path → Bool) → DirectoryTree
  | leaf files, isEmpty => if isEmpty [] then leaf [] else leaf files
  | node files subdirectories below, isEmpty =>
      if isEmpty [] then leaf []
      else node files subdirectories fun name =>
        (below name).emptied fun names => isEmpty (name :: names)

variable {files subdirectories : List Path} {below : Path → DirectoryTree}
  {isEmpty : List Path → Bool}

theorem emptied_of_isEmpty (tree : DirectoryTree) (nothing : isEmpty [] = true) :
    tree.emptied isEmpty = leaf [] := by
  cases tree with
  | leaf files => simp [emptied, nothing]
  | node files subdirectories below => simp [emptied, nothing]

@[simp]
theorem emptied_leaf (kept : isEmpty [] = false) :
    (leaf files).emptied isEmpty = leaf files := by
  simp [emptied, kept]

@[simp]
theorem emptied_node (kept : isEmpty [] = false) :
    (node files subdirectories below).emptied isEmpty =
      node files subdirectories fun name =>
        (below name).emptied fun names => isEmpty (name :: names) := by
  simp [emptied, kept]

theorem exists_top (tree : DirectoryTree) :
    ∃ files subdirectories below, tree.directories = ⟨[], files, subdirectories⟩ :: below := by
  cases tree with
  | leaf files => exact ⟨files, [], [], rfl⟩
  | node files subdirectories below => exact ⟨files, subdirectories, _, rfl⟩

theorem exists_of_mem_nothing (tree : DirectoryTree) {directory : TreeDirectory}
    (member : directory ∈ (leaf []).directories) :
    ∃ original ∈ tree.directories, original.names = directory.names ∧
      ∀ kind, directory.entries kind ⊆ original.entries kind := by
  obtain ⟨files, subdirectories, below, whole⟩ := tree.exists_top
  obtain rfl := mem_directories_leaf.mp member
  refine ⟨⟨[], files, subdirectories⟩, ?_, rfl, fun kind => ?_⟩
  · rw [whole]
    exact List.mem_cons_self
  · cases kind with
    | file => exact List.nil_subset _
    | directory => exact List.nil_subset _

/-- What is left in a directory was in it before. -/
theorem exists_of_mem_emptied {tree : DirectoryTree} {directory : TreeDirectory}
    (member : directory ∈ (tree.emptied isEmpty).directories) :
    ∃ original ∈ tree.directories, original.names = directory.names ∧
      ∀ kind, directory.entries kind ⊆ original.entries kind := by
  induction tree generalizing directory isEmpty with
  | leaf files =>
      cases nothing : isEmpty [] with
      | true =>
          rw [emptied_of_isEmpty _ nothing] at member
          exact exists_of_mem_nothing _ member
      | false =>
          rw [emptied_leaf nothing] at member
          exact ⟨directory, member, rfl, fun kind => List.Subset.refl _⟩
  | node files subdirectories below inductionHypothesis =>
      cases nothing : isEmpty [] with
      | true =>
          rw [emptied_of_isEmpty _ nothing] at member
          exact exists_of_mem_nothing _ member
      | false =>
          rw [emptied_node nothing] at member
          rcases mem_directories_node.mp member with rfl | ⟨name, inTop, inner, inside, rfl⟩
          · exact ⟨_, top_mem_directories, rfl, fun kind => List.Subset.refl _⟩
          · obtain ⟨original, inBelow, sameNames, included⟩ := inductionHypothesis name inside
            refine ⟨original.under name, under_mem_directories inTop inBelow, ?_, included⟩
            exact congrArg (name :: ·) sameNames

theorem HasLegalNames.emptied {flavor : Flavor} {tree : DirectoryTree}
    (legal : tree.HasLegalNames flavor) (isEmpty : List Path → Bool) :
    (tree.emptied isEmpty).HasLegalNames flavor := by
  intro directory member kind name inside
  obtain ⟨original, inTree, -, included⟩ := exists_of_mem_emptied member
  exact legal original inTree kind name (included kind inside)

end DirectoryTree

namespace Walk

variable {walk : Walk} {failures others : ListingFailures} {start : Path}

@[simp]
theorem entriesIn_under (directory : TreeDirectory) (name : Path) :
    walk.entriesIn failures start (directory.under name) =
      (walk.entriesIn failures (walk.lister.flavor.join start name) directory).map
        (TreeEntry.under name) := by
  have samePath : (directory.under name).path walk.lister.flavor start =
      directory.path walk.lister.flavor (walk.lister.flavor.join start name) := rfl
  rw [entriesIn, entriesIn, samePath]
  split
  · rfl
  · simp only [matching, List.map_map]
    rfl

@[simp]
theorem entries_leaf {files : List Path} :
    walk.entries failures start (.leaf files) = walk.entriesIn failures start ⟨[], files, []⟩ := by
  rw [entries, reached_leaf, List.flatMap_singleton]

/-- What is found in a tree is found at its top and, if the walk descends, below each name. -/
@[simp]
theorem entries_node {files subdirectories : List Path} {below : Path → DirectoryTree} :
    walk.entries failures start (.node files subdirectories below) =
      walk.entriesIn failures start ⟨[], files, subdirectories⟩ ++
        if walk.descends failures start then
          subdirectories.flatMap fun name =>
            (walk.entries failures (walk.lister.flavor.join start name) (below name)).map
              (TreeEntry.under name)
        else [] := by
  rw [entries, reached_node, List.flatMap_cons]
  congr 1
  split
  · rw [List.flatMap_assoc]
    apply List.flatMap_congr
    intro name _
    rw [List.flatMap_map, entries, List.map_flatMap]
    apply List.flatMap_congr
    intro directory _
    exact entriesIn_under directory name
  · rfl

/-- Calls that fail among fewer fail among more. -/
theorem failureAt?_of_fewer
    (fewer : ∀ kind directory, failures kind directory = none → others kind directory = none)
    {directory : Path} (succeeds : walk.failureAt? failures directory = none) :
    walk.failureAt? others directory = none := by
  rw [failureAt?, Option.or_eq_none_iff] at succeeds ⊢
  obtain ⟨wantedSucceeds, subdirectoriesSucceed⟩ := succeeds
  refine ⟨fewer _ _ wantedSucceeds, ?_⟩
  split
  · next recursive =>
      rw [if_pos recursive] at subdirectoriesSucceed
      exact fewer _ _ subdirectoriesSucceed
  · rfl

theorem entriesIn_of_listed {directory : TreeDirectory}
    (succeeds : walk.failureAt? failures (directory.path walk.lister.flavor start) = none) :
    walk.entriesIn failures start directory = walk.matching directory := by
  simp [entriesIn, succeeds]

theorem entries_of_failure {error : OsError} (fails : walk.failureAt? failures start = some error)
    (tree : DirectoryTree) : walk.entries failures start tree = [] := by
  have nothingInTop : ∀ files subdirectories,
      walk.entriesIn failures start ⟨[], files, subdirectories⟩ = [] := by
    intro files subdirectories
    simp [entriesIn, fails]
  cases tree with
  | leaf files => rw [entries_leaf, nothingInTop]
  | node files subdirectories below => simp [nothingInTop, descends, fails]

theorem entries_nothing : walk.entries failures start (.leaf []) = [] := by
  have nothing : walk.matching ⟨[], [], []⟩ = [] := by
    cases kind : walk.kind <;> simp [matching, kind, TreeDirectory.entries]
  rw [entries_leaf, entriesIn, nothing, ite_self]

theorem entries_emptied_of_failure {tree : DirectoryTree} {isEmpty : List Path → Bool}
    {error : OsError} (fails : walk.failureAt? failures start = some error)
    (nothing : isEmpty [] = true) :
    walk.entries others start (tree.emptied isEmpty) = walk.entries failures start tree := by
  rw [DirectoryTree.emptied_of_isEmpty _ nothing, entries_nothing, entries_of_failure fails]

/-- A directory that cannot be listed counts as one in which there is nothing. -/
theorem entries_emptied {tree : DirectoryTree} {isEmpty : List Path → Bool}
    (fewer : ∀ kind directory, failures kind directory = none → others kind directory = none)
    (same : ∀ directory ∈ walk.reached failures start tree,
      isEmpty directory.names =
        (walk.failureAt? failures (directory.path walk.lister.flavor start)).isSome) :
    walk.entries others start (tree.emptied isEmpty) = walk.entries failures start tree := by
  induction tree generalizing start isEmpty with
  | leaf files =>
      rw [reached_leaf, List.forall_mem_singleton, TreeDirectory.path_top] at same
      cases failure : walk.failureAt? failures start with
      | some error =>
          rw [failure, Option.isSome_some] at same
          exact entries_emptied_of_failure failure same
      | none =>
          rw [failure, Option.isSome_none] at same
          rw [DirectoryTree.emptied_leaf same, entries_leaf, entries_leaf,
            entriesIn_of_listed (failureAt?_of_fewer fewer failure), entriesIn_of_listed failure]
  | node files subdirectories below inductionHypothesis =>
      rw [reached_node, List.forall_mem_cons, TreeDirectory.path_top] at same
      obtain ⟨sameAtTop, sameBelow⟩ := same
      cases failure : walk.failureAt? failures start with
      | some error =>
          rw [failure, Option.isSome_some] at sameAtTop
          exact entries_emptied_of_failure failure sameAtTop
      | none =>
          have failureOfOther := failureAt?_of_fewer fewer failure
          have sameDescent : walk.descends others start = walk.descends failures start := by
            rw [descends, descends, failure, failureOfOther]
          rw [failure, Option.isSome_none] at sameAtTop
          rw [DirectoryTree.emptied_node sameAtTop, entries_node, entries_node, sameDescent,
            entriesIn_of_listed failureOfOther, entriesIn_of_listed failure]
          congr 1
          split
          · next goesOn =>
              rw [if_pos goesOn] at sameBelow
              apply List.flatMap_congr
              intro name inTop
              rw [inductionHypothesis name]
              intro directory isReached
              exact sameBelow (directory.under name)
                (List.mem_flatMap.mpr ⟨name, inTop, List.mem_map.mpr ⟨directory, isReached, rfl⟩⟩)
          · rfl

/-- The directories that a walk comes to and cannot list. -/
def unreadable (walk : Walk) (failures : ListingFailures) (start : Path)
    (tree : DirectoryTree) : List TreeDirectory :=
  (walk.reached failures start tree).filter fun directory =>
    (walk.failureAt? failures (directory.path walk.lister.flavor start)).isSome

theorem any_unreadable {tree : DirectoryTree} {directory : TreeDirectory}
    (isReached : directory ∈ walk.reached failures start tree) :
    (walk.unreadable failures start tree).any (·.names == directory.names) =
      (walk.failureAt? failures (directory.path walk.lister.flavor start)).isSome := by
  rw [Bool.eq_iff_iff, List.any_eq_true]
  constructor
  · rintro ⟨other, isUnreadable, sameNames⟩
    have fails := (List.mem_filter.mp isUnreadable).2
    rwa [TreeDirectory.path, beq_iff_eq.mp sameNames, ← TreeDirectory.path] at fails
  · intro fails
    exact ⟨directory, List.mem_filter.mpr ⟨isReached, fails⟩, beq_self_eq_true _⟩

/-- Each of these directories has its failure, in the same order. -/
theorem forall₂_unreadable {tree : DirectoryTree} :
    List.Forall₂ (fun directory failure =>
        failure.directory = directory.path walk.lister.flavor start ∧
          walk.failureAt? failures failure.directory = some failure.cause)
      (walk.unreadable failures start tree) (walk.failuresIn failures start tree) := by
  rw [unreadable, failuresIn]
  induction walk.reached failures start tree with
  | nil => exact .nil
  | cons directory others inductionHypothesis =>
      cases failure : walk.failureAt? failures (directory.path walk.lister.flavor start) with
      | none => simpa [failure] using inductionHypothesis
      | some error => simpa [failure] using inductionHypothesis

theorem names_ne_nil_of_unreadable {tree : DirectoryTree} {directory : TreeDirectory}
    (startLists : walk.failureAt? failures start = none)
    (isUnreadable : directory ∈ walk.unreadable failures start tree) : directory.names ≠ [] := by
  have fails := (List.mem_filter.mp isUnreadable).2
  rcases directory with ⟨names, files, subdirectories⟩
  rintro rfl
  rw [TreeDirectory.path_top, startLists] at fails
  cases fails

theorem paths_emptied {tree : DirectoryTree} {other : Lister}
    (fewer : ∀ kind directory, failures kind directory = none → others kind directory = none)
    (sameFlavor : other.flavor = walk.lister.flavor) :
    { walk with lister := other }.paths others start (tree.emptied fun names =>
        (walk.unreadable failures start tree).any (·.names == names)) =
      walk.paths failures start tree := by
  rw [paths_of_lister sameFlavor, paths, paths]
  congr 1
  apply entries_emptied fewer
  intro directory isReached
  exact any_unreadable isReached

theorem exists_reached_top (walk : Walk) (failures : ListingFailures) (start : Path)
    (tree : DirectoryTree) :
    ∃ files subdirectories below,
      walk.reached failures start tree = ⟨[], files, subdirectories⟩ :: below := by
  obtain ⟨files, subdirectories, below, whole⟩ := tree.exists_top
  rw [reached, whole, List.filter_cons_of_pos reaches_top]
  exact ⟨files, subdirectories, _, rfl⟩

end Walk

namespace Selection

variable {selection : Selection} {walk : Walk} {failures : ListingFailures} {start : Path}
  {tree : DirectoryTree} (serves : walk.lister.Serves failures start tree)
  (seesAll : walk.SeesAll tree)

include serves seesAll

theorem run_of_failure {cause : OsError} (fails : walk.failureAt? failures start = some cause) :
    selection.run walk start = .error cause := by
  obtain ⟨files, subdirectories, below, reached⟩ := walk.exists_reached_top failures start tree
  have inTree : ⟨[], files, subdirectories⟩ ∈ tree.directories := by
    apply Walk.reached_subset
    rw [reached]
    exact List.mem_cons_self
  have failure : (walk.visit start).failure? = some ⟨start, cause⟩ := by
    have met := Walk.visit_failure? (serves.answers _ inTree)
    rwa [TreeDirectory.path_top, fails] at met
  -- The walk ends with its first visit.
  have made : visits walk start = [walk.visit start] := by
    rw [visits, Walk.madeVisits_eq_reached serves seesAll, reached, List.map_cons,
      TreeDirectory.path_top]
    exact Demand.visits_of_endsWith (by simp) (by simp [failure])
  simp [run, made, failure]

theorem run_eq_error_iff {cause : OsError} :
    selection.run walk start = .error cause ↔ walk.failureAt? failures start = some cause := by
  constructor
  · intro ran
    cases failure : walk.failureAt? failures start with
    | some error =>
        rw [run_of_failure serves seesAll failure] at ran
        exact congrArg some (Except.error.inj ran)
    | none =>
        rw [run_served failure serves seesAll] at ran
        cases ran
  · exact run_of_failure serves seesAll

omit serves seesAll in
theorem forall₂_warning :
    List.Forall₂ (fun directory warning => ∃ cause,
        walk.failureAt? failures (directory.path walk.lister.flavor start) = some cause ∧
        warning = "Skipping unreadable directory: ".toList ++
          directory.path walk.lister.flavor start ++ " (".toList ++ cause.message ++ [')'])
      (walk.unreadable failures start tree)
      ((walk.failuresIn failures start tree).map Selection.warning) := by
  rw [List.forall₂_map_right_iff]
  apply List.Forall₂.imp _ Walk.forall₂_unreadable
  rintro directory failure ⟨place, fails⟩
  rw [← place]
  exact ⟨failure.cause, fails, rfl⟩

end Selection

/--
A selection fails exactly if its start cannot be listed, with the error of the first call that fails
there. Otherwise there is a warning for each subdirectory that is come to and cannot be listed, in
the order of the walk, and what is selected is what is selected where there is nothing in these
subdirectories, however many of the failures are left then.
-/
theorem selection_despite_failures (style : PathStyle) {lister : Lister}
    {failures : ListingFailures} {start : Path} {tree : DirectoryTree}
    (conventions : lister.flavor = style.flavor) (legal : tree.HasLegalNames style.flavor)
    (serves : lister.Serves failures start tree) (recursive ignoreCase : Bool)
    (included excluded : List (List Char)) :
    ∃ selection walk,
      Selection.ofSpecifications? style.flavor ignoreCase included excluded = some selection ∧
      Walk.ofSpecification? lister .file ['*'] recursive = some walk ∧
      (∀ directory, walk.failureAt? failures directory = (failures .file directory).or
        (if recursive then failures .directory directory else none)) ∧
      (∀ cause, selection.run walk start = .error cause ↔
        walk.failureAt? failures start = some cause) ∧
      (walk.failureAt? failures start = none → ∃ selected,
        selection.run walk start = .ok selected ∧
        (∀ directory ∈ walk.unreadable failures start tree, directory.names ≠ []) ∧
        List.Forall₂ (fun directory warning => ∃ cause,
            walk.failureAt? failures (directory.path style.flavor start) = some cause ∧
            warning = "Skipping unreadable directory: ".toList ++
              directory.path style.flavor start ++ " (".toList ++ cause.message ++ [')'])
          (walk.unreadable failures start tree) selected.warnings ∧
        ∀ (other : Lister) (others : ListingFailures),
          (∀ kind directory, failures kind directory = none → others kind directory = none) →
          other.flavor = lister.flavor → other.ignoreCase = lister.ignoreCase →
          other.Serves others start (tree.emptied fun names =>
            (walk.unreadable failures start tree).any (·.names == names)) →
          ∃ walkOfOther selectedOfOther,
            Walk.ofSpecification? other .file ['*'] recursive = some walkOfOther ∧
            selection.run walkOfOther start = .ok selectedOfOther ∧
            selectedOfOther.paths = selected.paths) := by
  have seesAll : (style.walk lister .file ['*'] recursive).SeesAll tree :=
    Walk.seesAll legal .file ['*'] recursive
  refine ⟨_, _, style.ofSpecifications?_eq ignoreCase included excluded,
    Walk.ofSpecification?_eq conventions .file ['*'] recursive, fun _ => rfl,
    fun cause => Selection.run_eq_error_iff serves seesAll, ?_⟩
  intro startLists
  refine ⟨_, Selection.run_served startLists serves seesAll, ?_, ?_, ?_⟩
  · intro directory
    exact Walk.names_ne_nil_of_unreadable startLists
  · rw [← conventions]
    exact Selection.forall₂_warning
  · intro other others fewer sameFlavor sameCase servesOther
    have conventionsOfOther : other.flavor = style.flavor := sameFlavor.trans conventions
    have sameWalk : style.walk other .file ['*'] recursive =
        { style.walk lister .file ['*'] recursive with lister := other } := by
      simp [PathStyle.walk, sameCase]
    have startListsInOther :
        (style.walk other .file ['*'] recursive).failureAt? others start = none := by
      rw [sameWalk]
      exact Walk.failureAt?_of_fewer fewer startLists
    refine ⟨_, _, Walk.ofSpecification?_eq conventionsOfOther .file ['*'] recursive,
      Selection.run_served startListsInOther servesOther
        (Walk.seesAll (legal.emptied _) .file ['*'] recursive), ?_⟩
    rw [sameWalk, Walk.paths_emptied fewer sameFlavor]

/-- An archive with nothing in the directory that was locked. -/
def archiveWithoutOld : Catalog where
  flavor := .posix
  ignoreCase := false
  entries := (archiveTree.emptied fun names =>
    names == ["old".toList]).catalogEntries .posix "/data/".toList
  failures := []

theorem selection_despite_failures_archive :
    ∃ selection walk selected walkOfOther selectedOfOther,
      Selection.ofSpecifications? .posix false ["*.txt".toList] [] = some selection ∧
      Walk.ofSpecification? (archive [oldLocked]).lister .file ['*'] true = some walk ∧
      selection.run walk "/data/".toList = .ok selected ∧
      selected.warnings = ["Skipping unreadable directory: /data/old ".toList ++
        "([Errno 13] Permission denied: '/data/old')".toList] ∧
      Walk.ofSpecification? archiveWithoutOld.lister .file ['*'] true = some walkOfOther ∧
      selection.run walkOfOther "/data/".toList = .ok selectedOfOther ∧
      selectedOfOther.paths = selected.paths := by
  have conventions : (archive [oldLocked]).lister.flavor = PathStyle.posix.flavor := rfl
  obtain ⟨selection, walk, made, walkMade, -, -, runs⟩ :=
    selection_despite_failures .posix conventions archiveTree_legal (archive_serves [oldLocked])
      true false ["*.txt".toList] []
  obtain rfl := Walk.eq_of_ofSpecification? conventions walkMade
  obtain ⟨selected, ran, -, warnings, agrees⟩ := runs (by decide +kernel)
  have unreadable :
      (PathStyle.posix.walk (archive [oldLocked]).lister .file ['*'] true).unreadable
          (archive [oldLocked]).listingFailures "/data/".toList archiveTree =
        [⟨["old".toList], ["b.txt".toList], ["deep".toList]⟩] := by
    decide +kernel
  rw [unreadable] at warnings agrees
  have warned : selected.warnings = ["Skipping unreadable directory: /data/old ".toList ++
      "([Errno 13] Permission denied: '/data/old')".toList] := by
    rcases List.forall₂_cons_left_iff.mp warnings with
      ⟨warning, others, ⟨cause, fails, text⟩, noOthers, whole⟩
    have place : TreeDirectory.path ⟨["old".toList], ["b.txt".toList], ["deep".toList]⟩
        PathStyle.posix.flavor "/data/".toList = "/data/old".toList := by decide +kernel
    have denied : (PathStyle.posix.walk (archive [oldLocked]).lister .file ['*'] true).failureAt?
        (archive [oldLocked]).listingFailures "/data/old".toList =
          some (.permissionDenied "/data/old".toList) := by decide +kernel
    have known := Option.some.inj (fails.symm.trans ((congrArg _ place).trans denied))
    subst known
    rw [place] at text
    simp only [whole, List.forall₂_nil_left_iff.mp noOthers, text]
    decide +kernel
  have same : (fun names => List.any
      [(⟨["old".toList], ["b.txt".toList], ["deep".toList]⟩ : TreeDirectory)] (·.names == names)) =
        fun names => names == ["old".toList] := by
    funext names
    rw [List.any_cons, List.any_nil, Bool.or_false, Bool.beq_comm]
  rw [same] at agrees
  obtain ⟨walkOfOther, selectedOfOther, madeOfOther, ranOfOther, samePaths⟩ :=
    agrees archiveWithoutOld.lister archiveWithoutOld.listingFailures (fun _ _ _ => rfl) rfl rfl
      (DirectoryTree.served_by_catalog (by decide) (archiveTree_legal.emptied _) (by decide)
        rfl rfl)
  exact ⟨selection, _, selected, walkOfOther, selectedOfOther, made, walkMade, ran,
    warned, madeOfOther, ranOfOther, samePaths⟩

end FileSpec
