import FileSpec.Proofs.Directory.Walk

/-!
# What walks find

What a walk finds are the matching entries of the directories that it lists, which are those
without a failure in them or above them. So another failure takes away what is at or below its
directory and nothing else: `entries_of_more_failures`.
-/

set_option autoImplicit false

namespace FileSpec

namespace Walk

/-- Whether the walk comes to a directory and lists it. -/
def lists (walk : Walk) (failures : ListingFailures) (start : Path)
    (directory : TreeDirectory) : Bool :=
  walk.reaches failures start directory &&
    (walk.failureAt? failures (directory.path walk.lister.flavor start)).isNone

variable {walk : Walk} {failures : ListingFailures} {start : Path} {tree : DirectoryTree}

theorem lists_iff {directory : TreeDirectory} :
    walk.lists failures start directory = true ↔
      (walk.recursive = true ∨ directory.names = []) ∧ ∀ names, names <+: directory.names →
        walk.failureAt? failures (walk.lister.flavor.pathTo start names) = none := by
  simp only [lists, reaches, Bool.and_eq_true, Bool.or_eq_true, List.isEmpty_iff, List.all_eq_true,
    Option.isNone_iff_eq_none, TreeDirectory.mem_above_iff, and_imp]
  constructor
  · rintro ⟨⟨descends, above⟩, here⟩
    refine ⟨descends, fun names inFront => ?_⟩
    by_cases same : names = directory.names
    · rw [same]
      exact here
    · exact above names inFront same
  · rintro ⟨descends, all⟩
    exact ⟨⟨descends, fun names inFront _ => all names inFront⟩, all _ List.prefix_rfl⟩

theorem entries_eq :
    walk.entries failures start tree =
      (tree.directories.filter (walk.lists failures start)).flatMap walk.matching := by
  rw [entries, reached]
  induction tree.directories with
  | nil => rfl
  | cons directory others inductionHypothesis =>
      cases reached : walk.reaches failures start directory with
      | false => simpa [lists, reached] using inductionHypothesis
      | true =>
          cases failure : walk.failureAt? failures (directory.path walk.lister.flavor start) with
          | none => simp [lists, reached, failure, entriesIn, inductionHypothesis]
          | some error => simp [lists, reached, failure, entriesIn, inductionHypothesis]

theorem flatMap_matching_filter (keeps : List Path → Bool) (directories : List TreeDirectory) :
    (directories.filter fun directory => keeps directory.names).flatMap walk.matching =
      (directories.flatMap walk.matching).filter fun entry => keeps entry.above := by
  induction directories with
  | nil => rfl
  | cons directory others inductionHypothesis =>
      have here : (walk.matching directory).filter (fun entry => keeps entry.above) =
          if keeps directory.names then walk.matching directory else [] := by
        cases kept : keeps directory.names <;>
          simp [matching, List.filter_map, Function.comp_def, kept]
      cases kept : keeps directory.names with
      | false => simp [here, kept, inductionHypothesis]
      | true => simp [here, kept, inductionHypothesis]

theorem mem_entries {entry : TreeEntry} (found : entry ∈ walk.entries failures start tree) :
    ∃ directory ∈ tree.directories, entry.above = directory.names ∧
      entry.name ∈ directory.entries walk.kind := by
  rw [entries_eq] at found
  obtain ⟨directory, listed, matched⟩ := List.mem_flatMap.mp found
  obtain ⟨name, accepted, rfl⟩ := List.mem_map.mp matched
  exact ⟨directory, List.mem_of_mem_filter listed, rfl, List.mem_of_mem_filter accepted⟩

theorem mem_entries_legal {flavor : Flavor} (legal : tree.HasLegalNames flavor)
    {entry : TreeEntry} (found : entry ∈ walk.entries failures start tree) :
    (∀ name ∈ entry.above, flavor.IsLegalName name) ∧ flavor.IsLegalName entry.name := by
  obtain ⟨directory, member, above, inside⟩ := mem_entries found
  rw [above]
  exact ⟨legal.names_legal member, legal directory member walk.kind entry.name inside⟩

theorem nodup_entries (distinct : tree.HasDistinctNames) :
    (walk.entries failures start tree).Nodup := by
  have separate : (tree.directories.filter (walk.lists failures start)).Pairwise
      fun first second => first.names ≠ second.names :=
    (List.pairwise_map.mp distinct.nodup_names).sublist List.filter_sublist
  rw [entries_eq, List.nodup_flatMap]
  constructor
  · intro directory listed
    have names := distinct directory (List.mem_of_mem_filter listed) walk.kind
    exact (names.filter _).map fun first second same => (TreeEntry.mk.inj same).2
  · refine separate.imp fun different entry inFirst inSecond => ?_
    obtain ⟨_, _, rfl⟩ := List.mem_map.mp inFirst
    obtain ⟨_, _, same⟩ := List.mem_map.mp inSecond
    exact different (TreeEntry.mk.inj same).1.symm

theorem nodup_paths {style : PathStyle} (conventions : walk.lister.flavor = style.flavor)
    (nonempty : start ≠ []) (legal : tree.HasLegalNames style.flavor)
    (distinct : tree.HasDistinctNames) : (walk.paths failures start tree).Nodup := by
  refine (nodup_entries distinct).map_on fun first inTree second inTreeToo same => ?_
  obtain ⟨legalAbove, legalName⟩ := mem_entries_legal legal inTree
  obtain ⟨legalAboveOther, legalOther⟩ := mem_entries_legal legal inTreeToo
  rw [conventions] at same
  obtain ⟨sameAbove, sameName⟩ :=
    style.join_pathTo_inj nonempty legalAbove legalAboveOther legalName legalOther same
  exact TreeEntry.ext sameAbove sameName

section Failures

variable {directory : TreeDirectory} (member : directory ∈ tree.directories)
  {more : ListingFailures}
  (fails : (walk.failureAt? more (directory.path walk.lister.flavor start)).isSome = true)
  (others : ∀ other ∈ tree.directories, other.names ≠ directory.names → ∀ kind,
    more kind (other.path walk.lister.flavor start) =
      failures kind (other.path walk.lister.flavor start))

include fails others

theorem lists_of_more_failures {other : TreeDirectory} (inTree : other ∈ tree.directories) :
    walk.lists more start other =
      (walk.lists failures start other && !directory.names.isPrefixOf other.names) := by
  -- The directories above another one are in the tree, so the failures there are the same.
  have elsewhere : ∀ names, names <+: other.names → names ≠ directory.names →
      walk.failureAt? more (walk.lister.flavor.pathTo start names) =
        walk.failureAt? failures (walk.lister.flavor.pathTo start names) := by
    intro names inFront different
    obtain ⟨above, aboveInTree, rfl⟩ := DirectoryTree.exists_of_isPrefix inTree inFront
    have same := others above aboveInTree different
    simp only [TreeDirectory.path] at same
    simp only [failureAt?, same]
  rw [Bool.eq_iff_iff, Bool.and_eq_true, lists_iff, lists_iff, Bool.not_eq_true',
    ← Bool.not_eq_true, List.isPrefixOf_iff_prefix]
  constructor
  · rintro ⟨descends, all⟩
    have notBelow : ¬ directory.names <+: other.names := by
      intro below
      have none := all _ below
      rw [TreeDirectory.path, none] at fails
      simp at fails
    refine ⟨⟨descends, fun names inFront => ?_⟩, notBelow⟩
    rw [← elsewhere names inFront fun same => notBelow (same ▸ inFront)]
    exact all names inFront
  · rintro ⟨⟨descends, all⟩, notBelow⟩
    refine ⟨descends, fun names inFront => ?_⟩
    rw [elsewhere names inFront fun same => notBelow (same ▸ inFront)]
    exact all names inFront

/-- Another failure takes away what is found at or below its directory. -/
theorem entries_of_more_failures :
    walk.entries more start tree =
      (walk.entries failures start tree).filter fun entry =>
        !directory.names.isPrefixOf entry.above := by
  have listed : tree.directories.filter (walk.lists more start) =
      (tree.directories.filter (walk.lists failures start)).filter fun other =>
        !directory.names.isPrefixOf other.names := by
    rw [List.filter_filter]
    refine List.filter_congr fun other inTree => ?_
    rw [lists_of_more_failures fails others inTree,
      Bool.and_comm]
  rw [entries_eq, entries_eq, listed]
  exact flatMap_matching_filter (fun names => !directory.names.isPrefixOf names) _

include member in
/-- The paths that another failure takes away begin with that of its directory. -/
theorem paths_of_more_failures {style : PathStyle} (conventions : walk.lister.flavor = style.flavor)
    (nonempty : start ≠ []) (legal : tree.HasLegalNames style.flavor) :
    walk.paths more start tree =
      (walk.paths failures start tree).filter fun path =>
        !(walk.lister.flavor.addSuffix
          (directory.path walk.lister.flavor start)).isPrefixOf path := by
  rw [paths, entries_of_more_failures fails others, paths, List.filter_map]
  congr 1
  refine List.filter_congr fun entry found => ?_
  obtain ⟨legalAbove, legalName⟩ := mem_entries_legal legal found
  have begins := style.addSuffix_isPrefix_join_iff nonempty (legal.names_legal member) legalAbove
    legalName
  rw [Function.comp_apply, Bool.not_inj_iff, Bool.eq_iff_iff, List.isPrefixOf_iff_prefix,
    List.isPrefixOf_iff_prefix, conventions]
  exact begins.symm

end Failures

section Served

variable (serves : walk.lister.Serves failures start tree) (seesAll : walk.SeesAll tree)

include serves seesAll

theorem run_result {policy : FailurePolicy} (goesOn : policy ≠ .stop) :
    (walk.run policy none start).result = .ok (walk.paths failures start tree) := by
  cases policy with
  | report => simp [run, found_served serves seesAll]
  | log => simp [run, found_served serves seesAll]
  | stop => exact absurd rfl goesOn

theorem run_reported :
    (walk.run .report none start).reported = walk.failuresIn failures start tree := by
  simp [run, failures_served serves seesAll]

theorem run_log :
    (walk.run .log none start).log =
      (walk.failuresIn failures start tree).map fun failure =>
        "WARNING: ".toList ++ failure.message := by
  simp [run, failures_served serves seesAll]

end Served

theorem paths_of_lister {other : Lister} (same : other.flavor = walk.lister.flavor) :
    { walk with lister := other }.paths failures start tree = walk.paths failures start tree := by
  have sameLists : ({ walk with lister := other } : Walk).lists failures start =
      walk.lists failures start := by
    funext directory
    simp [lists, reaches, failureAt?, same]
  rw [paths, paths, entries_eq, entries_eq, sameLists, same]
  rfl

theorem map_directory_failuresIn :
    (walk.failuresIn failures start tree).map WalkFailure.directory =
      ((walk.reached failures start tree).filter fun directory =>
        (walk.failureAt? failures (directory.path walk.lister.flavor start)).isSome).map
          (TreeDirectory.path · walk.lister.flavor start) := by
  rw [failuresIn]
  induction walk.reached failures start tree with
  | nil => rfl
  | cons directory others inductionHypothesis =>
      cases failure : walk.failureAt? failures (directory.path walk.lister.flavor start) <;>
        simp [failure, inductionHypothesis]

theorem nodup_failuresIn {style : PathStyle} (conventions : walk.lister.flavor = style.flavor)
    (nonempty : start ≠ []) (legal : tree.HasLegalNames style.flavor)
    (distinct : tree.HasDistinctNames) :
    ((walk.failuresIn failures start tree).map WalkFailure.directory).Nodup := by
  have separate := DirectoryTree.nodup_paths nonempty legal distinct
  rw [map_directory_failuresIn, conventions]
  exact separate.sublist ((List.filter_sublist.trans List.filter_sublist).map _)

end Walk

end FileSpec
