import FileSpec.Proofs.Directory.LazyWalk
import FileSpec.Proofs.Directory.Selection

/-!
# Wanted names

Which directories a walk comes to, and what fails there, depends on the kind of the entries that are
wanted and not on their names. So the walk for a specification makes the calls of the walk for
everything, and what it finds is what that one finds, less the names that the specification does not
accept: `walk_filters_names`.
-/

set_option autoImplicit false

namespace FileSpec

/-- What a call lists, whatever it wants of it. -/
def ListingCall.subject (call : ListingCall) : EntryKind × Path :=
  (call.kind, call.directory)

namespace Walk

variable {style : PathStyle} {lister : Lister} {kind : EntryKind} {recursive : Bool}
  {failures : ListingFailures} {start : Path} {tree : DirectoryTree}

/-- The calls that fail are the same whatever is wanted. -/
theorem failureAt?_walk (style : PathStyle) (specification : List Char) :
    (style.walk lister kind specification recursive).failureAt? failures =
      (style.walk lister kind ['*'] recursive).failureAt? failures := rfl

theorem reached_walk (style : PathStyle) (specification : List Char) :
    (style.walk lister kind specification recursive).reached failures start tree =
      (style.walk lister kind ['*'] recursive).reached failures start tree := rfl

theorem failuresIn_walk (style : PathStyle) (specification : List Char) :
    (style.walk lister kind specification recursive).failuresIn failures start tree =
      (style.walk lister kind ['*'] recursive).failuresIn failures start tree := rfl

theorem map_subject_callsOn (walk : Walk) (failures : ListingFailures) (directory : Path) :
    (walk.callsOn failures directory).map ListingCall.subject =
      (walk.kind, directory) ::
        if walk.recursive && (failures walk.kind directory).isNone then [(.directory, directory)]
        else [] := by
  unfold callsOn
  split
  · rfl
  · rfl

section Legal

variable (legal : tree.HasLegalNames style.flavor) (specification : List Char)

include legal

theorem matching_eq_filter {directory : TreeDirectory} (member : directory ∈ tree.directories) :
    (style.walk lister kind specification recursive).matching directory =
      ((style.walk lister kind ['*'] recursive).matching directory).filter fun entry =>
        (style.matcher lister.ignoreCase specification).accepts entry.name := by
  rw [matching_everything legal member, List.filter_map]
  rfl

theorem entriesIn_eq_filter {directory : TreeDirectory} (member : directory ∈ tree.directories) :
    (style.walk lister kind specification recursive).entriesIn failures start directory =
      ((style.walk lister kind ['*'] recursive).entriesIn failures start directory).filter
        fun entry => (style.matcher lister.ignoreCase specification).accepts entry.name := by
  rw [entriesIn, failureAt?_walk, matching_eq_filter legal specification member, entriesIn]
  exact (apply_ite (List.filter _) _ [] _).symm

/-- Entries are filtered by their names. -/
theorem entries_eq_filter :
    (style.walk lister kind specification recursive).entries failures start tree =
      ((style.walk lister kind ['*'] recursive).entries failures start tree).filter fun entry =>
        (style.matcher lister.ignoreCase specification).accepts entry.name := by
  rw [entries, entries, reached_walk, List.filter_flatMap]
  apply List.flatMap_congr
  intro directory reached
  exact entriesIn_eq_filter legal specification (List.mem_of_mem_filter reached)

/-- Paths are filtered by the file names at their ends. -/
theorem paths_eq_filter (conventions : lister.flavor = style.flavor) (nonempty : start ≠ []) :
    (style.walk lister kind specification recursive).paths failures start tree =
      ((style.walk lister kind ['*'] recursive).paths failures start tree).filter fun path =>
        (style.matcher lister.ignoreCase specification).accepts (style.flavor.fileName path) := by
  have flavor : ∀ specification,
      (style.walk lister kind specification recursive).lister.flavor = style.flavor :=
    fun _ => conventions
  rw [paths, paths, flavor, flavor, entries_eq_filter legal specification, List.filter_map]
  congr 1
  apply List.filter_congr
  intro entry found
  obtain ⟨legalAbove, legalName⟩ := mem_entries_legal legal found
  rw [Function.comp_apply, TreeEntry.fileName_path nonempty legalAbove legalName]

end Legal

section Run

variable (legal : tree.HasLegalNames style.flavor) (serves : lister.Serves failures start tree)
  (specification : List Char)

include legal serves

theorem map_subject_calls {policy : FailurePolicy} (goesOn : policy ≠ .stop) :
    ((style.walk lister kind specification recursive).run policy none start).calls.map
        ListingCall.subject =
      ((style.walk lister kind ['*'] recursive).run policy none start).calls.map
        ListingCall.subject := by
  have calls : ∀ wanted,
      ((style.walk lister kind wanted recursive).run policy none start).calls = _ :=
    fun wanted => run_calls serves (seesAll legal kind wanted recursive) goesOn
  rw [calls, calls, reached_walk, List.map_flatMap, List.map_flatMap]
  apply List.flatMap_congr
  intro directory _
  rw [map_subject_callsOn, map_subject_callsOn]
  rfl

/-- Failures are reported, or written to the log, whatever is wanted. -/
theorem reported_and_log_walk (policy : FailurePolicy) (goesOn : policy ≠ .stop) :
    ((style.walk lister kind specification recursive).run policy none start).reported =
        ((style.walk lister kind ['*'] recursive).run policy none start).reported ∧
      ((style.walk lister kind specification recursive).run policy none start).log =
        ((style.walk lister kind ['*'] recursive).run policy none start).log := by
  have sees : ∀ wanted, (style.walk lister kind wanted recursive).SeesAll tree :=
    fun wanted => seesAll legal kind wanted recursive
  cases policy with
  | report =>
      refine ⟨?_, rfl⟩
      have reported : ∀ wanted,
          ((style.walk lister kind wanted recursive).run .report none start).reported = _ :=
        fun wanted => run_reported serves (sees wanted)
      rw [reported, reported, failuresIn_walk]
  | log =>
      refine ⟨rfl, ?_⟩
      have log : ∀ wanted,
          ((style.walk lister kind wanted recursive).run .log none start).log = _ :=
        fun wanted => run_log serves (sees wanted)
      rw [log, log, failuresIn_walk]
  | stop => exact absurd rfl goesOn

end Run

end Walk

/--
A walk for a specification finds what the walk for everything finds, in the same order, less the
entries whose names the specification does not accept. Both list the same directories for the same
kinds of entries and meet the same failures.
-/
theorem walk_filters_names (style : PathStyle) {lister : Lister} {failures : ListingFailures}
    {start : Path} {tree : DirectoryTree} (conventions : lister.flavor = style.flavor)
    (nonempty : start ≠ []) (legal : tree.HasLegalNames style.flavor)
    (serves : lister.Serves failures start tree) (kind : EntryKind) (specification : List Char)
    (recursive : Bool) :
    ∃ (walk everything : Walk) (matcher : Matcher),
      Walk.ofSpecification? lister kind specification recursive = some walk ∧
      Walk.ofSpecification? lister kind ['*'] recursive = some everything ∧
      lister.matcher? specification = some matcher ∧
      (∀ entry ∈ everything.entries failures start tree,
        style.flavor.fileName (entry.path style.flavor start) = entry.name) ∧
      ∀ policy, policy ≠ .stop →
        (everything.run policy none start).result =
          .ok ((everything.entries failures start tree).map
            (TreeEntry.path style.flavor start)) ∧
        (walk.run policy none start).result =
          .ok (((everything.entries failures start tree).map
            (TreeEntry.path style.flavor start)).filter fun path =>
              matcher.accepts (style.flavor.fileName path)) ∧
        (walk.run policy none start).reported = (everything.run policy none start).reported ∧
        (walk.run policy none start).log = (everything.run policy none start).log ∧
        (walk.run policy none start).calls.map ListingCall.subject =
          (everything.run policy none start).calls.map ListingCall.subject := by
  have found : ∀ wanted policy, policy ≠ .stop →
      ((style.walk lister kind wanted recursive).run policy none start).result = _ :=
    fun wanted policy goesOn =>
      Walk.run_result serves (Walk.seesAll legal kind wanted recursive) goesOn
  have flavor : (style.walk lister kind ['*'] recursive).lister.flavor = style.flavor :=
    conventions
  refine ⟨_, _, _, Walk.ofSpecification?_eq conventions kind specification recursive,
    Walk.ofSpecification?_eq conventions kind ['*'] recursive,
    Walk.matcher?_eq conventions specification, ?_, ?_⟩
  · intro entry inTree
    obtain ⟨legalAbove, legalName⟩ := Walk.mem_entries_legal legal inTree
    exact TreeEntry.fileName_path nonempty legalAbove legalName
  · intro policy goesOn
    obtain ⟨reported, log⟩ := Walk.reported_and_log_walk legal serves specification policy goesOn
    refine ⟨?_, ?_, reported, log, Walk.map_subject_calls legal serves specification goesOn⟩
    · rw [found _ _ goesOn, Walk.paths, flavor]
    · rw [found _ _ goesOn, Walk.paths_eq_filter legal specification conventions nonempty,
        Walk.paths, flavor]

theorem walk_filters_names_archive :
    ∃ walk everything : Walk,
      Walk.ofSpecification? (archive [oldLocked]).lister .directory "n*".toList true = some walk ∧
      Walk.ofSpecification? (archive [oldLocked]).lister .directory ['*'] true =
        some everything ∧
      (everything.run .report none "/data/".toList).result =
        .ok ["/data/old".toList, "/data/new".toList] ∧
      (walk.run .report none "/data/".toList).result = .ok ["/data/new".toList] ∧
      (walk.run .report none "/data/".toList).reported =
        (everything.run .report none "/data/".toList).reported := by
  have conventions : (archive [oldLocked]).lister.flavor = PathStyle.posix.flavor := rfl
  obtain ⟨walk, everything, matcher, made, madeOfAll, matcherMade, -, runs⟩ :=
    walk_filters_names .posix conventions (by decide) archiveTree_legal
      (archive_serves [oldLocked]) .directory "n*".toList true
  obtain ⟨all, wanted, reported, -⟩ := runs .report (by decide)
  obtain rfl := Walk.eq_of_ofSpecification? conventions madeOfAll
  have knownMatcher := Walk.matcher?_eq conventions "n*".toList
  obtain rfl := Option.some.inj (matcherMade.symm.trans knownMatcher)
  refine ⟨walk, _, made, madeOfAll, ?_, ?_, reported⟩
  · rw [all]
    simp only [PathStyle.walk, PathStyle.matcher_posix]
    decide +kernel
  · rw [wanted]
    simp only [PathStyle.walk, PathStyle.matcher_posix]
    decide +kernel

end FileSpec
