import FileSpec.Directory.Selection
import FileSpec.Proofs.Directory.FileWalk

/-!
# Selections

A selection cuts the start and its separator off a path, and what is left are the names below the
start with separators between them: `drop_path`. So it compares each specification with the name
of a file or with these names, and keeps those of the files of a walk that are accepted.
-/

set_option autoImplicit false

namespace FileSpec

namespace TreeEntry

/-- The names that lead from the start to an entry, with separators between them. -/
def relative (flavor : Flavor) (entry : TreeEntry) : Path :=
  [flavor.separator].intercalate (entry.above ++ [entry.name])

/-- A specification without a separator is compared with the name of an entry only. -/
def comparedWith (flavor : Flavor) (entry : TreeEntry) (specification : List Char) : Path :=
  if specification.any flavor.isSeparator then entry.relative flavor else entry.name

def isAcceptedBy (flavor : Flavor) (ignoreCase : Bool) (entry : TreeEntry)
    (specification : List Char) : Bool :=
  matchesAny? flavor ignoreCase (entry.comparedWith flavor specification) [specification] ==
    some true

def isSelectedBy (flavor : Flavor) (ignoreCase : Bool) (included excluded : List (List Char))
    (entry : TreeEntry) : Bool :=
  included.any (entry.isAcceptedBy flavor ignoreCase) &&
    !excluded.any (entry.isAcceptedBy flavor ignoreCase)

variable {style : PathStyle} {start : Path} {entry : TreeEntry} (nonempty : start ≠ [])
  (legalAbove : ∀ name ∈ entry.above, style.flavor.IsLegalName name)
  (legal : style.flavor.IsLegalName entry.name)

include nonempty legalAbove legal

theorem path_eq : entry.path style.flavor start =
    style.flavor.addSuffix start ++ entry.relative style.flavor := by
  rw [path, style.join_pathTo nonempty legalAbove legal, relative,
    Flavor.separated_append_eq_intercalate]

theorem drop_path :
    (entry.path style.flavor start).drop (style.flavor.addSuffix start).length =
      entry.relative style.flavor := by
  rw [path_eq nonempty legalAbove legal, List.drop_left]

omit nonempty legalAbove in
theorem fileName_relative : style.flavor.fileName (entry.relative style.flavor) = entry.name := by
  rw [relative, ← Flavor.separated_append_eq_intercalate, style.fileName_separated_append _ legal]

theorem fileName_path : style.flavor.fileName (entry.path style.flavor start) = entry.name :=
  style.fileName_join (style.pathTo_ne_nil nonempty legalAbove) legal

end TreeEntry

namespace PathStyle

variable (style : PathStyle) (ignoreCase : Bool)

def specificationSet (specifications : List (List Char)) : SpecificationSet where
  names := (specifications.filter fun specification =>
    !specification.any style.flavor.isSeparator).map (style.matcher ignoreCase)
  paths := (specifications.filter fun specification =>
    specification.any style.flavor.isSeparator).map (style.matcher ignoreCase)

def selection (included excluded : List (List Char)) : Selection where
  flavor := style.flavor
  included := style.specificationSet ignoreCase included
  excluded := style.specificationSet ignoreCase excluded

theorem ofSpecifications?_eq (included excluded : List (List Char)) :
    Selection.ofSpecifications? style.flavor ignoreCase included excluded =
      some (style.selection ignoreCase included excluded) := by
  simp [Selection.ofSpecifications?, SpecificationSet.ofSpecifications?,
    style.mapM_ofSpecification?, selection, specificationSet]

theorem isAcceptedBy_eq : TreeEntry.isAcceptedBy style.flavor ignoreCase =
    fun entry specification => acceptedByAny [style.matcher ignoreCase specification]
      (entry.comparedWith style.flavor specification) := by
  funext entry specification
  simp [TreeEntry.isAcceptedBy, style.matchesAny?_eq]

theorem specificationSet_accepts (specifications : List (List Char)) (entry : TreeEntry) :
    (style.specificationSet ignoreCase specifications).accepts entry.name
        (entry.relative style.flavor) =
      specifications.any (entry.isAcceptedBy style.flavor ignoreCase) := by
  rw [SpecificationSet.accepts, specificationSet, style.acceptedByAny_eq, style.acceptedByAny_eq]
  induction specifications with
  | nil => rfl
  | cons specification others inductionHypothesis =>
      rw [List.any_cons, ← inductionHypothesis, TreeEntry.isAcceptedBy, TreeEntry.comparedWith]
      cases mixed : specification.any style.flavor.isSeparator with
      | false => simp [mixed, Bool.or_assoc]
      | true => simp [mixed, Bool.or_left_comm]

variable {start : Path} {entry : TreeEntry}

theorem selection_selects (nonempty : start ≠ [])
    (legalAbove : ∀ name ∈ entry.above, style.flavor.IsLegalName name)
    (legal : style.flavor.IsLegalName entry.name) (included excluded : List (List Char)) :
    (style.selection ignoreCase included excluded).selects start
        (entry.path style.flavor start) =
      entry.isSelectedBy style.flavor ignoreCase included excluded := by
  have name := TreeEntry.fileName_relative legal
  simp only [Selection.selects, selection, TreeEntry.drop_path nonempty legalAbove legal, name,
    specificationSet_accepts, TreeEntry.isSelectedBy]

end PathStyle

namespace Walk

variable {walk : Walk} {failures : ListingFailures} {start : Path} {tree : DirectoryTree}

theorem failureAt?_start {style : PathStyle} {lister : Lister} {specification : List Char}
    {recursive : Bool} (filesListed : failures .file start = none)
    (subdirectoriesListed : recursive = true → failures .directory start = none) :
    (style.walk lister .file specification recursive).failureAt? failures start = none := by
  cases recursive with
  | false => simp [failureAt?, PathStyle.walk, filesListed]
  | true => simp [failureAt?, PathStyle.walk, filesListed, subdirectoriesListed rfl]

theorem failureAt?_of_mem_failuresIn {failure : WalkFailure}
    (met : failure ∈ walk.failuresIn failures start tree) :
    walk.failureAt? failures failure.directory = some failure.cause := by
  obtain ⟨directory, _, failed⟩ := List.mem_filterMap.mp met
  obtain ⟨error, fails, rfl⟩ := Option.map_eq_some_iff.mp failed
  exact fails

/-- A walk whose start can be listed is not ended by a failure of the start. -/
theorem visit_goesOn (startLists : walk.failureAt? failures start = none)
    (serves : walk.lister.Serves failures start tree) :
    ∀ directory ∈ walk.reached failures start tree,
      (walk.visit (directory.path walk.lister.flavor start)).failure?.any
        (·.directory == start) = false := by
  intro directory reached
  rw [visit_failure? (serves.answers directory (List.mem_of_mem_filter reached))]
  cases fails : walk.failureAt? failures (directory.path walk.lister.flavor start) with
  | none => rfl
  | some error =>
      simp only [Option.map_some, Option.any_some, beq_eq_false_iff_ne]
      intro same
      rw [same, startLists] at fails
      cases fails

end Walk

theorem Selection.run_served {selection : Selection} {walk : Walk} {failures : ListingFailures}
    {start : Path} {tree : DirectoryTree} (startLists : walk.failureAt? failures start = none)
    (serves : walk.lister.Serves failures start tree) (seesAll : walk.SeesAll tree) :
    selection.run walk start =
      .ok ⟨(walk.paths failures start tree).filter (selection.selects start),
        (walk.failuresIn failures start tree).map warning⟩ := by
  have goesOn := Walk.visit_goesOn startLists serves
  have found : (visits walk start).flatMap Visit.found = walk.paths failures start tree :=
    Walk.found_served serves seesAll goesOn
  have met : (visits walk start).filterMap Visit.failure? = walk.failuresIn failures start tree :=
    Walk.failures_served serves seesAll goesOn
  -- A failure under the path of the start would be one of the start.
  have noneOfStart :
      (walk.failuresIn failures start tree).find? (·.directory == start) = none := by
    rw [List.find?_eq_none]
    intro failure inTree same
    have fails := Walk.failureAt?_of_mem_failuresIn inTree
    rw [beq_iff_eq.mp same, startLists] at fails
    cases fails
  simp only [run, found, met, noneOfStart]

/--
A selection below a start that can be listed keeps, in their order, those files of the walk that
an included specification accepts and no excluded one does. A specification is compared with the
name of a file or, if it has a separator, with the names below the start.
-/
theorem selection_through_tree (style : PathStyle) {lister : Lister} {failures : ListingFailures}
    {start : Path} {tree : DirectoryTree} (conventions : lister.flavor = style.flavor)
    (nonempty : start ≠ []) (legal : tree.HasLegalNames style.flavor)
    (distinct : tree.HasDistinctNames) (serves : lister.Serves failures start tree)
    (recursive : Bool) (filesListed : failures .file start = none)
    (subdirectoriesListed : recursive = true → failures .directory start = none)
    (ignoreCase : Bool) (included excluded : List (List Char)) :
    ∃ selection walk selected,
      Selection.ofSpecifications? style.flavor ignoreCase included excluded = some selection ∧
      Walk.ofSpecification? lister .file ['*'] recursive = some walk ∧
      (walk.lister = lister ∧ walk.kind = .file ∧ walk.recursive = recursive) ∧
      walk.entries failures start tree =
        (walk.reached failures start tree).flatMap (fun directory =>
          if (walk.failureAt? failures (directory.path style.flavor start)).isSome then []
          else directory.files.map (TreeEntry.mk directory.names)) ∧
      (walk.run .report none start).result =
        .ok ((walk.entries failures start tree).map (TreeEntry.path style.flavor start)) ∧
      selection.run walk start = .ok selected ∧
      selected.paths = ((walk.entries failures start tree).filter
        (TreeEntry.isSelectedBy style.flavor ignoreCase included excluded)).map
          (TreeEntry.path style.flavor start) ∧
      selected.paths.Nodup ∧
      (∀ path ∈ selected.paths, style.flavor.addSuffix start <+: path) ∧
      ∀ entry ∈ walk.entries failures start tree,
        (entry.path style.flavor start).drop (style.flavor.addSuffix start).length =
          entry.relative style.flavor := by
  have flavor : (style.walk lister .file ['*'] recursive).lister.flavor = style.flavor :=
    conventions
  have seesAll : (style.walk lister .file ['*'] recursive).SeesAll tree :=
    Walk.seesAll legal .file ['*'] recursive
  have startLists : (style.walk lister .file ['*'] recursive).failureAt? failures start = none :=
    Walk.failureAt?_start filesListed subdirectoriesListed
  have ran : (style.selection ignoreCase included excluded).run _ start = _ :=
    Selection.run_served startLists serves seesAll
  have kept : ((style.walk lister .file ['*'] recursive).paths failures start tree).filter
      ((style.selection ignoreCase included excluded).selects start) =
        (((style.walk lister .file ['*'] recursive).entries failures start tree).filter
          (TreeEntry.isSelectedBy style.flavor ignoreCase included excluded)).map
            (TreeEntry.path style.flavor start) := by
    rw [Walk.paths, flavor, List.filter_map]
    congr 1
    refine List.filter_congr fun entry found => ?_
    obtain ⟨legalAbove, legalName⟩ := Walk.mem_entries_legal legal found
    exact style.selection_selects ignoreCase nonempty legalAbove legalName included excluded
  refine ⟨_, _, _, style.ofSpecifications?_eq ignoreCase included excluded,
    Walk.ofSpecification?_eq conventions .file ['*'] recursive, ⟨rfl, rfl, rfl⟩, ?_, ?_, ran, kept,
    ?_, ?_, ?_⟩
  · refine List.flatMap_congr fun directory reached => ?_
    rw [Walk.entriesIn, flavor, Walk.matching_everything legal (List.mem_of_mem_filter reached)]
    rfl
  · rw [← conventions]
    exact Walk.run_result serves seesAll (by decide)
  · exact (Walk.nodup_paths conventions nonempty legal distinct).filter _
  · intro path selected
    rw [kept] at selected
    obtain ⟨entry, found, rfl⟩ := List.mem_map.mp selected
    obtain ⟨legalAbove, legalName⟩ := Walk.mem_entries_legal legal (List.mem_of_mem_filter found)
    rw [TreeEntry.path_eq nonempty legalAbove legalName]
    exact List.prefix_append _ _
  · intro entry found
    obtain ⟨legalAbove, legalName⟩ := Walk.mem_entries_legal legal found
    exact TreeEntry.drop_path nonempty legalAbove legalName

theorem selection_through_archive :
    ∃ selection walk selected,
      Selection.ofSpecifications? .posix false ["*.txt".toList, "new/*".toList] ["a*".toList] =
        some selection ∧
      Walk.ofSpecification? (archive [oldLocked]).lister .file ['*'] true = some walk ∧
      selection.run walk "/data/".toList = .ok selected ∧
      selected.paths = ["/data/new/d.txt".toList] := by
  obtain ⟨selection, walk, selected, made, walkMade, -, -, -, ran, paths, -⟩ :=
    selection_through_tree .posix rfl (by decide) archiveTree_legal (by decide)
      (archive_serves [oldLocked]) true (by decide +kernel) (fun _ => by decide +kernel) false
      ["*.txt".toList, "new/*".toList] ["a*".toList]
  have conventions : (archive [oldLocked]).lister.flavor = PathStyle.posix.flavor := rfl
  obtain rfl := Walk.eq_of_ofSpecification? conventions walkMade
  refine ⟨selection, _, selected, made, walkMade, ran, ?_⟩
  rw [paths]
  unfold TreeEntry.isSelectedBy
  simp only [PathStyle.isAcceptedBy_eq, PathStyle.walk, PathStyle.matcher_posix]
  decide +kernel

end FileSpec
