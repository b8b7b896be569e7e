import FileSpec.Proofs.Directory.Catalog
import FileSpec.Proofs.Directory.Found

/-!
# Walks for files

By a built-in flavor every specification makes a walk, and its asterisk sees every directory of a
tree. So a walk ends with the matching files of the directories that it lists, in their order.
-/

set_option autoImplicit false

namespace FileSpec

def PathStyle.walk (style : PathStyle) (lister : Lister) (kind : EntryKind)
    (specification : List Char) (recursive : Bool) : Walk where
  lister := lister
  kind := kind
  wanted := style.matcher lister.ignoreCase specification
  everything := style.matcher lister.ignoreCase ['*']
  recursive := recursive

namespace Walk

variable {style : PathStyle} {lister : Lister} (conventions : lister.flavor = style.flavor)

include conventions

theorem matcher?_eq (specification : List Char) :
    lister.matcher? specification = some (style.matcher lister.ignoreCase specification) := by
  rw [Lister.matcher?, conventions, style.ofSpecification?_eq]

theorem ofSpecification?_eq (kind : EntryKind) (specification : List Char) (recursive : Bool) :
    ofSpecification? lister kind specification recursive =
      some (style.walk lister kind specification recursive) := by
  simp [ofSpecification?, matcher?_eq conventions, PathStyle.walk]

theorem eq_of_ofSpecification? {kind : EntryKind} {specification : List Char} {recursive : Bool}
    {walk : Walk} (made : ofSpecification? lister kind specification recursive = some walk) :
    walk = style.walk lister kind specification recursive :=
  Option.some.inj (made.symm.trans (ofSpecification?_eq conventions kind specification recursive))

omit conventions in
theorem matching_everything {tree : DirectoryTree} (legal : tree.HasLegalNames style.flavor)
    {directory : TreeDirectory} (member : directory ∈ tree.directories) (kind : EntryKind)
    (recursive : Bool) :
    (style.walk lister kind ['*'] recursive).matching directory =
      (directory.entries kind).map (TreeEntry.mk directory.names) := by
  have all : (directory.entries kind).filter (style.matcher lister.ignoreCase ['*']).accepts =
      directory.entries kind := by
    rw [List.filter_eq_self]
    intro name inside
    exact style.everything_accepts lister.ignoreCase (legal directory member kind name inside)
  exact congrArg _ all

omit conventions in
theorem seesAll {tree : DirectoryTree} (legal : tree.HasLegalNames style.flavor)
    (kind : EntryKind) (specification : List Char) (recursive : Bool) :
    (style.walk lister kind specification recursive).SeesAll tree := by
  intro directory member name inside
  exact style.everything_accepts lister.ignoreCase (legal directory member .directory name inside)

end Walk

/--
A walk for files through a tree ends with the matching files of the directories that it lists, in
their order, and meets each failure once, whether it is reported or written to the log. If one
more directory fails, the files whose paths begin with its path are gone and no others.
-/
theorem fileWalk_through_tree (style : PathStyle) {lister : Lister} {failures : ListingFailures}
    {start : Path} {tree : DirectoryTree} (conventions : lister.flavor = style.flavor)
    (nonempty : start ≠ []) (legal : tree.HasLegalNames style.flavor)
    (serves : lister.Serves failures start tree) (specification : List Char)
    (recursive : Bool) :
    ∃ walk : Walk,
      Walk.ofSpecification? lister .file specification recursive = some walk ∧
      (walk.lister = lister ∧ walk.kind = .file ∧ walk.recursive = recursive ∧
        lister.matcher? specification = some walk.wanted) ∧
      (∀ depth, tree.IsWithin depth → walk.visits depth start =
        (walk.reached failures start tree).map fun directory =>
          walk.visit (directory.path lister.flavor start)) ∧
      (walk.run .report none start).result = .ok (walk.paths failures start tree) ∧
      (walk.run .log none start).result = .ok (walk.paths failures start tree) ∧
      (walk.run .report none start).reported = walk.failuresIn failures start tree ∧
      (walk.run .log none start).log = (walk.failuresIn failures start tree).map (fun failure =>
        "WARNING: ".toList ++ failure.message) ∧
      (tree.HasDistinctNames →
        ((walk.failuresIn failures start tree).map WalkFailure.directory).Nodup) ∧
      ∀ directory ∈ tree.directories, ∀ (more : ListingFailures) (other : Lister),
        (walk.failureAt? more (directory.path lister.flavor start)).isSome = true →
        (∀ another ∈ tree.directories, another.names ≠ directory.names → ∀ kind,
          more kind (another.path lister.flavor start) =
            failures kind (another.path lister.flavor start)) →
        other.flavor = lister.flavor → other.ignoreCase = lister.ignoreCase →
        other.Serves more start tree →
        ∃ walkOfOther : Walk,
          Walk.ofSpecification? other .file specification recursive = some walkOfOther ∧
          (walkOfOther.run .report none start).result =
            .ok ((walk.paths failures start tree).filter fun path =>
              !(lister.flavor.addSuffix (directory.path lister.flavor start)).isPrefixOf path) := by
  have seesAll : (style.walk lister .file specification recursive).SeesAll tree :=
    Walk.seesAll legal .file specification recursive
  refine ⟨style.walk lister .file specification recursive,
    Walk.ofSpecification?_eq conventions .file specification recursive,
    ⟨rfl, rfl, rfl, Walk.matcher?_eq conventions specification⟩,
    fun depth within => Walk.visits_eq serves.answers within seesAll,
    Walk.run_result serves seesAll (by decide), Walk.run_result serves seesAll (by decide),
    Walk.run_reported serves seesAll, Walk.run_log serves seesAll,
    Walk.nodup_failuresIn conventions nonempty legal, ?_⟩
  intro directory member more other fails others sameFlavor sameCase servesMore
  -- The walk by the other lister looks for the same, so it differs in its failures only.
  have conventionsOfOther : other.flavor = style.flavor := sameFlavor.trans conventions
  refine ⟨_, Walk.ofSpecification?_eq conventionsOfOther .file specification recursive, ?_⟩
  have seesAllOfOther : (style.walk other .file specification recursive).SeesAll tree :=
    Walk.seesAll legal .file specification recursive
  have sameWalk : style.walk other .file specification recursive =
      { style.walk lister .file specification recursive with lister := other } := by
    simp [PathStyle.walk, sameCase]
  rw [Walk.run_result servesMore seesAllOfOther (by decide), sameWalk,
    Walk.paths_of_lister sameFlavor,
    Walk.paths_of_more_failures member fails others conventions nonempty legal]
  rfl

def archiveTree : DirectoryTree :=
  .node ["a.txt".toList, "n.md".toList] ["old".toList, "new".toList] fun name =>
    if name = "old".toList then
      .node ["b.txt".toList] ["deep".toList] fun _ => .leaf ["c.txt".toList]
    else .leaf ["d.txt".toList]

def archive (failures : List CatalogFailure) : Catalog where
  flavor := .posix
  ignoreCase := false
  entries := archiveTree.catalogEntries .posix "/data/".toList
  failures := failures

/-- The files of a directory can be listed, but not the directories in it. -/
def oldLocked : CatalogFailure where
  directory := "/data/old".toList
  kind? := some .directory
  code := 13
  text := "Permission denied".toList

def newLocked : CatalogFailure where
  directory := "/data/new".toList
  kind? := none
  code := 13
  text := "Permission denied".toList

theorem archiveTree_legal : archiveTree.HasLegalNames PathStyle.posix.flavor := by decide

theorem archive_serves (failures : List CatalogFailure) :
    (archive failures).lister.Serves (archive failures).listingFailures "/data/".toList
      archiveTree :=
  DirectoryTree.served_by_catalog (by decide) archiveTree_legal (by decide) rfl rfl

theorem paths_archive :
    (PathStyle.posix.walk (archive [oldLocked]).lister .file "*.txt".toList true).paths
      (archive [oldLocked]).listingFailures "/data/".toList archiveTree =
        ["/data/a.txt".toList, "/data/new/d.txt".toList] := by
  simp only [PathStyle.walk, PathStyle.matcher_posix]
  decide +kernel

theorem fileWalk_through_archive :
    ∃ walk walkOfOther : Walk,
      Walk.ofSpecification? (archive [oldLocked]).lister .file "*.txt".toList true = some walk ∧
      (walk.run .report none "/data/".toList).result =
        .ok ["/data/a.txt".toList, "/data/new/d.txt".toList] ∧
      (walk.run .report none "/data/".toList).reported =
        [⟨"/data/old".toList, .permissionDenied "/data/old".toList⟩] ∧
      Walk.ofSpecification? (archive [oldLocked, newLocked]).lister .file "*.txt".toList true =
        some walkOfOther ∧
      (walkOfOther.run .report none "/data/".toList).result = .ok ["/data/a.txt".toList] := by
  obtain ⟨walk, made, -, -, result, -, reported, -, -, frame⟩ :=
    fileWalk_through_tree .posix rfl (by decide) archiveTree_legal (archive_serves [oldLocked])
      "*.txt".toList true
  have conventions : (archive [oldLocked]).lister.flavor = PathStyle.posix.flavor := rfl
  obtain rfl := Walk.eq_of_ofSpecification? conventions made
  have inTree : ⟨["new".toList], ["d.txt".toList], []⟩ ∈ archiveTree.directories :=
    List.mem_of_getLast? rfl
  have elsewhere : ∀ directory ∈ archiveTree.directories, directory.names ≠ ["new".toList] →
      ∀ kind, (archive [oldLocked, newLocked]).listingFailures kind
          (directory.path .posix "/data/".toList) =
        (archive [oldLocked]).listingFailures kind (directory.path .posix "/data/".toList) := by
    simp only [EntryKind.forall]
    decide +kernel
  obtain ⟨walkOfOther, madeOther, resultOfOther⟩ :=
    frame _ inTree _ (archive [oldLocked, newLocked]).lister (by decide +kernel) elsewhere rfl rfl
      (archive_serves [oldLocked, newLocked])
  refine ⟨_, walkOfOther, made, ?_, ?_, madeOther, ?_⟩
  · rw [result, paths_archive]
  · rw [reported]
    decide +kernel
  · rw [resultOfOther, paths_archive]
    decide +kernel

end FileSpec
