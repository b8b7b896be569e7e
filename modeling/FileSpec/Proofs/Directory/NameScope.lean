import FileSpec.Proofs.Directory.Selection
import FileSpec.Proofs.Path.Validity
import FileSpec.Proofs.Pattern.AnyDirectories

/-!
# The scope of a name

A specification without a separator is compared with the name of a file, and so it selects the
files that it selects behind any directories. Only a blank name is accepted by nothing, while the
path to a file with such a name need not be blank.
-/

set_option autoImplicit false

namespace FileSpec

open Text

namespace TreeEntry

variable {style : PathStyle} {entry : TreeEntry} {specification : List Char}

theorem isBlank_name_of_relative {flavor : Flavor}
    (blank : isBlank (entry.relative flavor) = true) : isBlank entry.name = true := by
  rw [relative, ← Flavor.separated_append_eq_intercalate] at blank
  exact isBlank_of_subset (List.subset_append_right _ _) blank

@[simp]
theorem comparedWith_of_plain {flavor : Flavor}
    (plain : specification.any flavor.isSeparator = false) :
    entry.comparedWith flavor specification = entry.name := by
  simp [comparedWith, plain]

theorem comparedWith_inAnyDirectory (flavor : Flavor) :
    entry.comparedWith flavor (inAnyDirectory flavor specification) = entry.relative flavor := by
  have hasSeparator : (inAnyDirectory flavor specification).any flavor.isSeparator = true := by
    simp [inAnyDirectory]
  simp [comparedWith, hasSeparator]

theorem not_isBlank_of_isAcceptedBy {ignoreCase : Bool}
    (accepted : entry.isAcceptedBy style.flavor ignoreCase specification = true) :
    isBlank (entry.comparedWith style.flavor specification) = false := by
  simp only [style.isAcceptedBy_eq, acceptedByAny, Bool.and_eq_true] at accepted
  simpa using accepted.1

/-- In the start directory itself a file with a blank name has a blank path as well. -/
theorem not_isBlank_name {ignoreCase : Bool}
    (visible : entry.above ≠ [] → isBlank entry.name = false)
    (accepted : entry.isAcceptedBy style.flavor ignoreCase
      (inAnyDirectory style.flavor specification) = true) :
    isBlank entry.name = false := by
  by_cases top : entry.above = []
  · have notBlank := not_isBlank_of_isAcceptedBy accepted
    rw [comparedWith_inAnyDirectory, relative, top] at notBlank
    simpa using notBlank
  · exact visible top

theorem isAcceptedBy_of_plain (ignoreCase : Bool)
    (plain : specification.any style.flavor.isSeparator = false)
    (legalAbove : ∀ name ∈ entry.above, style.flavor.IsLegalName name)
    (legal : style.flavor.IsLegalName entry.name) :
    entry.isAcceptedBy style.flavor ignoreCase specification =
      (entry.isAcceptedBy style.flavor ignoreCase (inAnyDirectory style.flavor specification) &&
        !isBlank entry.name) := by
  have noSeparator : ∀ character ∈ specification, style.flavor.isSeparator character = false := by
    simpa using plain
  have sameAnswer :=
    style.accepts_inAnyDirectory_separated ignoreCase legalAbove legal noSeparator
  rw [Flavor.separated_append_eq_intercalate, ← relative] at sameAnswer
  simp only [style.isAcceptedBy_eq, comparedWith_of_plain plain, comparedWith_inAnyDirectory,
    acceptedByAny, List.any_cons, List.any_nil, Bool.or_false, sameAnswer]
  cases blankName : isBlank entry.name with
  | true => simp
  | false =>
      have visible : isBlank (entry.relative style.flavor) = false := by
        rw [← Bool.not_eq_true] at blankName ⊢
        exact mt isBlank_name_of_relative blankName
      simp [visible]

end TreeEntry

variable {style : PathStyle} {specification : List Char}

/-- A selection by a name keeps what it keeps behind any directories, less the blank names. -/
theorem PathStyle.selection_selects_of_plain (ignoreCase : Bool) {start : Path}
    {entry : TreeEntry} (nonempty : start ≠ [])
    (plain : specification.any style.flavor.isSeparator = false)
    (legalAbove : ∀ name ∈ entry.above, style.flavor.IsLegalName name)
    (legal : style.flavor.IsLegalName entry.name) (excluded : List (List Char)) :
    (style.selection ignoreCase [specification] excluded).selects start
        (entry.path style.flavor start) =
      ((style.selection ignoreCase [inAnyDirectory style.flavor specification] excluded).selects
          start (entry.path style.flavor start) &&
        !isBlank (style.flavor.fileName (entry.path style.flavor start))) := by
  rw [style.selection_selects ignoreCase nonempty legalAbove legal,
    style.selection_selects ignoreCase nonempty legalAbove legal,
    TreeEntry.fileName_path nonempty legalAbove legal, TreeEntry.isSelectedBy,
    TreeEntry.isSelectedBy]
  simp only [List.any_cons, List.any_nil, Bool.or_false,
    TreeEntry.isAcceptedBy_of_plain ignoreCase plain legalAbove legal, Bool.and_right_comm]

/--
Below a start that can be listed, a specification without a separator and the same behind any
directories lead to the same warnings and to the same files, in the same order, except for those
whose own name is blank: only the second selects them, in a directory below the start.
-/
theorem selection_by_name_or_path (style : PathStyle) {lister : Lister}
    {failures : ListingFailures} {start : Path} {tree : DirectoryTree}
    (conventions : lister.flavor = style.flavor) (nonempty : start ≠ [])
    (legal : tree.HasLegalNames style.flavor) (serves : lister.Serves failures start tree)
    (recursive : Bool) (filesListed : failures .file start = none)
    (subdirectoriesListed : recursive = true → failures .directory start = none)
    (ignoreCase : Bool) (specification : List Char)
    (plain : specification.any style.flavor.isSeparator = false)
    (excluded : List (List Char)) :
    ∃ byName byPath walk selectedByName selectedByPath,
      Selection.ofSpecifications? style.flavor ignoreCase [specification] excluded =
        some byName ∧
      Selection.ofSpecifications? style.flavor ignoreCase
        [inAnyDirectory style.flavor specification] excluded = some byPath ∧
      Walk.ofSpecification? lister .file ['*'] recursive = some walk ∧
      byName.run walk start = .ok selectedByName ∧ byPath.run walk start = .ok selectedByPath ∧
      selectedByName.warnings = selectedByPath.warnings ∧
      selectedByName.paths = selectedByPath.paths.filter
        (fun path => !isBlank (style.flavor.fileName path)) ∧
      ((∀ directory ∈ tree.directories, directory.names ≠ [] →
          ∀ name ∈ directory.files, isBlank name = false) →
        selectedByName = selectedByPath) := by
  have flavor : (style.walk lister .file ['*'] recursive).lister.flavor = style.flavor :=
    conventions
  have seesAll : (style.walk lister .file ['*'] recursive).SeesAll tree :=
    Walk.seesAll legal .file ['*'] recursive
  have startLists : (style.walk lister .file ['*'] recursive).failureAt? failures start = none :=
    Walk.failureAt?_start filesListed subdirectoriesListed
  have ran : ∀ included, (style.selection ignoreCase included excluded).run
      (style.walk lister .file ['*'] recursive) start = _ :=
    fun included => Selection.run_served startLists serves seesAll
  have kept : ((style.walk lister .file ['*'] recursive).paths failures start tree).filter
      ((style.selection ignoreCase [specification] excluded).selects start) =
        (((style.walk lister .file ['*'] recursive).paths failures start tree).filter
          ((style.selection ignoreCase [inAnyDirectory style.flavor specification]
            excluded).selects start)).filter
              (fun path => !isBlank (style.flavor.fileName path)) := by
    rw [List.filter_filter]
    refine List.filter_congr fun path found => ?_
    obtain ⟨entry, inTree, rfl⟩ := List.mem_map.mp found
    obtain ⟨legalAbove, legalName⟩ := Walk.mem_entries_legal legal inTree
    rw [flavor, style.selection_selects_of_plain ignoreCase nonempty plain legalAbove legalName,
      Bool.and_comm]
  refine ⟨_, _, _, _, _, style.ofSpecifications?_eq ignoreCase _ excluded,
    style.ofSpecifications?_eq ignoreCase _ excluded,
    Walk.ofSpecification?_eq conventions .file ['*'] recursive, ran _, ran _, rfl, kept, ?_⟩
  intro visible
  rw [kept, List.filter_eq_self.mpr]
  intro path found
  obtain ⟨found, selected⟩ := List.mem_filter.mp found
  obtain ⟨entry, inTree, rfl⟩ := List.mem_map.mp found
  obtain ⟨legalAbove, legalName⟩ := Walk.mem_entries_legal legal inTree
  rw [flavor, style.selection_selects ignoreCase nonempty legalAbove legalName,
    TreeEntry.isSelectedBy, Bool.and_eq_true, List.any_eq_true] at selected
  obtain ⟨_, member, accepted⟩ := selected.1
  obtain rfl := List.mem_singleton.mp member
  rw [flavor, TreeEntry.fileName_path nonempty legalAbove legalName, Bool.not_eq_true']
  refine TreeEntry.not_isBlank_name (fun below => ?_) accepted
  obtain ⟨directory, inDirectories, above, inside⟩ := Walk.mem_entries inTree
  exact visible directory inDirectories (above ▸ below) _ inside

theorem selection_by_name_or_path_archive :
    ∃ byName byPath walk selected,
      Selection.ofSpecifications? .posix false ["*.txt".toList] ["a*".toList] = some byName ∧
      Selection.ofSpecifications? .posix false ["**/*.txt".toList] ["a*".toList] = some byPath ∧
      Walk.ofSpecification? (archive [oldLocked]).lister .file ['*'] true = some walk ∧
      byName.run walk "/data/".toList = .ok selected ∧
      byPath.run walk "/data/".toList = .ok selected := by
  have visible : ∀ directory ∈ archiveTree.directories, directory.names ≠ [] →
      ∀ name ∈ directory.files, isBlank name = false := by decide
  obtain ⟨byName, byPath, walk, selected, selectedByPath, madeByName, madeByPath, walkMade,
      ranByName, ranByPath, -, -, same⟩ :=
    selection_by_name_or_path .posix rfl (by decide) archiveTree_legal (archive_serves [oldLocked])
      true (by decide +kernel) (fun _ => by decide +kernel) false "*.txt".toList
      (by decide) ["a*".toList]
  obtain rfl := same visible
  exact ⟨byName, byPath, walk, selected, madeByName, madeByPath, walkMade, ranByName, ranByPath⟩

def spacedTree : DirectoryTree :=
  .node ["a".toList] ["s".toList] fun _ => .leaf [" ".toList]

def spaced : Catalog where
  flavor := .posix
  ignoreCase := false
  entries := spacedTree.catalogEntries .posix ['d']
  failures := []

theorem blank_name_selected_by_path :
    spacedTree.HasLegalNames PathStyle.posix.flavor ∧ spacedTree.HasDistinctNames ∧
    spaced.lister.Serves spaced.listingFailures ['d'] spacedTree ∧
    (∀ kind, spaced.listingFailures kind ['d'] = none) ∧
    ∃ byName byPath walk,
      Selection.ofSpecifications? .posix false ["*".toList] [] = some byName ∧
      Selection.ofSpecifications? .posix false ["**/*".toList] [] = some byPath ∧
      Walk.ofSpecification? spaced.lister .file ['*'] true = some walk ∧
      byName.run walk ['d'] = .ok ⟨["d/a".toList], []⟩ ∧
      byPath.run walk ['d'] = .ok ⟨["d/a".toList, "d/s/ ".toList], []⟩ := by
  have legal : spacedTree.HasLegalNames PathStyle.posix.flavor := by decide
  have serves : spaced.lister.Serves spaced.listingFailures ['d'] spacedTree :=
    DirectoryTree.served_by_catalog (by decide) legal (by decide) rfl rfl
  have listed : ∀ kind, spaced.listingFailures kind ['d'] = none := by
    rw [EntryKind.forall]
    decide +kernel
  have walkMade : Walk.ofSpecification? spaced.lister .file ['*'] true =
      some (PathStyle.posix.walk spaced.lister .file ['*'] true) :=
    Walk.ofSpecification?_eq rfl .file ['*'] true
  have ran : ∀ specification, (PathStyle.posix.selection false [specification] []).run
      (PathStyle.posix.walk spaced.lister .file ['*'] true) ['d'] = _ :=
    fun specification => Selection.run_served
      (Walk.failureAt?_start (listed .file) fun _ => listed .directory) serves
      (Walk.seesAll legal .file ['*'] true)
  refine ⟨legal, by decide, serves, listed, _, _, _, PathStyle.posix.ofSpecifications?_eq _ _ _,
    PathStyle.posix.ofSpecifications?_eq _ _ _, walkMade, ?_, ?_⟩
  · rw [ran]
    simp only [PathStyle.selection, PathStyle.specificationSet, PathStyle.walk,
      PathStyle.matcher_posix]
    exact congrArg Except.ok ((SelectedFiles.mk.injEq ..).mpr (by decide +kernel))
  · rw [ran]
    simp only [PathStyle.selection, PathStyle.specificationSet, PathStyle.walk,
      PathStyle.matcher_posix]
    exact congrArg Except.ok ((SelectedFiles.mk.injEq ..).mpr (by decide +kernel))

end FileSpec
