import FileSpec.Proofs.Directory.Tree

/-!
# Catalogs of trees

Every tree of legal and distinct names is served: by the lister of the catalog that holds its
directories, whatever the start and the failures.
-/

set_option autoImplicit false

namespace FileSpec

/-- The errors of the calls that fail in a catalog. -/
def Catalog.listingFailures (catalog : Catalog) : ListingFailures := fun kind directory =>
  (catalog.failure? kind directory).map fun failure => ⟨failure.code, failure.text, directory⟩

namespace DirectoryTree

/-- The directories of a tree by their paths from a start. -/
def catalogEntries (tree : DirectoryTree) (flavor : Flavor) (start : Path) : List CatalogEntry :=
  tree.directories.map fun directory =>
    ⟨directory.path flavor start, directory.files, directory.subdirectories⟩

theorem length_names_lt {tree : DirectoryTree} {directory : TreeDirectory}
    (member : directory ∈ tree.directories) :
    directory.names.length < tree.directories.length := by
  induction tree generalizing directory with
  | leaf files =>
      rw [mem_directories_leaf] at member
      simp [member, directories]
  | node files subdirectories below inductionHypothesis =>
      rcases mem_directories_node.mp member with rfl | ⟨name, inTop, inner, inside, rfl⟩
      · simp [directories]
      · have shorter := inductionHypothesis name inside
        have part : ((below name).directories.map (·.under name)).Sublist
            (subdirectories.flatMap fun name => (below name).directories.map (·.under name)) := by
          apply List.sublist_flatten_of_mem
          exact List.mem_map.mpr ⟨name, inTop, rfl⟩
        have fewer := part.length_le
        rw [List.length_map] at fewer
        rw [directories, List.length_cons]
        exact Nat.succ_lt_succ (Nat.lt_of_lt_of_le shorter fewer)

variable {style : PathStyle} {start : Path} {tree : DirectoryTree}
  (nonempty : start ≠ []) (legal : tree.HasLegalNames style.flavor)
  (distinct : tree.HasDistinctNames)

include nonempty legal distinct

theorem names_of_entries {catalog : Catalog} (conventions : catalog.flavor = style.flavor)
    (holds : catalog.entries = tree.catalogEntries style.flavor start)
    {directory : TreeDirectory} (member : directory ∈ tree.directories) (kind : EntryKind) :
    catalog.names kind (directory.path style.flavor start) = directory.entries kind := by
  let inCatalog : CatalogEntry :=
    ⟨directory.path style.flavor start, directory.files, directory.subdirectories⟩
  have present : inCatalog ∈ catalog.entries.filter
      (catalog.sameDirectory (directory.path style.flavor start) ·.directory) := by
    refine List.mem_filter.mpr ⟨?_, by simp [inCatalog, Catalog.sameDirectory]⟩
    rw [holds]
    exact List.mem_map.mpr ⟨directory, member, rfl⟩
  obtain ⟨entry, last⟩ := Option.ne_none_iff_exists'.mp
    (mt List.getLast?_eq_none_iff.mp (List.ne_nil_of_mem present))
  -- Whatever entry comes last, it is one of a directory with the same names.
  obtain ⟨found, sameDirectory⟩ := List.mem_filter.mp (List.mem_of_getLast? last)
  rw [holds] at found
  obtain ⟨other, inTree, rfl⟩ := List.mem_map.mp found
  have sameNames : directory.names = other.names := by
    simp only [Catalog.sameDirectory, conventions, beq_iff_eq] at sameDirectory
    exact style.removeSuffix_pathTo_inj nonempty (legal.names_legal member)
      (legal.names_legal inTree) sameDirectory
  have same : directory = other :=
    List.inj_on_of_nodup_map distinct.nodup_names member inTree sameNames
  rw [Catalog.names, last, same]
  cases kind <;> rfl

/-- The lister of a catalog that holds a tree serves it. -/
theorem served_by_catalog {catalog : Catalog} (conventions : catalog.flavor = style.flavor)
    (holds : catalog.entries = tree.catalogEntries style.flavor start) :
    catalog.lister.Serves catalog.listingFailures start tree := by
  constructor
  · intro directory member kind matcher
    have known := names_of_entries nonempty legal distinct conventions holds member kind
    simp only [Catalog.lister, Catalog.list, Catalog.listingFailures, conventions, known]
    cases catalog.failure? kind (directory.path style.flavor start) <;> rfl
  · intro directory member
    have shorter := length_names_lt member
    have count : catalog.entries.length = tree.directories.length := by
      simp [holds, catalogEntries]
    simp only [Catalog.lister, Catalog.pathCount, count]
    calc
      directory.names.length < tree.directories.length := shorter
      _ ≤ tree.directories.length + 1 := Nat.le_succ _
      _ ≤ _ := Nat.le_mul_of_pos_right _ (Nat.succ_pos _)

end DirectoryTree

end FileSpec
