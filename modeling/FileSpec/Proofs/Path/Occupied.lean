import FileSpec.Proofs.FileTree.Variants

/-!
# Free paths and directories

The search for a free path asks for files only. What it finds is no file, but a directory may have
it: the path itself or a numbered variant. So only where there are no directories besides files
does it always find a path that nothing has: `uniquePath_isUnused_iff`.
-/

set_option autoImplicit false

namespace FileSpec

/-- Neither a file nor a directory has the path. -/
def FileQueries.IsUnused (queries : FileQueries) (path : Path) : Prop :=
  queries.fileExists path = false ∧ queries.directoryExists path = false

instance (queries : FileQueries) (path : Path) : Decidable (queries.IsUnused path) :=
  inferInstanceAs (Decidable (_ ∧ _))

namespace Flavor

variable {flavor : Flavor} {queries : FileQueries} {limit : Nat}
  (few : flavor.HasFewVariants queries.fileExists limit) (path : Path)

include few

theorem uniquePath_is_path_or_variant :
    (queries.fileExists path = false ∧
      (flavor.uniquePath queries.fileExists limit path).path = path) ∨
    (queries.fileExists path = true ∧
      ∃ number, (flavor.uniquePath queries.fileExists limit path).path =
          flavor.numbered path number ∧
        Numbering.Finds (fun other => queries.fileExists (flavor.numbered path other)) number) := by
  cases isTaken : queries.fileExists path with
  | false => exact .inl ⟨rfl, by rw [flavor.uniquePath_of_free isTaken]⟩
  | true =>
      exact .inr ⟨rfl, _, flavor.path_uniquePath_of_taken isTaken limit, few.firstFree_finds path⟩

theorem fileExists_uniquePath :
    queries.fileExists (flavor.uniquePath queries.fileExists limit path).path = false := by
  rcases uniquePath_is_path_or_variant few path with ⟨free, same⟩ | ⟨-, number, same, finds⟩
  · rw [same, free]
  · rw [same]
    exact finds.free

/-- Directories that have neither the path nor a variant of it are in nobody's way. -/
theorem isUnused_uniquePath (noDirectory : queries.directoryExists path = false)
    (noVariant : ∀ number, 1 ≤ number →
      queries.directoryExists (flavor.numbered path number) = false) :
    queries.IsUnused (flavor.uniquePath queries.fileExists limit path).path := by
  refine ⟨fileExists_uniquePath few path, ?_⟩
  rcases uniquePath_is_path_or_variant few path with ⟨-, same⟩ | ⟨-, number, same, finds⟩
  · rw [same, noDirectory]
  · rw [same]
    exact noVariant number finds.positive

omit path

/--
The path that is found is no file. It is the path asked for if that is no file, and else the variant
that the files alone determine, whether a directory has it or not. So it is always unused exactly
if every directory is a file as well, and for one path if no directory has it or a variant of it.
-/
theorem uniquePath_isUnused_iff :
    (∀ path, queries.fileExists (flavor.uniquePath queries.fileExists limit path).path = false ∧
      ((queries.fileExists path = false ∧
          (flavor.uniquePath queries.fileExists limit path).path = path) ∨
        (queries.fileExists path = true ∧
          ∃ number, (flavor.uniquePath queries.fileExists limit path).path =
              flavor.numbered path number ∧
            Numbering.Finds (fun other => queries.fileExists (flavor.numbered path other))
              number)) ∧
      (queries.directoryExists path = false →
        (∀ number, 1 ≤ number →
          queries.directoryExists (flavor.numbered path number) = false) →
        queries.IsUnused (flavor.uniquePath queries.fileExists limit path).path)) ∧
    ((∀ path, queries.IsUnused (flavor.uniquePath queries.fileExists limit path).path) ↔
      ∀ path, queries.directoryExists path = true → queries.fileExists path = true) := by
  refine ⟨fun path => ⟨fileExists_uniquePath few path, uniquePath_is_path_or_variant few path,
    isUnused_uniquePath few path⟩, ?_⟩
  constructor
  · intro unused path isDirectory
    by_contra notFile
    have found := flavor.uniquePath_of_free (Bool.not_eq_true _ ▸ notFile) limit
    have free := (unused path).2
    rw [found, isDirectory] at free
    cases free
  · intro allFiles path
    have noFile := fileExists_uniquePath few path
    refine ⟨noFile, ?_⟩
    rw [← Bool.not_eq_true]
    intro isDirectory
    rw [allFiles _ isDirectory] at noFile
    cases noFile

end Flavor

/-- A file whose first variant is a directory, and one more directory. -/
def yard : FileTree where
  top := .directory [("a.txt".toList, .file .empty), ("a (1).txt".toList, .directory []),
    ("new".toList, .directory [])]
  locked := []
  workingDirectory := []

/-- In a tree that has directories some path that is found is one of them. -/
theorem uniquePath_isUnused_iff_yard :
    Flavor.windows.HasFewVariants yard.queries.fileExists yard.top.size ∧
    yard.queries.fileExists (yard.uniquePath .windows "/a.txt".toList).path = false ∧
    ¬ ∀ path, yard.queries.IsUnused (yard.uniquePath .windows path).path := by
  have few : Flavor.windows.HasFewVariants yard.queries.fileExists yard.top.size :=
    yard.hasFewVariants .windows
  have searched : ∀ path, yard.uniquePath .windows path =
      Flavor.windows.uniquePath yard.queries.fileExists yard.top.size path := fun _ => rfl
  obtain ⟨found, always⟩ := Flavor.uniquePath_isUnused_iff few
  have noFile := (found "/a.txt".toList).1
  rw [← searched] at noFile
  refine ⟨few, noFile, fun unused => ?_⟩
  simp only [searched] at unused
  have isDirectory : yard.queries.directoryExists "/new".toList = true := by decide +kernel
  have isNoFile : yard.queries.fileExists "/new".toList = false := by decide +kernel
  rw [always.mp unused _ isDirectory] at isNoFile
  cases isNoFile

/-- A directory is found for itself, and for a file one that has its first free variant. -/
theorem uniquePath_finds_directory :
    (yard.uniquePath .posix "/new".toList).path = "/new".toList ∧
    yard.directoryExists "/new".toList = true ∧
    (yard.uniquePath .posix "/a.txt".toList).path = "/a (1).txt".toList ∧
    yard.directoryExists "/a (1).txt".toList = true := by
  have isTaken : yard.fileExists "/a.txt".toList = true := by decide +kernel
  have free : yard.fileExists (Flavor.posix.numbered "/a.txt".toList 1) = false := by decide +kernel
  have first := ((yard.hasFewVariants .posix).firstFree_finds "/a.txt".toList).eq_one free
  have found := Flavor.posix.path_uniquePath_of_taken isTaken yard.top.size
  rw [first] at found
  refine ⟨?_, ?_, found, ?_⟩
  · decide +kernel
  · decide +kernel
  · decide +kernel

end FileSpec
