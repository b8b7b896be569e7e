import FileSpec.Proofs.Settings.Location
import FileSpec.Proofs.Toml.DistinctNames
import FileSpec.Settings.Resolution

/-!
# The layers that files give

The tables of the project, the package and the user, as the files and directories of a tree
determine them, and that they are the ones read for a directory.
-/

set_option autoImplicit false

namespace FileSpec

open SettingsFile

namespace FileTree

variable (tree : FileTree)

/-- What a settings file gives: its table, or nothing if there is no such file. -/
inductive Gives (path : Path) : Option Table → Prop where
  | missing {error : OsError} :
      tree.read path = .error (.os error) → error.isNotFound = true → Gives path none
  | written {content : List UInt8} {text : List Char} {table : Table} :
      tree.read path = .ok content → decode content = .ok text → Toml.parse text = .ok table →
      Gives path (some table)

/-- The settings of a project are those of the nearest directory that has a place for them, even if
there is no settings file there. -/
inductive IsProjectTable (start : Place) : Table → Prop where
  | noProject :
      start.IsNearest (fun place => tree.isDirectoryAt (place ++ [projectDirectory]) = true) none →
      IsProjectTable start []
  | project {place : Place} {table? : Option Table} :
      start.IsNearest (fun place => tree.isDirectoryAt (place ++ [projectDirectory]) = true)
        (some place) →
      tree.Gives (Place.path (place ++ [projectDirectory, SettingsFile.fileName])) table? →
      IsProjectTable start (table?.getD [])

/-- There is a file of a package in a directory. -/
def HasPackage (place : Place) : Prop :=
  (tree.node? (place ++ [packageFileName])).any Node.isFile = true

/-- The settings of a package are one table of the nearest package file. -/
inductive IsPackageTable (start : Place) : Table → Prop where
  | noPackage : start.IsNearest tree.HasPackage none → IsPackageTable start []
  | package {place : Place} {document tools table : Table} :
      start.IsNearest tree.HasPackage (some place) →
      tree.Gives (Place.path (place ++ [packageFileName])) (some document) →
      document.get? "tool" = some (.table tools) → tools.get? "michi" = some (.table table) →
      IsPackageTable start table
  | noTable {place : Place} {document : Table} :
      start.IsNearest tree.HasPackage (some place) →
      tree.Gives (Place.path (place ++ [packageFileName])) (some document) →
      (∀ tools table : Table, document.get? "tool" = some (.table tools) →
        tools.get? "michi" ≠ some (.table table)) →
      IsPackageTable start []

inductive IsUserTable (environment : Environment) : Table → Prop where
  | user {file : PlainPath} {table? : Option Table} :
      ofUser? environment = some file → tree.Gives file.path table? →
      IsUserTable environment (table?.getD [])

/-- The bytes of a text are read as this text. -/
@[simp]
theorem decode_toUTF8 (text : String) : decode text.toUTF8.data.toList = .ok text.toList := by
  have same : String.fromUTF8? text.toUTF8 = some text := dif_pos text.isValidUTF8
  rw [decode, Array.toArray_toList, same]

variable {tree}

theorem Gives.namesDistinct {path : Path} {table? : Option Table} (gives : tree.Gives path table?) :
    (table?.getD []).NamesDistinct := by
  cases gives with
  | missing failed kind => exact .empty
  | written read decoded parsed => exact Toml.namesDistinct_parse parsed

theorem Gives.readTable? {file : PlainPath} (isPlain : file.IsPlain) (hasNames : file.names ≠ [])
    {table? : Option Table} (gives : tree.Gives file.path table?) :
    tree.readTable? file.path = .ok table? := by
  unfold FileTree.readTable? readTable
  rw [PlainPath.ofPath_path isPlain hasNames]
  cases gives with
  | missing failed kind =>
      rw [failed]
      simp [Except.mapError, kind, bind, Except.bind]
  | written read decoded parsed =>
      rw [read]
      simp [Except.mapError, decoded, parsed, bind, Except.bind]

theorem Gives.readTable {file : PlainPath} (isPlain : file.IsPlain) (hasNames : file.names ≠ [])
    {table : Table} (gives : tree.Gives file.path (some table)) :
    tree.readTable file.path = .ok table := by
  unfold FileTree.readTable
  rw [PlainPath.ofPath_path isPlain hasNames]
  cases gives with
  | written read decoded parsed =>
      rw [read]
      simp [Except.mapError, decoded, parsed, bind, Except.bind]

theorem Gives.readPackageTable {file : PlainPath} (isPlain : file.IsPlain)
    (hasNames : file.names ≠ []) {table : Table} (gives : tree.Gives file.path (some table)) :
    tree.readPackageTable file.path = .ok (tableAt? ["tool", "michi"] table) := by
  rw [FileTree.readPackageTable, gives.readTable isPlain hasNames]
  rfl

theorem namesDistinct_tableAt? {route : List String} {table inner : Table}
    (distinct : table.NamesDistinct) (found : tableAt? route table = some inner) :
    inner.NamesDistinct := by
  induction route generalizing table with
  | nil =>
      rw [← Option.some.inj found]
      exact distinct
  | cons name names inductionHypothesis =>
      rw [tableAt?] at found
      split at found
      · next next given => exact inductionHypothesis (distinct.get? given) found
      · cases found

end FileTree

namespace PlainPath

theorem isPlain_of_names {names : List (List Char)} (legal : ∀ name ∈ names, IsEntryName name) :
    IsPlain ⟨['/'], names⟩ where
  rooted := .inr (.inl rfl)
  nonempty name member := (legal name member).nonempty
  noSeparator name member := (legal name member).noSeparator
  notHere name member := (legal name member).notHere

theorem IsPlain.append {plain : PlainPath} (isPlain : plain.IsPlain) {names : List (List Char)}
    (legal : ∀ name ∈ names, IsEntryName name) : IsPlain ⟨plain.root, plain.names ++ names⟩ where
  rooted := isPlain.rooted
  nonempty := List.forall_mem_append.mpr
    ⟨isPlain.nonempty, fun name member => (legal name member).nonempty⟩
  noSeparator := List.forall_mem_append.mpr
    ⟨isPlain.noSeparator, fun name member => (legal name member).noSeparator⟩
  notHere := List.forall_mem_append.mpr
    ⟨isPlain.notHere, fun name member => (legal name member).notHere⟩

end PlainPath

namespace SettingsFile

/-- The file of the user has its two names below some base. -/
theorem isPlain_of_ofUser? {environment : Environment} {file : PlainPath}
    (given : ofUser? environment = some file) : file.IsPlain ∧ file.names ≠ [] := by
  have below : ∀ (base : Path) (names : List (List Char)), (∀ name ∈ names, IsEntryName name) →
      let plain := PlainPath.ofPath base
      let inside : PlainPath :=
        { plain with names := plain.names ++ names ++ [userDirectory, fileName] }
      inside.IsPlain ∧ inside.names ≠ [] := by
    intro base names legal
    have ends : ∀ name ∈ [userDirectory, fileName], IsEntryName name := by decide
    exact ⟨((PlainPath.isPlain_ofPath base).append legal).append ends, by simp⟩
  unfold ofUser? at given
  dsimp only at given
  split at given
  · rw [← Option.some.inj given]
    exact below _ [] nofun
  · obtain ⟨home, -, rfl⟩ := Option.map_eq_some_iff.mp given
    exact below home [".config".toList] (by decide)

end SettingsFile

section Layers

variable {tree : FileTree} {start : Path}

/-- Read what is at a place, if there is one. -/
def layerAt (read : Path → Except SourceError (Option Table)) :
    Option Place → Except SourceError (Option Table)
  | some place => read place.path
  | none => .ok none

theorem isEntryName_of_isPrefix
    (requested : Place.CanBeRequested (tree.lexicalPlace start ++ [packageFileName]))
    {place : Place} (isAbove : place <+: tree.lexicalPlace start) :
    ∀ name ∈ place, IsEntryName name :=
  fun name member => requested.named name (List.mem_append_left _ (isAbove.subset member))

theorem exists_projectLayer (noNul : '\x00' ∉ start)
    (requested : Place.CanBeRequested (tree.lexicalPlace start ++ [packageFileName]))
    {table : Table} (isTable : tree.IsProjectTable (tree.lexicalPlace start) table) :
    ∃ (place? : Option Place) (layer? : Option Table), ofProject? tree start = .ok place? ∧
      layerAt tree.readTable? place? = .ok layer? ∧ layer?.getD [] = table ∧
      table.NamesDistinct := by
  have found : ∀ {place? : Option Place},
      (tree.lexicalPlace start).IsNearest
        (fun place => tree.isDirectoryAt (place ++ [projectDirectory]) = true) place? →
      ofProject? tree start = .ok (place?.map (· ++ [projectDirectory, fileName])) := by
    intro place? nearest
    have root := nearest?_eq tree Node.isDirectory noNul (fun place isAbove =>
      requested.above isAbove (by decide) (by decide)) nearest
    rw [ofProject?, projectRoot?, root]
    rfl
  cases isTable with
  | noProject nearest => exact ⟨none, none, found nearest, rfl, rfl, .empty⟩
  | @project place table? nearest gives =>
      have names : ∀ name ∈ place ++ [projectDirectory, fileName], IsEntryName name :=
        List.forall_mem_append.mpr ⟨isEntryName_of_isPrefix requested nearest.1, by decide⟩
      exact ⟨_, table?, found nearest,
        gives.readTable? (PlainPath.isPlain_of_names names) (by simp), rfl, gives.namesDistinct⟩

theorem exists_packageLayer (noNul : '\x00' ∉ start)
    (requested : Place.CanBeRequested (tree.lexicalPlace start ++ [packageFileName]))
    {table : Table} (isTable : tree.IsPackageTable (tree.lexicalPlace start) table) :
    ∃ (place? : Option Place) (layer? : Option Table), ofPackage? tree start = .ok place? ∧
      layerAt tree.readPackageTable place? = .ok layer? ∧ layer?.getD [] = table ∧
      table.NamesDistinct := by
  have found : ∀ {place? : Option Place},
      (tree.lexicalPlace start).IsNearest tree.HasPackage place? →
      ofPackage? tree start = .ok (place?.map (· ++ [packageFileName])) := by
    intro place? nearest
    have root := nearest?_eq tree Node.isFile noNul (fun place isAbove =>
      requested.above isAbove (by decide) (by decide)) nearest
    rw [ofPackage?, root]
    rfl
  have read : ∀ {place : Place} {document : Table}, place <+: tree.lexicalPlace start →
      tree.Gives (Place.path (place ++ [packageFileName])) (some document) →
      tree.readPackageTable (Place.path (place ++ [packageFileName])) =
        .ok (FileTree.tableAt? ["tool", "michi"] document) := by
    intro place document isAbove gives
    have names : ∀ name ∈ place ++ [packageFileName], IsEntryName name :=
      List.forall_mem_append.mpr ⟨isEntryName_of_isPrefix requested isAbove, by decide⟩
    exact gives.readPackageTable (PlainPath.isPlain_of_names names) (by simp)
  cases isTable with
  | noPackage nearest => exact ⟨none, none, found nearest, rfl, rfl, .empty⟩
  | @package place document tools table nearest gives hasTools hasTable =>
      have inner : FileTree.tableAt? ["tool", "michi"] document = some table := by
        simp [FileTree.tableAt?, hasTools, hasTable]
      have distinct := FileTree.namesDistinct_tableAt? gives.namesDistinct inner
      refine ⟨_, some table, found nearest, ?_, rfl, distinct⟩
      rw [← inner]
      exact read nearest.1 gives
  | @noTable place document nearest gives hasNoTable =>
      have inner : FileTree.tableAt? ["tool", "michi"] document = none := by
        unfold FileTree.tableAt?
        split
        · next tools hasTools =>
            unfold FileTree.tableAt?
            split
            · next table hasTable => exact absurd hasTable (hasNoTable tools table hasTools)
            · rfl
        · rfl
      refine ⟨_, none, found nearest, ?_, rfl, .empty⟩
      rw [← inner]
      exact read nearest.1 gives

theorem exists_userLayer {environment : Environment} {table : Table}
    (isTable : tree.IsUserTable environment table) :
    ∃ (file : PlainPath) (layer? : Option Table), ofUser? environment = some file ∧
      tree.readTable? file.path = .ok layer? ∧ layer?.getD [] = table ∧ table.NamesDistinct := by
  cases isTable with
  | user given gives =>
      obtain ⟨isPlain, hasNames⟩ := isPlain_of_ofUser? given
      exact ⟨_, _, given, gives.readTable? isPlain hasNames, rfl, gives.namesDistinct⟩

/-- The files that are found for a start are read into its layers, the lowest first. -/
theorem exists_fileLayers (noNul : '\x00' ∉ start)
    (requested : Place.CanBeRequested (tree.lexicalPlace start ++ [packageFileName]))
    {environment : Environment} {project package user : Table}
    (isProject : tree.IsProjectTable (tree.lexicalPlace start) project)
    (isPackage : tree.IsPackageTable (tree.lexicalPlace start) package)
    (isUser : tree.IsUserTable environment user) :
    ∃ layers : List (Option Table), Settings.fileLayers tree environment start = .ok layers ∧
      layers.map (·.getD []) = [user, package, project] ∧
      ∀ layer ∈ layers, (layer.getD []).names.Nodup := by
  obtain ⟨project?, projectLayer?, projectFound, projectRead, rfl, projectDistinct⟩ :=
    exists_projectLayer noNul requested isProject
  obtain ⟨package?, packageLayer?, packageFound, packageRead, rfl, packageDistinct⟩ :=
    exists_packageLayer noNul requested isPackage
  obtain ⟨file, userLayer?, userFound, userRead, rfl, userDistinct⟩ := exists_userLayer isUser
  refine ⟨[userLayer?, packageLayer?, projectLayer?], ?_, rfl, List.forall_mem_cons.mpr
    ⟨userDistinct.nodup, List.forall_mem_cons.mpr
      ⟨packageDistinct.nodup, List.forall_mem_singleton.mpr projectDistinct.nodup⟩⟩⟩
  unfold Settings.fileLayers
  rw [projectFound, packageFound, userFound]
  simp only [bind, Except.bind, Except.mapError, userRead]
  cases package? with
  | none =>
      cases packageRead
      cases project? with
      | none =>
          cases projectRead
          rfl
      | some projectPlace =>
          rw [layerAt] at projectRead
          simp only [projectRead]
  | some packagePlace =>
      rw [layerAt] at packageRead
      cases project? with
      | none =>
          cases projectRead
          simp only [packageRead]
      | some projectPlace =>
          rw [layerAt] at projectRead
          simp only [packageRead, projectRead]

end Layers

end FileSpec
