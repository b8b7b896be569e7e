import FileSpec.Proofs.Settings.Sources
import FileSpec.Proofs.Settings.Validation

/-!
# Settings from layers

The settings for a directory are those of one map, in which every name has the value of the highest
layer that gives it one. What lower layers say about that name is never looked at, but for a name
that is no setting any layer is enough to make an error.
-/

set_option autoImplicit false

namespace FileSpec

open SettingsFile

/-- A table without repetition that gives every name the value it should have. -/
def Table.Represents (table : Table) (value? : String → Option Value) : Prop :=
  table.names.Nodup ∧ ∀ name, table.get? name = value? name

/-- The tables of all layers, from the highest to the lowest. -/
structure Layers where
  caller : Table
  project : Table
  package : Table
  user : Table

namespace Layers

/-- The values that the layers give a name, the highest first. A caller's null gives none. -/
def given (layers : Layers) (name : String) : List (Option Value) :=
  [(layers.caller.get? name).filter (!Table.isNull ·), layers.project.get? name,
    layers.package.get? name, layers.user.get? name]

/-- The value of a name in the highest layer that gives it one. -/
def value? (layers : Layers) (name : String) : Option Value :=
  (layers.given name).findSome? id

/-- All that is consulted for a start can be looked up and read, and holds these tables. -/
structure AreFound (layers : Layers) (tree : FileTree) (environment : Environment)
    (start : Path) : Prop where
  noNul : '\x00' ∉ start
  requested : Place.CanBeRequested (tree.lexicalPlace start ++ [packageFileName])
  distinct : layers.caller.names.Nodup
  project : tree.IsProjectTable (tree.lexicalPlace start) layers.project
  package : tree.IsPackageTable (tree.lexicalPlace start) layers.package
  user : tree.IsUserTable environment layers.user

/-- Where the second layers differ, a higher one of the first layers gives a value already. -/
def DifferInShadow (layers others : Layers) : Prop :=
  ∀ (name : String) (position : Nat),
    (layers.given name)[position]? ≠ (others.given name)[position]? →
    ∃ higher < position, ∃ value : Value, (layers.given name)[higher]? = some (some value)

section Shadow

variable {first second : List (Option Value)}

theorem head_eq_of_shadow
    (shadow : ∀ position : Nat, first[position]? ≠ second[position]? →
      ∃ higher < position, ∃ value : Value, first[higher]? = some (some value)) :
    first[0]? = second[0]? := by
  by_contra different
  obtain ⟨higher, before, -⟩ := shadow 0 different
  exact absurd before (Nat.not_lt_zero higher)

theorem findSome?_eq_of_shadow
    (shadow : ∀ position : Nat, first[position]? ≠ second[position]? →
      ∃ higher < position, ∃ value : Value, first[higher]? = some (some value)) :
    first.findSome? id = second.findSome? id := by
  induction first generalizing second with
  | nil =>
      have sameHead := head_eq_of_shadow shadow
      cases second with
      | nil => rfl
      | cons other? second => simp at sameHead
  | cons value? first inductionHypothesis =>
      have sameHead := head_eq_of_shadow shadow
      cases second with
      | nil => simp at sameHead
      | cons other? second =>
          obtain rfl : value? = other? := by simpa using sameHead
          cases value? with
          | some value => rfl
          | none =>
              change first.findSome? id = second.findSome? id
              apply inductionHypothesis
              intro position different
              have differs : (none :: first)[position + 1]? ≠ (none :: second)[position + 1]? := by
                rwa [List.getElem?_cons_succ, List.getElem?_cons_succ]
              obtain ⟨higher, before, value, found⟩ := shadow (position + 1) differs
              cases higher with
              | zero => simp at found
              | succ higher => exact ⟨higher, by omega, value, by simpa using found⟩

end Shadow

theorem DifferInShadow.value?_eq {layers others : Layers} (shadow : layers.DifferInShadow others)
    (name : String) : layers.value? name = others.value? name :=
  findSome?_eq_of_shadow (shadow name)

variable {layers : Layers} {tree : FileTree} {environment : Environment} {start? : Option Path}

/-- The settings are those of the merged layers, which are a table of the highest values. -/
theorem AreFound.exists_merged
    (found : layers.AreFound tree environment (start?.getD tree.workingDirectory.path)) :
    ∃ table : Table, table.Represents layers.value? ∧
      Settings.resolve tree environment start? layers.caller =
        (Settings.ofValue (.table table)).mapError .invalid := by
  obtain ⟨read, fileLayers, tables, distinct⟩ :=
    exists_fileLayers found.noNul found.requested found.project found.package found.user
  refine ⟨Table.mergeLayers (read ++ [some layers.caller.withoutNulls]),
    ⟨Table.nodup_names_mergeLayers _, ?_⟩, ?_⟩
  · intro name
    have allDistinct : ∀ layer ∈ read ++ [some layers.caller.withoutNulls],
        (layer.getD []).names.Nodup :=
      List.forall_mem_append.mpr ⟨distinct, List.forall_mem_singleton.mpr
        (Table.nodup_names_withoutNulls found.distinct)⟩
    rw [Table.get?_mergeLayers _ allDistinct, List.map_append, tables]
    change [layers.caller.withoutNulls, layers.project, layers.package, layers.user].findSome?
      (·.get? name) = _
    simp only [List.findSome?_cons, List.findSome?_nil, Table.get?_withoutNulls found.distinct,
      value?, given, id]
  · rw [Settings.resolve, fileLayers]
    rfl

theorem AreFound.resolve_eq
    (found : layers.AreFound tree environment (start?.getD tree.workingDirectory.path))
    {table : Table} (represents : table.Represents layers.value?) :
    Settings.resolve tree environment start? layers.caller =
      (Settings.ofValue (.table table)).mapError .invalid := by
  obtain ⟨merged, ⟨distinct, values⟩, resolved⟩ := found.exists_merged
  rw [resolved, Settings.ofValue_eq_of_get? distinct represents.1 fun name =>
    (values name).trans (represents.2 name).symm]

theorem AreFound.resolve_of_unknown
    (found : layers.AreFound tree environment (start?.getD tree.workingDirectory.path))
    {name : String} (unknown : name ∉ Settings.fieldNames) {value : Value}
    (given : some value ∈ layers.given name) :
    ∃ errors, Settings.resolve tree environment start? layers.caller = .error (.invalid errors) ∧
      ⟨[.field name], .unknownField⟩ ∈ errors := by
  obtain ⟨merged, ⟨-, values⟩, resolved⟩ := found.exists_merged
  have isGiven : (layers.value? name).isSome = true := by
    rw [value?, List.findSome?_isSome_iff]
    exact ⟨some value, given, rfl⟩
  obtain ⟨highest, isHighest⟩ := Option.isSome_iff_exists.mp isGiven
  obtain ⟨errors, failed, reported⟩ := Settings.ofValue_of_unknown
    (Table.mem_of_get? ((values name).trans isHighest)) unknown
  refine ⟨errors, ?_, reported⟩
  rw [resolved, failed]
  rfl

end Layers

namespace Settings

variable {layers : Layers} {tree : FileTree} {environment : Environment} {start? : Option Path}

/--
Where every settings file that is consulted can be read, the settings, or their errors, are those
of any table that gives each name the value of its highest layer. So they stay the same whatever
changes in the shadow of a higher layer, and no layer can hide a name that is no setting.
-/
theorem resolve_takes_highest
    (found : layers.AreFound tree environment (start?.getD tree.workingDirectory.path)) :
    (∃ table : Table, table.Represents layers.value?) ∧
    (∀ table : Table, table.Represents layers.value? →
      resolve tree environment start? layers.caller =
        (ofValue (.table table)).mapError .invalid) ∧
    (∀ (others : Layers) (otherTree : FileTree) (otherEnvironment : Environment)
      (otherStart? : Option Path),
      others.AreFound otherTree otherEnvironment
        (otherStart?.getD otherTree.workingDirectory.path) →
      layers.DifferInShadow others →
      resolve otherTree otherEnvironment otherStart? others.caller =
        resolve tree environment start? layers.caller) ∧
    ∀ (name : String) (value : Value), name ∉ fieldNames → some value ∈ layers.given name →
      ∃ errors, resolve tree environment start? layers.caller = .error (.invalid errors) ∧
        ⟨[.field name], .unknownField⟩ ∈ errors := by
  obtain ⟨merged, represents, resolved⟩ := found.exists_merged
  refine ⟨⟨merged, represents⟩, fun table same => found.resolve_eq same, ?_, ?_⟩
  · intro others otherTree otherEnvironment otherStart? othersFound shadow
    have sameValues : merged.Represents others.value? :=
      ⟨represents.1, fun name => (represents.2 name).trans (shadow.value?_eq name)⟩
    rw [othersFound.resolve_eq sameValues, resolved]
  · exact fun name value unknown given => found.resolve_of_unknown unknown given

def textFile (text : String) : Node :=
  .file (.bytes text.toUTF8.data.toList)

/-- A project without a settings file, in a package, and a user with settings as given. -/
def workshop (userText : String) : FileTree where
  top := .directory
    [("home".toList, .directory [(".config".toList, .directory [("michi".toList,
        .directory [("config.toml".toList, textFile userText)])])]),
      ("work".toList, .directory [(".michi".toList, .directory []),
        ("pyproject.toml".toList, textFile "[tool.michi]\ntrim_length = 20"),
        ("src".toList, .directory [])])]
  locked := []
  workingDirectory := ["work".toList, "src".toList]

def workshopLayers (width : Value) : Layers where
  caller := [("exclude", .null), ("ignore_case", .boolean true)]
  project := []
  package := [("trim_length", .integer 20)]
  user := [("trim_length", width), ("recursive", .boolean false)]

theorem canBeRequested_workshop :
    Place.CanBeRequested ["work".toList, "src".toList, packageFileName] :=
  ⟨by decide, by decide, by decide⟩

theorem areFound_workshop {userText : String} {width : Value}
    (parsed : Toml.parse userText.toList = .ok (workshopLayers width).user) :
    (workshopLayers width).AreFound (workshop userText) ⟨"/home".toList, none⟩
      "/work/src".toList := by
  have projectNearest := isNearest_find?
    (fun place => (workshop userText).isDirectoryAt (place ++ [projectDirectory]))
    ["work".toList, "src".toList]
  have packageNearest := isNearest_find?
    (fun place => ((workshop userText).node? (place ++ [packageFileName])).any Node.isFile)
    ["work".toList, "src".toList]
  have missing : (workshop userText).Gives "/work/.michi/config.toml".toList none := by
    apply FileTree.Gives.missing
    · rfl
    · rfl
  have document : (workshop userText).Gives "/work/pyproject.toml".toList
      (some [("tool", .table [("michi", .table (workshopLayers width).package)])]) :=
    .written rfl (FileTree.decode_toUTF8 _) rfl
  exact ⟨by decide, canBeRequested_workshop, by simp [workshopLayers, Table.names],
    .project projectNearest missing, .package packageNearest document rfl rfl,
    .user rfl (.written rfl (FileTree.decode_toUTF8 _) parsed)⟩

theorem differInShadow_workshop (width other : Value) :
    (workshopLayers width).DifferInShadow (workshopLayers other) := by
  intro name position different
  by_cases trim : name = "trim_length"
  · subst trim
    match position with
    | 0 => exact absurd rfl different
    | 1 => exact absurd rfl different
    | 2 => exact absurd rfl different
    | 3 => exact ⟨2, by decide, .integer 20, rfl⟩
    | position + 4 => exact absurd rfl different
  · apply absurd ?_ different
    simp [Layers.given, workshopLayers, trim]

/-- The package hides what the user says of a width, be it a width or not. -/
theorem resolve_takes_highest_workshop :
    (workshopLayers (.text "wide")).AreFound (workshop "trim_length = 'wide'\nrecursive = false")
      ⟨"/home".toList, none⟩ "/work/src".toList ∧
    (workshopLayers (.text "wide")).DifferInShadow (workshopLayers (.integer 3)) ∧
    resolve (workshop "trim_length = 'wide'\nrecursive = false") ⟨"/home".toList, none⟩ none
        (workshopLayers (.text "wide")).caller =
      .ok { defaults with ignoreCase := true, recursive := false, trimLength := 20 } ∧
    resolve (workshop "trim_length = 3\nrecursive = false") ⟨"/home".toList, none⟩ none
        (workshopLayers (.integer 3)).caller =
      .ok { defaults with ignoreCase := true, recursive := false, trimLength := 20 } := by
  have wide : (workshopLayers (.text "wide")).AreFound
      (workshop "trim_length = 'wide'\nrecursive = false") ⟨"/home".toList, none⟩
      "/work/src".toList := areFound_workshop rfl
  have narrow : (workshopLayers (.integer 3)).AreFound
      (workshop "trim_length = 3\nrecursive = false") ⟨"/home".toList, none⟩
      "/work/src".toList := areFound_workshop rfl
  have shadow := differInShadow_workshop (.text "wide") (.integer 3)
  have represents : Table.Represents [("ignore_case", .boolean true), ("trim_length", .integer 20),
      ("recursive", .boolean false)] (workshopLayers (.text "wide")).value? := by
    refine ⟨by decide, fun name => ?_⟩
    unfold Layers.value? Layers.given workshopLayers
    simp only [Table.get?_cons, Table.get?_nil]
    by_cases ignoreCase : name = "ignore_case"
    · subst ignoreCase
      rfl
    by_cases trimLength : name = "trim_length"
    · subst trimLength
      rfl
    by_cases recursive : name = "recursive"
    · subst recursive
      rfl
    by_cases exclude : name = "exclude"
    · subst exclude
      rfl
    simp [ignoreCase, trimLength, recursive, exclude]
  obtain ⟨-, same, agree, -⟩ := @resolve_takes_highest _ _ _ none wide
  have outcome := same _ represents
  refine ⟨wide, shadow, outcome, ?_⟩
  rw [agree _ _ _ none narrow shadow, outcome]
  rfl

end Settings

end FileSpec
