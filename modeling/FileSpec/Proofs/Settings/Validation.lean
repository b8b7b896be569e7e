import FileSpec.Proofs.Except
import FileSpec.Proofs.Settings.Fields
import FileSpec.Settings.Basic

/-!
# Settings from a map of values

A field changes its own part of the settings only, to what is valid there, and its errors are at
different locations. So the settings, or their errors, depend on nothing but the value of each name,
and settings that are read are valid.
-/

set_option autoImplicit false

namespace FileSpec

namespace Value

theorem ne_nil_of_asNonemptyString {value : Value} {content : List Char}
    (read : value.asNonemptyString = .ok content) : content ≠ [] := by
  obtain ⟨given, -, checked⟩ := exists_of_bind_eq_ok read
  cases given with
  | nil => cases checked
  | cons first rest =>
      obtain rfl := Except.ok.inj checked
      exact List.cons_ne_nil first rest

theorem pos_of_asPositive {value : Value} {number : Int} (read : value.asPositive = .ok number) :
    0 < number := by
  obtain ⟨given, -, checked⟩ := exists_of_bind_eq_ok read
  split at checked
  · next positive =>
      obtain rfl := Except.ok.inj checked
      exact positive
  · cases checked

section AsList

variable {Result : Type} {check : Value → Checked Result} {least : Nat} {results : List Result}

theorem asList_list_eq_ok_iff {items : List Value} :
    (list items).asList check least = .ok results ↔
      checkItems check items = (results, []) ∧ least ≤ results.length := by
  dsimp only [asList]
  generalize checkItems check items = checked
  obtain ⟨passed, errors⟩ := checked
  dsimp only
  by_cases few : passed.length < least
  · rw [if_pos few, if_neg (by simp)]
    constructor
    · intro failed
      cases failed
    · rintro ⟨same, enough⟩
      obtain ⟨rfl, -⟩ := Prod.mk.inj same
      exact absurd few (Nat.not_lt.mpr enough)
  · rw [if_neg few]
    constructor
    · intro read
      split at read
      · next clean =>
          obtain rfl := Except.ok.inj read
          exact ⟨Prod.ext rfl (List.isEmpty_iff.mp clean), Nat.not_lt.mp few⟩
      · cases read
    · rintro ⟨same, -⟩
      obtain ⟨rfl, rfl⟩ := Prod.mk.inj same
      rfl

/-- A list that is read has items enough, and each of them has passed the check. -/
theorem of_asList {value : Value} (read : value.asList check least = .ok results) :
    least ≤ results.length ∧ ∀ result ∈ results, ∃ item, check item = .ok result := by
  cases value with
  | list items =>
      obtain ⟨checked, enough⟩ := asList_list_eq_ok_iff.mp read
      refine ⟨enough, fun result member => ?_⟩
      obtain ⟨rfl, -⟩ := Prod.mk.inj checked
      obtain ⟨item, -, passed⟩ := List.mem_map.mp (mem_filterMap_toOption.mp member)
      exact ⟨item, passed⟩
  | _ => cases read

theorem asList_of_checked {items : List Value} (checked : items.map check = results.map .ok)
    (enough : least ≤ results.length) : (list items).asList check least = .ok results := by
  refine asList_list_eq_ok_iff.mpr ⟨?_, enough⟩
  rw [checkItems, checked]
  refine Prod.ext (filterMap_toOption_map_ok results) (List.flatMap_eq_nil_iff.mpr ?_)
  rintro ⟨outcome, position⟩ member
  obtain ⟨result, -, rfl⟩ := List.mem_map.mp (List.fst_mem_of_mem_zipIdx member)
  rfl

end AsList

end Value

namespace Settings

open Checked

/-- What holds of settings beyond the types of their parts. -/
structure IsValid (settings : Settings) : Prop where
  trimLength_pos : 0 < settings.trimLength
  patterns_ne_nil : settings.patterns ≠ []
  ne_nil_of_mem_patterns : ∀ pattern ∈ settings.patterns, pattern ≠ []
  ne_nil_of_mem_exclude : ∀ pattern ∈ settings.exclude, pattern ≠ []
  ne_nil_of_baseDirectory : ∀ directory ∈ settings.baseDirectory?, directory ≠ []

theorem isValid_defaults : defaults.IsValid where
  trimLength_pos := by decide
  patterns_ne_nil := by decide
  ne_nil_of_mem_patterns := by decide
  ne_nil_of_mem_exclude := by decide
  ne_nil_of_baseDirectory := by simp [defaults]

/-- The names of all settings. -/
def fieldNames : List String :=
  defaults.toTable.names

/-- A change of the part of the settings that a name stands for, to what is valid there. -/
inductive Sets : String → (Settings → Settings) → Prop where
  | ignoreCase (value : Bool) :
      Sets "ignore_case" fun settings => { settings with ignoreCase := value }
  | pathStyle (value : PathStyle) :
      Sets "path_style" fun settings => { settings with pathStyle := value }
  | recursive (value : Bool) :
      Sets "recursive" fun settings => { settings with recursive := value }
  | patterns (value : List (List Char)) (someValue : value ≠ [])
      (nonempty : ∀ pattern ∈ value, pattern ≠ []) :
      Sets "patterns" fun settings => { settings with patterns := value }
  | exclude (value : List (List Char)) (nonempty : ∀ pattern ∈ value, pattern ≠ []) :
      Sets "exclude" fun settings => { settings with exclude := value }
  | trimLength (value : Int) (positive : 0 < value) :
      Sets "trim_length" fun settings => { settings with trimLength := value }
  | baseDirectory (value : Option Path) (nonempty : ∀ directory ∈ value, directory ≠ []) :
      Sets "base_directory" fun settings => { settings with baseDirectory? := value }

theorem Sets.commute {name other : String} {change otherChange : Settings → Settings}
    (sets : Sets name change) (otherSets : Sets other otherChange) (different : name ≠ other)
    (settings : Settings) : change (otherChange settings) = otherChange (change settings) := by
  cases sets <;> cases otherSets <;> first | rfl | exact absurd rfl different

theorem Sets.isValid {name : String} {change : Settings → Settings} (sets : Sets name change)
    {settings : Settings} (valid : settings.IsValid) : (change settings).IsValid := by
  obtain ⟨trimLength_pos, patterns_ne_nil, inPatterns, inExclude, inBase⟩ := valid
  cases sets with
  | ignoreCase | pathStyle | recursive =>
      exact ⟨trimLength_pos, patterns_ne_nil, inPatterns, inExclude, inBase⟩
  | patterns value someValue nonempty =>
      exact ⟨trimLength_pos, someValue, nonempty, inExclude, inBase⟩
  | exclude value nonempty => exact ⟨trimLength_pos, patterns_ne_nil, inPatterns, nonempty, inBase⟩
  | trimLength value positive => exact ⟨positive, patterns_ne_nil, inPatterns, inExclude, inBase⟩
  | baseDirectory value nonempty =>
      exact ⟨trimLength_pos, patterns_ne_nil, inPatterns, inExclude, nonempty⟩

theorem exists_of_readOne {Result : Type} {checked : Checked Result}
    {build : Result → Settings → Settings} {change : Settings → Settings}
    (read : (checked >>= fun result => .ok (build result)) = .ok change) :
    ∃ result, checked = .ok result ∧ build result = change := by
  obtain ⟨result, passed, built⟩ := exists_of_bind_eq_ok read
  exact ⟨result, passed, Except.ok.inj built⟩

theorem ne_nil_of_asList {least : Nat} {value : Value} {patterns : List (List Char)}
    (read : value.asList Value.asNonemptyString least = .ok patterns) :
    ∀ pattern ∈ patterns, pattern ≠ [] := by
  intro pattern member
  obtain ⟨item, passed⟩ := (Value.of_asList read).2 pattern member
  exact Value.ne_nil_of_asNonemptyString passed

theorem ne_nil_of_readBaseDirectory {value : Value} {directory? : Option Path}
    (read : readBaseDirectory value = .ok directory?) :
    ∀ directory ∈ directory?, directory ≠ [] := by
  unfold readBaseDirectory at read
  split at read
  · obtain rfl := Except.ok.inj read
    simp
  · obtain ⟨content, passed, same⟩ := exists_of_bind_eq_ok read
    obtain rfl := Except.ok.inj same
    rintro directory ⟨⟩
    exact Value.ne_nil_of_asNonemptyString passed

theorem readField_sets {name : String} {value : Value} {change : Settings → Settings}
    (read : readField name value = .ok change) : Sets name change := by
  unfold readField at read
  split at read
  · obtain ⟨result, -, rfl⟩ := exists_of_readOne read
    exact .ignoreCase result
  · obtain ⟨result, -, rfl⟩ := exists_of_readOne read
    exact .pathStyle result
  · obtain ⟨result, -, rfl⟩ := exists_of_readOne read
    exact .recursive result
  · obtain ⟨result, passed, rfl⟩ := exists_of_readOne read
    have someResult : result ≠ [] := List.length_pos_iff.mp (Value.of_asList passed).1
    exact .patterns result someResult (ne_nil_of_asList passed)
  · obtain ⟨result, passed, rfl⟩ := exists_of_readOne read
    exact .exclude result (ne_nil_of_asList passed)
  · obtain ⟨result, passed, rfl⟩ := exists_of_readOne read
    exact .trimLength result (Value.pos_of_asPositive passed)
  · obtain ⟨result, passed, rfl⟩ := exists_of_readOne read
    exact .baseDirectory result (ne_nil_of_readBaseDirectory passed)
  · cases read

theorem failsHere_readStyle (value : Value) : (readStyle value).FailsHere := by
  unfold readStyle
  split
  · split
    · exact failsHere_ok _
    · exact failsHere_fault _
  · exact failsHere_fault _

theorem failsHere_readBaseDirectory (value : Value) : (readBaseDirectory value).FailsHere := by
  unfold readBaseDirectory
  split
  · exact failsHere_ok _
  · exact (Value.failsHere_asNonemptyString _).bind fun _ => failsHere_ok _

theorem locationsDistinct_readOne {Result : Type} {checked : Checked Result}
    (distinct : checked.LocationsDistinct) (build : Result → Settings → Settings) :
    LocationsDistinct (checked >>= fun result => .ok (build result)) := by
  rw [LocationsDistinct, errors_bind_ok]
  exact distinct

theorem locationsDistinct_readField (name : String) (value : Value) :
    (readField name value).LocationsDistinct := by
  unfold readField
  split
  · exact locationsDistinct_readOne (Value.failsHere_asBoolean value).locationsDistinct _
  · exact locationsDistinct_readOne (failsHere_readStyle value).locationsDistinct _
  · exact locationsDistinct_readOne (Value.failsHere_asBoolean value).locationsDistinct _
  · exact locationsDistinct_readOne
      (Value.locationsDistinct_asList Value.failsHere_asNonemptyString 1 value) _
  · exact locationsDistinct_readOne
      (Value.locationsDistinct_asList Value.failsHere_asNonemptyString 0 value) _
  · exact locationsDistinct_readOne (Value.failsHere_asPositive value).locationsDistinct _
  · exact locationsDistinct_readOne (failsHere_readBaseDirectory value).locationsDistinct _
  · exact (failsHere_fault _).locationsDistinct

/-- Tables without repetition that give every name the same value give the same settings. -/
theorem ofValue_eq_of_get? {first second : Table} (distinct : first.names.Nodup)
    (alsoDistinct : second.names.Nodup) (same : ∀ name, first.get? name = second.get? name) :
    ofValue (.table first) = ofValue (.table second) :=
  readFields_perm locationsDistinct_readField
    (fun different read otherRead settings =>
      (readField_sets read).commute (readField_sets otherRead) different settings)
    defaults distinct (Table.perm_of_get? distinct alsoDistinct same)

theorem readField_of_unknown {name : String} (unknown : name ∉ fieldNames) (value : Value) :
    readField name value = .fault .unknownField := by
  unfold readField
  split
  all_goals first | rfl | exact absurd (by decide) unknown

/-- A name that is no setting is an error, whatever the other fields are. -/
theorem ofValue_of_unknown {table : Table} {name : String} {value : Value}
    (member : (name, value) ∈ table) (unknown : name ∉ fieldNames) :
    ∃ errors, ofValue (.table table) = .error errors ∧
      ⟨[.field name], .unknownField⟩ ∈ errors := by
  have reported : (⟨[.field name], .unknownField⟩ : FieldError) ∈
      (table.map (checkField readField)).flatMap Checked.errors := by
    refine List.mem_flatMap.mpr ⟨_, List.mem_map_of_mem member, ?_⟩
    rw [errors_checkField, readField_of_unknown unknown]
    exact List.mem_singleton_self _
  rw [ofValue, readFields_eq, if_neg (by
    rw [List.isEmpty_iff]
    exact List.ne_nil_of_mem reported)]
  exact ⟨_, rfl, List.mem_mergeSort.mpr reported⟩

end Settings

end FileSpec
