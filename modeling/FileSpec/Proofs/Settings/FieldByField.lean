import FileSpec.Proofs.Settings.Validation

/-!
# Settings field by field

A table has the errors of its fields, each read alone, and gives settings if there are none. These
are valid, and valid settings are read back from the table that is made of them:
`ofValue_by_fields`.
-/

set_option autoImplicit false

namespace FileSpec

section ReadFields

variable {Record : Type} {readField : String → Value → Checked (Record → Record)}

theorem errors_readFields (start : Record) (fields : Table) :
    (readFields readField start (.table fields)).errors.Perm
      (fields.flatMap fun field => (checkField readField field).errors) := by
  rw [readFields_eq, List.flatMap_map]
  split
  · next clean =>
      rw [List.isEmpty_iff.mp clean]
      exact .nil
  · exact List.mergeSort_perm _ _

/-- The errors of a table are those of its fields, each read alone. -/
theorem errors_readFields_by_fields (start : Record) (fields : Table) :
    (readFields readField start (.table fields)).errors.Perm
      (fields.flatMap fun field =>
        (readFields readField start (.table [field])).errors) := by
  have alone (field : String × Value) :
      (readFields readField start (.table [field])).errors.Perm
        (checkField readField field).errors := by
    rw [← List.flatMap_singleton (fun other => (checkField readField other).errors) field]
    exact errors_readFields start [field]
  exact (errors_readFields start fields).trans
    (List.Perm.flatMap_left fields fun field _ => (alone field).symm)

/-- Where there is no record, there is an error to show for it. -/
theorem exists_readFields_iff {start : Record} {fields : Table} :
    (∃ record, readFields readField start (.table fields) = .ok record) ↔
      (readFields readField start (.table fields)).errors = [] := by
  constructor
  · rintro ⟨record, read⟩
    rw [read]
    rfl
  · intro clean
    have none := (clean ▸ errors_readFields start fields).nil_eq
    rw [readFields_eq, List.flatMap_map, ← none]
    exact ⟨_, rfl⟩

/-- What holds of the start and is kept by the change of every field holds of the record. -/
theorem readFields_keeps {Holds : Record → Prop} {start : Record} (holds : Holds start)
    (keeps : ∀ {name : String} {value : Value} {change : Record → Record},
      readField name value = .ok change → ∀ {record : Record}, Holds record → Holds (change record))
    {value : Value} {record : Record} (read : readFields readField start value = .ok record) :
    Holds record := by
  cases value with
  | table fields =>
      rw [readFields_eq] at read
      split at read
      · obtain rfl := Except.ok.inj read
        -- The induction is on the changes made so far, each of which is that of a field.
        refine List.foldlRecOn _ _ holds fun earlier held change member => ?_
        obtain ⟨field, -, given⟩ := exists_field_of_change member
        exact keeps given held
      · cases read
  | _ => cases read

/-- Fields that are all read make their changes one after the other. -/
theorem readFields_of_changes {start : Record} {fields : Table} {changes : List (Record → Record)}
    (given : List.Forall₂ (fun field change => readField field.1 field.2 = .ok change)
      fields changes) :
    readFields readField start (.table fields) =
      .ok (changes.foldl (fun record change => change record) start) := by
  have checked : fields.map (checkField readField) = changes.map .ok := by
    induction given with
    | nil => rfl
    | cons first _ inductionHypothesis =>
        rw [List.map_cons, List.map_cons, checkField_eq_ok_iff.mpr first, inductionHypothesis]
  have clean : (changes.map fun change => (.ok change : Checked (Record → Record))).flatMap
      Checked.errors = [] := by
    simp [List.flatMap_map, Checked.errors]
  rw [readFields_eq, checked, clean, filterMap_toOption_map_ok]
  rfl

end ReadFields

namespace Settings

/-- The errors that each field of a table has alone. -/
def fieldErrors (table : Table) : List FieldError :=
  table.flatMap fun field => (ofValue (.table [field])).errors

theorem errors_ofValue (table : Table) :
    (ofValue (.table table)).errors.Perm (fieldErrors table) :=
  errors_readFields_by_fields defaults table

theorem exists_ofValue_iff {table : Table} :
    (∃ settings, ofValue (.table table) = .ok settings) ↔ fieldErrors table = [] := by
  rw [ofValue, exists_readFields_iff, ← List.perm_nil, ← List.perm_nil]
  exact (errors_ofValue table).congr_left _

theorem isValid_of_ofValue {value : Value} {settings : Settings}
    (read : ofValue value = .ok settings) : settings.IsValid :=
  readFields_keeps isValid_defaults (fun given _ valid => (readField_sets given).isValid valid) read

@[simp]
theorem readStyle_name (style : PathStyle) : readStyle (.text style.name) = .ok style := by
  cases style <;> decide

@[simp]
theorem asNonemptyString_text {content : List Char} (nonempty : content ≠ []) :
    Value.asNonemptyString (.text (String.ofList content)) = .ok content := by
  obtain ⟨first, rest, rfl⟩ := List.exists_cons_of_ne_nil nonempty
  simp [Value.asNonemptyString, Value.asString, bind, Except.bind]

theorem asList_texts {patterns : List (List Char)} (nonempty : ∀ pattern ∈ patterns, pattern ≠ [])
    {least : Nat} (enough : least ≤ patterns.length) :
    (Value.list (patterns.map fun pattern => .text (String.ofList pattern))).asList
      Value.asNonemptyString least = .ok patterns := by
  refine Value.asList_of_checked ?_ enough
  rw [List.map_map]
  exact List.map_congr_left fun pattern member => asNonemptyString_text (nonempty pattern member)

theorem readBaseDirectory_of_valid {settings : Settings} (valid : settings.IsValid) :
    readBaseDirectory (match settings.baseDirectory? with
      | some directory => .text (String.ofList directory)
      | none => .null) = .ok settings.baseDirectory? := by
  have nonempty := valid.ne_nil_of_baseDirectory
  generalize settings.baseDirectory? = directory? at nonempty ⊢
  cases directory? with
  | none => rfl
  | some directory =>
      dsimp only [readBaseDirectory]
      rw [asNonemptyString_text (nonempty directory rfl)]
      rfl

theorem readOne_of_passed {Result : Type} {checked : Checked Result} {result : Result}
    (passed : checked = .ok result) (build : Result → Settings → Settings) :
    (checked >>= fun result => .ok (build result)) = .ok (build result) := by
  rw [passed]
  rfl

/-- The changes that make any settings these, in the order of their table. -/
def changes (settings : Settings) : List (Settings → Settings) :=
  [fun other => { other with ignoreCase := settings.ignoreCase },
    fun other => { other with pathStyle := settings.pathStyle },
    fun other => { other with recursive := settings.recursive },
    fun other => { other with patterns := settings.patterns },
    fun other => { other with exclude := settings.exclude },
    fun other => { other with trimLength := settings.trimLength },
    fun other => { other with baseDirectory? := settings.baseDirectory? }]

theorem IsValid.reads_toTable {settings : Settings} (valid : settings.IsValid) :
    List.Forall₂ (fun field change => readField field.1 field.2 = .ok change)
      settings.toTable settings.changes := by
  have somePattern : 1 ≤ settings.patterns.length := List.length_pos_iff.mpr valid.patterns_ne_nil
  have positive : (Value.integer settings.trimLength).asPositive = .ok settings.trimLength :=
    if_pos valid.trimLength_pos
  have patterns := asList_texts valid.ne_nil_of_mem_patterns somePattern
  have exclude := asList_texts valid.ne_nil_of_mem_exclude (Nat.zero_le _)
  have directory := readBaseDirectory_of_valid valid
  refine .cons ?_ (.cons ?_ (.cons ?_ (.cons ?_ (.cons ?_ (.cons ?_ (.cons ?_ .nil))))))
  · rfl
  · exact readOne_of_passed (readStyle_name settings.pathStyle) _
  · rfl
  · exact readOne_of_passed patterns _
  · exact readOne_of_passed exclude _
  · exact readOne_of_passed positive _
  · exact readOne_of_passed directory _

/-- Valid settings are what their own table says. -/
theorem IsValid.ofValue_toTable {settings : Settings} (valid : settings.IsValid) :
    ofValue (.table settings.toTable) = .ok settings :=
  readFields_of_changes valid.reads_toTable

/-- The errors of a table are those that its fields have alone, and it gives settings exactly if
these are none. Settings that are read are valid and are read again from their own table, and so
are all valid ones. -/
theorem ofValue_by_fields (table : Table) :
    (ofValue (.table table)).errors.Perm (fieldErrors table) ∧
      ((∃ settings, ofValue (.table table) = .ok settings) ↔ fieldErrors table = []) ∧
      (∀ settings, ofValue (.table table) = .ok settings →
        settings.IsValid ∧ ofValue (.table settings.toTable) = .ok settings) ∧
      ∀ settings : Settings, settings.IsValid → ofValue (.table settings.toTable) = .ok settings := by
  refine ⟨errors_ofValue table, exists_ofValue_iff, fun settings read => ?_,
    fun settings valid => valid.ofValue_toTable⟩
  have valid := isValid_of_ofValue read
  exact ⟨valid, valid.ofValue_toTable⟩

theorem ofValue_by_fields_freelyWritten :
    let table : Table := [("path_style", .text "WINDOWs"), ("exclude", .list [.text "*.bak"]),
      ("trim_length", .text " +0_1_2.00 "), ("base_directory", .null)]
    let settings : Settings :=
      { defaults with pathStyle := .windows, exclude := ["*.bak".toList], trimLength := 12 }
    ofValue (.table table) = .ok settings ∧ fieldErrors table = [] ∧ settings.IsValid ∧
      ofValue (.table settings.toTable) = .ok settings := by
  intro table settings
  have read : ofValue (.table table) = .ok settings := rfl
  obtain ⟨-, given_iff, validAgain, -⟩ := ofValue_by_fields table
  obtain ⟨valid, readAgain⟩ := validAgain settings read
  exact ⟨read, given_iff.mp ⟨settings, read⟩, valid, readAgain⟩

end Settings

end FileSpec
