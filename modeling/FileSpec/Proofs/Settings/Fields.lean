import FileSpec.Proofs.Except
import FileSpec.Proofs.Path.Unique
import FileSpec.Proofs.Settings.Tables
import FileSpec.Proofs.Text.Order
import FileSpec.Settings.Field

/-!
# Fields in any order

What a record is read from is a map: with no name twice, the order of the fields changes neither
the record nor the errors. Errors are at different locations, so their order is settled, and
changes for different names can change places.
-/

set_option autoImplicit false

namespace FileSpec

open Text

theorem LocationStep.text_item_injective :
    Function.Injective fun position => (LocationStep.item position).text :=
  decimal_injective

namespace FieldError

/-- The location of an error, each step as text. -/
def key (error : FieldError) : List (List Char) :=
  error.location.map LocationStep.text

theorem sort_eq_of_perm {errors others : List FieldError} (distinct : (errors.map key).Nodup)
    (perm : errors.Perm others) : sort errors = sort others :=
  mergeSort_notAfter_eq_of_perm key distinct perm

end FieldError

namespace Checked

variable {Result Other : Type}

/-- A check that fails does so with one error, at the place that is checked. -/
def FailsHere (checked : Checked Result) : Prop :=
  checked.errors = [] ∨ ∃ fault, checked.errors = [.here fault]

@[simp]
theorem failsHere_ok (result : Result) : FailsHere (.ok result) :=
  .inl rfl

theorem failsHere_fault (given : Fault) : FailsHere (fault given : Checked Result) :=
  .inr ⟨given, rfl⟩

theorem FailsHere.bind {checked : Checked Result} {next : Result → Checked Other}
    (fails : checked.FailsHere) (afterwards : ∀ result, (next result).FailsHere) :
    FailsHere (checked >>= next) := by
  cases checked with
  | ok result => exact afterwards result
  | error errors => exact fails

/-- No two errors of a check are at the same location. -/
def LocationsDistinct (checked : Checked Result) : Prop :=
  (checked.errors.map FieldError.key).Nodup

theorem FailsHere.locationsDistinct {checked : Checked Result} (fails : checked.FailsHere) :
    checked.LocationsDistinct := by
  unfold LocationsDistinct
  rcases fails with none | ⟨fault, single⟩
  · rw [none]
    exact List.nodup_nil
  · rw [single]
    exact List.nodup_singleton _

@[simp]
theorem errors_bind_ok (checked : Checked Result) (build : Result → Other) :
    errors (checked >>= fun result => .ok (build result)) = checked.errors := by
  cases checked <;> rfl

end Checked

namespace Value

open Checked

theorem failsHere_asBoolean (value : Value) : value.asBoolean.FailsHere := by
  unfold asBoolean
  split
  · exact failsHere_ok _
  · exact failsHere_fault _

theorem failsHere_asNonemptyString (value : Value) : value.asNonemptyString.FailsHere := by
  apply FailsHere.bind
  · unfold asString
    split
    · exact failsHere_ok _
    · exact failsHere_fault _
  · intro content
    cases content with
    | nil => exact failsHere_fault _
    | cons first rest => exact failsHere_ok _

theorem failsHere_asPositive (value : Value) : value.asPositive.FailsHere := by
  apply FailsHere.bind
  · unfold asInteger
    repeat' split
    all_goals first | exact failsHere_ok _ | exact failsHere_fault _
  · intro number
    split
    · exact failsHere_ok _
    · exact failsHere_fault _

variable {Result : Type} {check : Value → Checked Result}

theorem keys_itemErrors_sublist {checked : List (Checked Result)}
    (fails : ∀ result ∈ checked, result.FailsHere) (start : Nat) :
    (((checked.zipIdx start).flatMap fun (result, position) =>
        result.errors.map (·.below (.item position))).map FieldError.key).Sublist
      ((List.range' start checked.length).map fun position =>
        [(LocationStep.item position).text]) := by
  induction checked generalizing start with
  | nil => exact List.Sublist.slnil
  | cons result checked inductionHypothesis =>
      obtain ⟨here, others⟩ := List.forall_mem_cons.mp fails
      have later := inductionHypothesis others (start + 1)
      rw [List.zipIdx_cons, List.flatMap_cons, List.map_append, List.length_cons,
        List.range'_succ, List.map_cons]
      dsimp only
      rcases here with none | ⟨fault, single⟩
      · rw [none]
        exact later.cons _
      · rw [single]
        exact later.cons_cons _

theorem keys_checkItems_sublist (fails : ∀ value, (check value).FailsHere) (items : List Value) :
    ((checkItems check items).2.map FieldError.key).Sublist
      ((List.range items.length).map fun position => [(LocationStep.item position).text]) := by
  have each : ∀ result ∈ items.map check, result.FailsHere := by
    intro result member
    obtain ⟨item, -, rfl⟩ := List.mem_map.mp member
    exact fails item
  have all := keys_itemErrors_sublist each 0
  rwa [List.length_map, ← List.range_eq_range'] at all

/-- A list has the errors of its items, and one of its own if too few of these are right. -/
theorem errors_asList_list (least : Nat) (items : List Value) :
    ((list items).asList check least).errors =
      (checkItems check items).2 ++
        if (checkItems check items).1.length < least then [.here .tooFewItems] else [] := by
  dsimp only [asList]
  generalize checkItems check items = checked
  obtain ⟨results, errors⟩ := checked
  have reported (all : List FieldError) :
      (if all.isEmpty then .ok results else .error all : Checked (List Result)).errors = all := by
    cases all <;> rfl
  dsimp only
  rw [reported]
  split
  · rfl
  · exact (List.append_nil errors).symm

/-- The errors of a list are at its items, and one may be at the list itself. -/
theorem locationsDistinct_asList (fails : ∀ value, (check value).FailsHere) (least : Nat)
    (value : Value) : (value.asList check least).LocationsDistinct := by
  cases value with
  | list items =>
      have positions : ((List.range items.length).map fun position =>
          [(LocationStep.item position).text]).Nodup := by
        apply List.nodup_range.map
        intro first second same
        exact LocationStep.text_item_injective (List.singleton_inj.mp same)
      have itemKeys := keys_checkItems_sublist fails items
      have itemsDistinct := positions.sublist itemKeys
      rw [LocationsDistinct, errors_asList_list]
      split
      · rw [List.map_append]
        refine List.nodup_append.mpr ⟨itemsDistinct, List.nodup_singleton _, ?_⟩
        rintro itemKey member ownKey single rfl
        obtain ⟨position, -, same⟩ := List.mem_map.mp (itemKeys.subset member)
        rw [List.map_singleton, List.mem_singleton] at single
        rw [single] at same
        cases same
      · rw [List.append_nil]
        exact itemsDistinct
  | _ => exact (failsHere_fault _).locationsDistinct

end Value

/-- The check of one field, with its errors below the name of the field. -/
def checkField {Record : Type} (readField : String → Value → Checked (Record → Record))
    (field : String × Value) : Checked (Record → Record) :=
  (readField field.1 field.2).mapError fun errors => errors.map (·.below (.field field.1))

section ReadFields

variable {Record : Type} {readField : String → Value → Checked (Record → Record)}

theorem readFields_eq (start : Record) (fields : Table) :
    readFields readField start (.table fields) =
      if ((fields.map (checkField readField)).flatMap Checked.errors).isEmpty then
        .ok (((fields.map (checkField readField)).filterMap Except.toOption).foldl
          (fun record change => change record) start)
      else .error (FieldError.sort ((fields.map (checkField readField)).flatMap Checked.errors)) :=
  rfl

@[simp]
theorem errors_checkField (field : String × Value) :
    (checkField readField field).errors =
      (readField field.1 field.2).errors.map (·.below (.field field.1)) := by
  unfold checkField
  cases readField field.1 field.2 <;> rfl

theorem checkField_eq_ok_iff {field : String × Value} {change : Record → Record} :
    checkField readField field = .ok change ↔ readField field.1 field.2 = .ok change :=
  mapError_eq_ok_iff

theorem exists_field_of_change {fields : Table} {change : Record → Record}
    (member : change ∈ (fields.map (checkField readField)).filterMap Except.toOption) :
    ∃ field ∈ fields, readField field.1 field.2 = .ok change := by
  obtain ⟨field, present, checked⟩ := List.mem_map.mp (mem_filterMap_toOption.mp member)
  exact ⟨field, present, checkField_eq_ok_iff.mp checked⟩

theorem keys_errors_checkField (field : String × Value) :
    (checkField readField field).errors.map FieldError.key =
      ((readField field.1 field.2).errors.map FieldError.key).map (field.1.toList :: ·) := by
  rw [errors_checkField, List.map_map, List.map_map]
  rfl

theorem keys_errors_nodup (distinct : ∀ name value, (readField name value).LocationsDistinct)
    {fields : Table} (names : fields.names.Nodup) :
    (((fields.map (checkField readField)).flatMap Checked.errors).map FieldError.key).Nodup := by
  rw [List.map_flatMap, List.flatMap_map, List.nodup_flatMap]
  constructor
  · intro field _
    rw [keys_errors_checkField]
    exact (distinct field.1 field.2).map (List.cons_injective)
  · refine (List.pairwise_map.mp names).imp ?_
    intro field other different location here there
    dsimp only at here there
    rw [keys_errors_checkField] at here there
    obtain ⟨rest, -, rfl⟩ := List.mem_map.mp here
    obtain ⟨otherRest, -, same⟩ := List.mem_map.mp there
    exact different (String.toList_injective (List.cons.inj same).1.symm)

/-- Where the changes of different names do not interfere, the order of the fields is free. -/
theorem readFields_perm (distinct : ∀ name value, (readField name value).LocationsDistinct)
    (commute : ∀ {name other : String} {value otherValue : Value}
      {change otherChange : Record → Record}, name ≠ other →
      readField name value = .ok change → readField other otherValue = .ok otherChange →
      ∀ record, change (otherChange record) = otherChange (change record))
    (start : Record) {fields others : Table} (names : fields.names.Nodup)
    (perm : fields.Perm others) :
    readFields readField start (.table fields) = readFields readField start (.table others) := by
  have checked := perm.map (checkField readField)
  have errors := checked.flatMap_right Checked.errors
  have changes := checked.filterMap Except.toOption
  have sorted := FieldError.sort_eq_of_perm (keys_errors_nodup distinct names) errors
  have applied : ∀ change ∈ (fields.map (checkField readField)).filterMap Except.toOption,
      ∀ other ∈ (fields.map (checkField readField)).filterMap Except.toOption,
      ∀ record, other (change record) = change (other record) := by
    intro change member other otherMember record
    obtain ⟨field, present, given⟩ := exists_field_of_change member
    obtain ⟨otherField, otherPresent, otherGiven⟩ := exists_field_of_change otherMember
    by_cases sameName : field.1 = otherField.1
    · obtain rfl := List.inj_on_of_nodup_map names present otherPresent sameName
      rw [given] at otherGiven
      rw [Except.ok.inj otherGiven]
    · exact (commute sameName given otherGiven record).symm
  rw [readFields_eq, readFields_eq, sorted, errors.isEmpty_eq, changes.foldl_eq' applied start]

end ReadFields

end FileSpec
