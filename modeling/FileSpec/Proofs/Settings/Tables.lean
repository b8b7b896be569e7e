import FileSpec.Settings.Layers
import Mathlib.Data.List.Nodup
import Mathlib.Data.List.Perm.Basic

/-!
# Tables as maps

A table in which no name occurs twice is a map from names to values, up to the order of its fields.
All that changes tables keeps their names apart, at every depth.
-/

set_option autoImplicit false

namespace FileSpec

namespace Table

def names (table : Table) : List String :=
  table.map (·.1)

@[simp]
theorem names_nil : Table.names [] = [] := rfl

@[simp]
theorem names_cons (field : String × Value) (others : Table) :
    Table.names (field :: others) = field.1 :: Table.names others := rfl

theorem get?_eq_none_iff (table : Table) (name : String) :
    table.get? name = none ↔ name ∉ table.names := by
  induction table with
  | nil => simp
  | cons field others inductionHypothesis =>
      rw [get?_cons]
      by_cases same : name = field.1
      · simp [same]
      · rw [if_neg same, inductionHypothesis]
        simp [same]

theorem mem_of_get? {table : Table} {name : String} {value : Value}
    (found : table.get? name = some value) : (name, value) ∈ table := by
  induction table with
  | nil => cases found
  | cons field others inductionHypothesis =>
      rw [get?_cons] at found
      split at found
      · next same =>
          rw [same, ← Option.some.inj found]
          exact List.mem_cons_self
      · exact List.mem_cons_of_mem _ (inductionHypothesis found)

theorem get?_of_mem {table : Table} (distinct : table.names.Nodup) {name : String} {value : Value}
    (member : (name, value) ∈ table) : table.get? name = some value := by
  induction table with
  | nil => cases member
  | cons field others inductionHypothesis =>
      rw [names_cons, List.nodup_cons] at distinct
      rw [get?_cons]
      rcases List.mem_cons.mp member with rfl | later
      · rw [if_pos rfl]
      · have different : name ≠ field.1 := by
          intro same
          apply distinct.1
          rw [← same]
          exact List.mem_map_of_mem later
        rw [if_neg different]
        exact inductionHypothesis distinct.2 later

/-- Tables that give every name the same value differ in the order of their fields only. -/
theorem perm_of_get? {first second : Table} (distinct : first.names.Nodup)
    (alsoDistinct : second.names.Nodup) (same : ∀ name, first.get? name = second.get? name) :
    first.Perm second := by
  rw [List.perm_ext_iff_of_nodup distinct.of_map alsoDistinct.of_map]
  rintro ⟨name, value⟩
  constructor
  · intro member
    apply mem_of_get?
    rw [← same]
    exact get?_of_mem distinct member
  · intro member
    apply mem_of_get?
    rw [same]
    exact get?_of_mem alsoDistinct member

theorem get?_put (name : String) (value : Value) (table : Table) (other : String) :
    (table.put name value).get? other = if other = name then some value else table.get? other := by
  induction table with
  | nil => rw [put, get?_cons]
  | cons field others inductionHypothesis =>
      rw [put]
      split
      · next same =>
          rw [get?_cons, get?_cons, same]
          split <;> rfl
      · next different =>
          rw [get?_cons, get?_cons, inductionHypothesis]
          by_cases here : other = field.1
          · rw [if_pos here, if_pos here, if_neg (here ▸ different)]
          · rw [if_neg here, if_neg here]

theorem mem_put {table : Table} {name other : String} {value old : Value}
    (member : (other, old) ∈ table.put name value) : (other, old) ∈ table ∨ old = value := by
  induction table with
  | nil =>
      obtain ⟨-, rfl⟩ := Prod.mk.inj (List.mem_singleton.mp member)
      exact .inr rfl
  | cons field others inductionHypothesis =>
      rw [put] at member
      split at member
      · rcases List.mem_cons.mp member with same | later
        · exact .inr (Prod.mk.inj same).2
        · exact .inl (List.mem_cons_of_mem _ later)
      · rcases List.mem_cons.mp member with same | later
        · exact .inl (same ▸ List.mem_cons_self)
        · exact (inductionHypothesis later).imp_left (List.mem_cons_of_mem _)

@[simp]
theorem mem_names_put {name other : String} {value : Value} {table : Table} :
    other ∈ (table.put name value).names ↔ other = name ∨ other ∈ table.names := by
  have absent := get?_eq_none_iff (table.put name value) other
  rw [get?_put] at absent
  by_cases same : other = name
  · simpa [same] using absent
  · rw [if_neg same, get?_eq_none_iff] at absent
    simpa [same] using (not_iff_not.mp absent).symm

theorem nodup_names_put (name : String) (value : Value) {table : Table}
    (distinct : table.names.Nodup) : (table.put name value).names.Nodup := by
  induction table with
  | nil => exact List.nodup_singleton name
  | cons field others inductionHypothesis =>
      rw [names_cons, List.nodup_cons] at distinct
      rw [put]
      split
      · next same =>
          rw [names_cons, List.nodup_cons, ← same]
          exact distinct
      · next different =>
          rw [names_cons, List.nodup_cons]
          refine ⟨?_, inductionHypothesis distinct.2⟩
          intro later
          rcases mem_names_put.mp later with same | present
          · exact different same
          · exact distinct.1 present

theorem get?_override (below : Table) {above : Table} (distinct : above.names.Nodup)
    (name : String) : (below.override above).get? name = (above.get? name <|> below.get? name) := by
  induction above generalizing below with
  | nil => simp [override]
  | cons field others inductionHypothesis =>
      obtain ⟨present, value⟩ := field
      rw [names_cons, List.nodup_cons] at distinct
      have later := inductionHypothesis (below.put present value) distinct.2
      rw [override] at later
      rw [override, List.foldl_cons, later, get?_put, get?_cons]
      by_cases same : name = present
      · subst same
        rw [(get?_eq_none_iff others name).mpr distinct.1, if_pos rfl, if_pos rfl]
        rfl
      · rw [if_neg same, if_neg same]

theorem nodup_names_override {below : Table} (distinct : below.names.Nodup) (above : Table) :
    (below.override above).names.Nodup := by
  induction above generalizing below with
  | nil => exact distinct
  | cons field others inductionHypothesis =>
      exact inductionHypothesis (nodup_names_put field.1 field.2 distinct)

theorem nodup_names_mergeLayers (layers : List (Option Table)) :
    (mergeLayers layers).names.Nodup := by
  suffices kept : ∀ (tables : List Table) (below : Table), below.names.Nodup →
      (tables.foldl override below).names.Nodup from kept _ [] List.nodup_nil
  intro tables
  induction tables with
  | nil => exact fun below distinct => distinct
  | cons table tables inductionHypothesis =>
      exact fun below distinct => inductionHypothesis _ (nodup_names_override distinct table)

theorem get?_foldl_override (tables : List Table) (distinct : ∀ table ∈ tables, table.names.Nodup)
    (below : Table) (name : String) :
    (tables.foldl override below).get? name =
      (tables.reverse.findSome? (·.get? name) <|> below.get? name) := by
  induction tables generalizing below with
  | nil => simp
  | cons table tables inductionHypothesis =>
      rw [List.foldl_cons,
        inductionHypothesis fun other member => distinct other (List.mem_cons_of_mem _ member),
        get?_override below (distinct table List.mem_cons_self), List.reverse_cons,
        List.findSome?_append]
      cases above : tables.reverse.findSome? (·.get? name) <;>
        cases here : table.get? name <;> simp [here]

/-- The last of the layers that has a name gives its value. -/
theorem get?_mergeLayers (layers : List (Option Table))
    (distinct : ∀ layer ∈ layers, (layer.getD []).names.Nodup) (name : String) :
    (mergeLayers layers).get? name =
      (layers.map (·.getD [])).reverse.findSome? (·.get? name) := by
  have allDistinct : ∀ table ∈ layers.map (·.getD []), table.names.Nodup := by
    intro table member
    obtain ⟨layer, present, rfl⟩ := List.mem_map.mp member
    exact distinct layer present
  rw [mergeLayers, get?_foldl_override _ allDistinct]
  simp

theorem get?_withoutNulls {table : Table} (distinct : table.names.Nodup) (name : String) :
    table.withoutNulls.get? name = (table.get? name).filter (!isNull ·) := by
  induction table with
  | nil => rfl
  | cons field others inductionHypothesis =>
      obtain ⟨present, value⟩ := field
      rw [names_cons, List.nodup_cons] at distinct
      have later := inductionHypothesis distinct.2
      rw [withoutNulls] at later
      rw [withoutNulls, List.filter_cons, get?_cons]
      by_cases same : name = present
      · subst same
        rw [(get?_eq_none_iff others name).mpr distinct.1] at later
        cases null : isNull value with
        | false => simp [Option.filter, null]
        | true => simp [Option.filter, null, later]
      · cases null : isNull value with
        | false => simp [same, later]
        | true => simp [same, later]

theorem nodup_names_withoutNulls {table : Table} (distinct : table.names.Nodup) :
    table.withoutNulls.names.Nodup :=
  distinct.sublist (List.filter_sublist.map _)

end Table

end FileSpec
