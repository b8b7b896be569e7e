import FileSpec.Proofs.Except
import FileSpec.Proofs.Settings.Tables
import FileSpec.Toml.Document

/-!
# Names in documents

A document defines no name twice, in any of the tables that it holds. Every statement adds a name
where it is new, or puts a changed table back under the name that it had.
-/

set_option autoImplicit false

namespace FileSpec

/-- In a value no table has a name twice, at any depth. -/
inductive Value.NamesDistinct : Value → Prop where
  | plain {value : Value} : Toml.isExtensible value = false → NamesDistinct value
  | list {items : List Value} : (∀ item ∈ items, NamesDistinct item) → NamesDistinct (.list items)
  | table {fields : Table} :
      fields.names.Nodup → (∀ name value, (name, value) ∈ fields → NamesDistinct value) →
      NamesDistinct (.table fields)

def Table.NamesDistinct (table : Table) : Prop :=
  Value.NamesDistinct (.table table)

namespace Value.NamesDistinct

theorem item {items : List Value} (distinct : NamesDistinct (.list items)) {value : Value}
    (member : value ∈ items) : NamesDistinct value := by
  cases distinct with
  | plain scalar => cases scalar
  | list each => exact each value member

end Value.NamesDistinct

namespace Table.NamesDistinct

variable {table : Table}

theorem empty : Table.NamesDistinct [] :=
  .table List.nodup_nil nofun

theorem nodup (distinct : table.NamesDistinct) : table.names.Nodup := by
  cases distinct with
  | plain scalar => cases scalar
  | table nodup each => exact nodup

theorem value (distinct : table.NamesDistinct) {name : String} {value : Value}
    (member : (name, value) ∈ table) : value.NamesDistinct := by
  cases distinct with
  | plain scalar => cases scalar
  | table nodup each => exact each name value member

theorem get? (distinct : table.NamesDistinct) {name : String} {value : Value}
    (found : table.get? name = some value) : value.NamesDistinct :=
  distinct.value (mem_of_get? found)

theorem put (distinct : table.NamesDistinct) (name : String) {value : Value}
    (valueDistinct : value.NamesDistinct) : (table.put name value).NamesDistinct := by
  refine .table (nodup_names_put name value distinct.nodup) ?_
  intro other old member
  rcases mem_put member with before | rfl
  · exact distinct.value before
  · exact valueDistinct

theorem append_new (distinct : table.NamesDistinct) {name : String} {value : Value}
    (valueDistinct : value.NamesDistinct) (new : table.get? name = none) :
    Table.NamesDistinct (table ++ [(name, value)]) := by
  refine .table ?_ ?_
  · rw [names, List.map_append, List.map_singleton]
    refine List.nodup_append.mpr ⟨distinct.nodup, List.nodup_singleton name, ?_⟩
    rintro present member other single rfl
    rw [List.mem_singleton.mp single] at member
    exact (get?_eq_none_iff table name).mp new member
  · intro other old member
    rcases List.mem_append.mp member with before | last
    · exact distinct.value before
    · obtain ⟨-, rfl⟩ := Prod.mk.inj (List.mem_singleton.mp last)
      exact valueDistinct

theorem add? {name : String} {value : Value} (valueDistinct : value.NamesDistinct)
    {result : Table} (distinct : table.NamesDistinct)
    (added : table.add? name value = some result) : result.NamesDistinct := by
  unfold Table.add? at added
  split at added
  · cases added
  · next new =>
      rw [← Option.some.inj added]
      exact distinct.append_new valueDistinct (by simpa using new)

theorem addToList? {name : String} {result : Table} (distinct : table.NamesDistinct)
    (added : table.addToList? name = some result) : result.NamesDistinct := by
  unfold Table.addToList? at added
  split at added
  · next new =>
      rw [← Option.some.inj added]
      refine distinct.append_new (.list ?_) new
      intro item member
      rw [List.mem_singleton.mp member]
      exact empty
  · next items found =>
      rw [← Option.some.inj added]
      refine distinct.put name (.list ?_)
      intro item member
      rcases List.mem_append.mp member with before | last
      · exact (distinct.get? found).item before
      · rw [List.mem_singleton.mp last]
        exact empty
  · cases added

/-- A change that keeps names apart does so at the end of every key. -/
theorem updateAt? {throughLists : Bool} {change : Table → Option Table}
    (keeps : ∀ inner result : Table, inner.NamesDistinct → change inner = some result →
      result.NamesDistinct) {names : List String} {result : Table}
    (distinct : table.NamesDistinct)
    (updated : table.updateAt? throughLists change names = some result) :
    result.NamesDistinct := by
  induction names generalizing table result with
  | nil => exact keeps table result distinct updated
  | cons name names inductionHypothesis =>
      unfold Table.updateAt? at updated
      split at updated
      · obtain ⟨inner, created, same⟩ := Option.bind_eq_some_iff.mp updated
        rw [← Option.some.inj same]
        exact distinct.put name (inductionHypothesis .empty created)
      · next inner found =>
          obtain ⟨changed, below, same⟩ := Option.bind_eq_some_iff.mp updated
          rw [← Option.some.inj same]
          exact distinct.put name (inductionHypothesis (distinct.get? found) below)
      · next items found =>
          split at updated
          · next inner last =>
              obtain ⟨changed, below, same⟩ := Option.bind_eq_some_iff.mp updated
              have items := distinct.get? found
              have lastDistinct := items.item (List.mem_of_getLast? last)
              rw [← Option.some.inj same]
              refine distinct.put name (.list ?_)
              intro item member
              rcases List.mem_append.mp member with before | final
              · exact items.item (List.dropLast_subset _ before)
              · rw [List.mem_singleton.mp final]
                exact inductionHypothesis lastDistinct below
          · cases updated
      · cases updated

end Table.NamesDistinct

namespace Toml

theorem isExtensible_readDecimal? {text : List Char} {value : Value} {left : List Char}
    (read : readDecimal? text = some (.ok (value, left))) : isExtensible value = false := by
  unfold readDecimal? at read
  obtain ⟨whole, -, rest⟩ := Option.bind_eq_some_iff.mp read
  dsimp only at rest
  split at rest
  · split at rest
    · cases rest
    · cases rest
      rfl
  · cases rest
    rfl

theorem isExtensible_readSpecial? {text : List Char} {value : Value} {left : List Char}
    (read : readSpecial? text = some (value, left)) : isExtensible value = false := by
  unfold readSpecial? at read
  dsimp only at read
  split at read <;> cases read <;> rfl

/-- What is read here, if anything, is neither a table nor a list. -/
def ReadsPlain (reading? : Option (Except Defect (Reading Value))) : Prop :=
  ∀ value left, reading? = some (.ok (value, left)) → isExtensible value = false

theorem ReadsPlain.orElse {first second : Option (Except Defect (Reading Value))}
    (plain : ReadsPlain first) (otherwise : ReadsPlain second) : ReadsPlain (first <|> second) := by
  cases first with
  | none => simpa using otherwise
  | some reading => simpa using plain

theorem readsPlain_map {Result : Type} (reading? : Option Result)
    (build : Result → Except Defect (Reading Value))
    (plain : ∀ result value left, build result = .ok (value, left) → isExtensible value = false) :
    ReadsPlain (reading?.map build) := by
  intro value left read
  obtain ⟨result, -, built⟩ := Option.map_eq_some_iff.mp read
  exact plain result value left built

theorem isExtensible_readScalar {text : List Char} {value : Value} {left : List Char}
    (read : readScalar text = .ok (value, left)) : isExtensible value = false := by
  unfold readScalar at read
  dsimp only at read
  rw [Option.getD_eq_iff] at read
  rcases read with found | ⟨-, failed⟩
  · refine ReadsPlain.orElse ?dateTime (ReadsPlain.orElse ?time (ReadsPlain.orElse ?based
      (ReadsPlain.orElse ?decimal ?special))) value left found
    case dateTime =>
      apply readsPlain_map
      intro reading value left mapped
      cases reading <;> cases mapped
      rfl
    case time =>
      apply readsPlain_map
      intro reading value left mapped
      cases mapped
      rfl
    case based =>
      apply readsPlain_map
      intro reading value left mapped
      cases mapped
      rfl
    case decimal => exact fun value left => isExtensible_readDecimal?
    case special =>
      intro value left read
      obtain ⟨reading, special, same⟩ := Option.map_eq_some_iff.mp read
      cases same
      exact isExtensible_readSpecial? special
  · cases failed

/-- A reader of values whose tables have no name twice. -/
def ReadsDistinct (read : List Char → Except Defect (Reading Value)) : Prop :=
  ∀ text value left, read text = .ok (value, left) → value.NamesDistinct

variable {readValue : List Char → Except Defect (Reading Value)}

theorem namesDistinct_readPair (distinct : ReadsDistinct readValue) {text : List Char} {key : Key}
    {value : Value} {left : List Char} (read : readPair readValue text = .ok ((key, value), left)) :
    value.NamesDistinct := by
  obtain ⟨⟨first, afterKey⟩, -, afterwards⟩ := exists_of_bind_eq_ok read
  dsimp only at afterwards
  split at afterwards
  · obtain ⟨⟨given, rest⟩, found, same⟩ := exists_of_bind_eq_ok afterwards
    cases same
    exact distinct _ _ _ found
  · cases afterwards

theorem namesDistinct_readItems (distinct : ReadsDistinct readValue) {fuel : Nat}
    {text left : List Char} {items : List Value}
    (read : readItems readValue fuel text = .ok (items, left)) :
    ∀ item ∈ items, item.NamesDistinct := by
  induction fuel generalizing text items left with
  | zero => cases read
  | succ fuel inductionHypothesis =>
      obtain ⟨start, -, afterStart⟩ := exists_of_bind_eq_ok read
      dsimp only at afterStart
      split at afterStart
      · cases afterStart
        exact nofun
      · obtain ⟨⟨item, afterItem⟩, found, afterwards⟩ := exists_of_bind_eq_ok afterStart
        have itemDistinct := distinct _ _ _ found
        obtain ⟨next, -, ending⟩ := exists_of_bind_eq_ok afterwards
        dsimp only at ending
        split at ending
        · cases ending
          intro other member
          rw [List.mem_singleton.mp member]
          exact itemDistinct
        · obtain ⟨⟨others, rest⟩, more, same⟩ := exists_of_bind_eq_ok ending
          cases same
          exact List.forall_mem_cons.mpr ⟨itemDistinct, inductionHypothesis more⟩
        · cases ending

theorem eq_some_of_orMalformed {Result : Type} {result? : Option Result} {result : Result}
    (given : orMalformed result? = .ok result) : result? = some result := by
  cases result? with
  | none => cases given
  | some other => rw [Except.ok.inj given]

theorem namesDistinct_readFields (distinct : ReadsDistinct readValue) {fuel : Nat}
    {closed : List Route} {text left : List Char} {table fields : Table}
    (before : table.NamesDistinct)
    (read : readFields readValue fuel closed table text = .ok (fields, left)) :
    fields.NamesDistinct := by
  induction fuel generalizing closed table text left with
  | zero => cases read
  | succ fuel inductionHypothesis =>
      obtain ⟨⟨⟨key, value⟩, afterPair⟩, found, afterwards⟩ := exists_of_bind_eq_ok read
      have valueDistinct := namesDistinct_readPair distinct found
      dsimp only at afterwards
      split at afterwards
      · cases afterwards
      · obtain ⟨extended, added, ending⟩ := exists_of_bind_eq_ok afterwards
        have extendedDistinct : extended.NamesDistinct :=
          Table.NamesDistinct.updateAt? (fun _ _ => Table.NamesDistinct.add? valueDistinct) before
            (eq_some_of_orMalformed added)
        split at ending
        · cases ending
          exact extendedDistinct
        · exact inductionHypothesis extendedDistinct ending
        · cases ending

theorem readsDistinct_readValue (fuel : Nat) : ReadsDistinct (Toml.readValue fuel) := by
  induction fuel with
  | zero => exact fun text value left read => nomatch read
  | succ fuel inductionHypothesis =>
      intro text value left read
      unfold Toml.readValue at read
      split at read
      · obtain ⟨⟨content, rest⟩, -, same⟩ := exists_of_bind_eq_ok read
        cases same
        exact .plain rfl
      · split at read
        · cases read
          exact .plain rfl
        · cases read
          exact .plain rfl
        · obtain ⟨⟨items, rest⟩, found, same⟩ := exists_of_bind_eq_ok read
          cases same
          exact .list (namesDistinct_readItems inductionHypothesis found)
        · split at read
          · cases read
            exact Table.NamesDistinct.empty
          · obtain ⟨⟨fields, rest⟩, found, same⟩ := exists_of_bind_eq_ok read
            cases same
            exact namesDistinct_readFields inductionHypothesis .empty found
        · exact .plain (isExtensible_readScalar read)

namespace Document

variable {document result : Document}

theorem namesDistinct_openTable {route : Route} (before : document.content.NamesDistinct)
    (opened : document.openTable route = .ok result) : result.content.NamesDistinct := by
  unfold openTable at opened
  split at opened
  · cases opened
  · obtain ⟨content, updated, same⟩ := exists_of_bind_eq_ok opened
    cases same
    refine Table.NamesDistinct.updateAt? ?_ before (eq_some_of_orMalformed updated)
    intro inner same distinct unchanged
    rwa [← Option.some.inj unchanged]

theorem namesDistinct_openListItem {key : Key} (before : document.content.NamesDistinct)
    (opened : document.openListItem key = .ok result) : result.content.NamesDistinct := by
  unfold openListItem at opened
  dsimp only at opened
  split at opened
  · cases opened
  · obtain ⟨content, updated, same⟩ := exists_of_bind_eq_ok opened
    cases same
    exact Table.NamesDistinct.updateAt? (fun _ _ => Table.NamesDistinct.addToList?) before
      (eq_some_of_orMalformed updated)

theorem namesDistinct_define {key : Key} {value : Value} (valueDistinct : value.NamesDistinct)
    (before : document.content.NamesDistinct)
    (defined : document.define key value = .ok result) : result.content.NamesDistinct := by
  unfold define at defined
  dsimp only at defined
  split at defined
  · cases defined
  · obtain ⟨content, updated, same⟩ := exists_of_bind_eq_ok defined
    cases same
    exact Table.NamesDistinct.updateAt? (fun _ _ => Table.NamesDistinct.add? valueDistinct) before
      (eq_some_of_orMalformed updated)

theorem namesDistinct_readStatement {text left : List Char}
    (before : document.content.NamesDistinct)
    (read : document.readStatement text = .ok (result, left)) : result.content.NamesDistinct := by
  have settled : document.settle.content.NamesDistinct := before
  unfold readStatement at read
  split at read
  · obtain ⟨⟨key, afterKey⟩, -, afterwards⟩ := exists_of_bind_eq_ok read
    obtain ⟨opened, found, ending⟩ := exists_of_bind_eq_ok afterwards
    split at ending <;> cases ending
    exact namesDistinct_openListItem settled found
  · obtain ⟨⟨key, afterKey⟩, -, afterwards⟩ := exists_of_bind_eq_ok read
    obtain ⟨opened, found, ending⟩ := exists_of_bind_eq_ok afterwards
    split at ending <;> cases ending
    exact namesDistinct_openTable settled found
  · obtain ⟨⟨⟨key, value⟩, rest⟩, pair, afterwards⟩ := exists_of_bind_eq_ok read
    obtain ⟨defined, found, same⟩ := exists_of_bind_eq_ok afterwards
    cases same
    exact namesDistinct_define (namesDistinct_readPair (readsDistinct_readValue _) pair) before
      found

theorem namesDistinct_readStatements {fuel : Nat} {text : List Char}
    (before : document.content.NamesDistinct)
    (read : readStatements fuel document text = .ok result) : result.content.NamesDistinct := by
  induction fuel generalizing document text with
  | zero =>
      rw [← Except.ok.inj read]
      exact before
  | succ fuel inductionHypothesis =>
      unfold readStatements at read
      dsimp only at read
      split at read
      -- Whatever stands on a line, its statement leaves a document to go on with.
      all_goals
        obtain ⟨⟨next, afterStatement⟩, statement, afterwards⟩ := exists_of_bind_eq_ok read
        have nextDistinct : next.content.NamesDistinct := by
          first
            | exact namesDistinct_readStatement before statement
            | cases statement; exact before
        obtain ⟨rest, -, ending⟩ := exists_of_bind_eq_ok afterwards
        split at ending
        · rw [← Except.ok.inj ending]
          exact nextDistinct
        · exact inductionHypothesis nextDistinct ending
        · cases ending

end Document

theorem namesDistinct_parse {text : List Char} {table : Table} (read : parse text = .ok table) :
    table.NamesDistinct := by
  obtain ⟨document, found, same⟩ := exists_of_bind_eq_ok read
  rw [← Except.ok.inj same]
  exact Document.namesDistinct_readStatements Table.NamesDistinct.empty found

end Toml

end FileSpec
