import FileSpec.Number.Binary64

/-!
The values of settings, as configuration files and callers give them, and tables of them.
-/

set_option autoImplicit false

namespace FileSpec

inductive Value where
  | null
  | boolean (value : Bool)
  | integer (value : Int)
  | float (value : Binary64)
  | text (value : String)
  /-- A date, a time or both, as standard text. -/
  | time (written : String)
  | list (items : List Value)
  | table (fields : List (String × Value))
  deriving Inhabited, Repr

/-- Values by their names. No name occurs twice, and a new name comes last. -/
abbrev Table := List (String × Value)

namespace Table

def get? (table : Table) (name : String) : Option Value :=
  table.lookup name

@[simp]
theorem get?_nil (name : String) : Table.get? [] name = none := rfl

@[simp]
theorem get?_cons (present : String) (old : Value) (others : Table) (name : String) :
    Table.get? ((present, old) :: others) name =
      if name = present then some old else Table.get? others name := by
  rw [get?, List.lookup_cons]
  by_cases same : name = present
  · simp [same]
  · rw [if_neg same, beq_false_of_ne same, get?]

def put (name : String) (value : Value) : Table → Table
  | [] => [(name, value)]
  | (present, old) :: others =>
      if present = name then (name, value) :: others
      else (present, old) :: put name value others

end Table

end FileSpec
