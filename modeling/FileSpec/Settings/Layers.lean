import FileSpec.Settings.Value

/-!
Layers of settings: of several tables, the last that has a field gives its value.
-/

set_option autoImplicit false

namespace FileSpec.Table

def override (below above : Table) : Table :=
  above.foldl (fun table field => table.put field.1 field.2) below

/-- One table of several layers, the lowest first; a missing layer has no fields. -/
def mergeLayers (layers : List (Option Table)) : Table :=
  (layers.map (·.getD [])).foldl override []

def isNull : Value → Bool
  | .null => true
  | _ => false

def withoutNulls (table : Table) : Table :=
  table.filter fun field => !isNull field.2

end FileSpec.Table
