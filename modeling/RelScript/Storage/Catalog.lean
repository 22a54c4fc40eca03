import RelScript.Storage.Table

/-!
The catalog: named tables. Registering or storing under a name replaces what the name held.
-/

namespace RelScript

/-- Tables by name. -/
abbrev Catalog := List (String × Relation)

namespace Catalog

/-- Puts a table under a name. -/
def register (c : Catalog) (name : String) (table : Relation) : Catalog :=
  (name, table) :: c.filter (·.1 ≠ name)

/-- The table under a name. -/
def get (c : Catalog) (name : String) : Outcome Relation :=
  match c.lookup name with
  | some table => .ok table
  | none => .error (.planning (.unknownTable name))

/-- Whether there is a table under the name. -/
def contains (c : Catalog) (name : String) : Bool := (c.lookup name).isSome

/-- The names of all tables, in order. -/
def names (c : Catalog) : List String := (c.map (·.1)).mergeSort (· ≤ ·)

/-- The text of a table. -/
def readDelimited (c : Catalog) (name : String) : Outcome String := do
  let table ← c.get name
  table.toDelimited

/-- Stores rows under a name, and counts them. If the rows cannot be stored nothing changes. -/
def write (c : Catalog) (name : String) (rows : Relation) : Outcome (Nat × Catalog) := do
  let table ← rows.encode
  return (table.size, c.register name table)

end Catalog

end RelScript
