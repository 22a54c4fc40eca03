import RelScript.Schema

/-!
Rows typed by a schema: one entry for each field, of that field's type. A batch is a list of rows of
one schema, so its columns have the declared types and one length by construction.
-/

namespace RelScript

/-- A row of a schema. -/
inductive Row : Schema → Type
  | nil : Row []
  | cons {f : Field} {s : Schema} (entry : f.type.Entry) (rest : Row s) : Row (f :: s)

namespace Row

/-- The entry at a position. -/
def get : {s : Schema} → Row s → (i : Fin s.length) → (s.get i).type.Entry
  | _ :: _, .cons entry _, ⟨0, _⟩ => entry
  | _ :: _, .cons _ rest, ⟨i + 1, h⟩ => rest.get ⟨i, Nat.lt_of_succ_lt_succ h⟩

/-- The entries of one row followed by those of another. -/
def append : {s t : Schema} → Row s → Row t → Row (s ++ t)
  | [], _, .nil, right => right
  | _ :: _, _, .cons entry rest, right => .cons entry (rest.append right)

/-- The entries, each with its type. -/
def entries : {s : Schema} → Row s → List ((t : DataType) × t.Entry)
  | [], .nil => []
  | f :: _, .cons entry rest => ⟨f.type, entry⟩ :: rest.entries

/-- Whether two rows of one schema have the same entries. -/
def decEq : {s : Schema} → (a b : Row s) → Decidable (a = b)
  | [], .nil, .nil => isTrue rfl
  | _ :: _, .cons x a, .cons y b =>
    if hx : x = y then
      match decEq a b with
      | isTrue h => isTrue (by rw [hx, h])
      | isFalse h => isFalse fun e => h (by cases e; rfl)
    else isFalse fun e => hx (by cases e; rfl)

instance {s : Schema} : DecidableEq (Row s) := decEq

end Row

/-- Rows of one schema. -/
abbrev Batch (s : Schema) := List (Row s)

namespace Batch

/-- The column at a position. -/
def column {s : Schema} (b : Batch s) (i : Fin s.length) : Column (s.get i).type :=
  b.map (·.get i)

/-- Rows without entries. -/
def blank (count : Nat) : Batch [] := List.replicate count .nil

/-- The rows with one more entry in front. -/
def consColumn {f : Field} {s : Schema} (c : Column f.type) (b : Batch s) : Batch (f :: s) :=
  List.zipWith .cons c b

end Batch

/-- A schema and batches of its rows. -/
structure Relation where
  schema : Schema
  batches : List (Batch schema)

namespace Relation

/-- All rows in order. -/
def rows (r : Relation) : Batch r.schema := r.batches.flatten

/-- Number of rows. -/
def size (r : Relation) : Nat := r.rows.length

end Relation

end RelScript
