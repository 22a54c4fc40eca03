import RelScript.Execution.Aggregation

/-!
The inner join on key pairs. The right rows are gathered by key, the left rows look their keys up;
the output follows the left rows, and for each of them the right rows in their order. A key with a
missing part matches nothing.
-/

namespace RelScript

/-- Items gathered by key, keys in the order of their first item. -/
abbrev Buckets (κ α : Type) := List (κ × List α)

/-- Adds an item under its key. -/
def Buckets.insert {κ α : Type} [DecidableEq κ] (key : κ) (item : α) : Buckets κ α → Buckets κ α
  | [] => [(key, [item])]
  | (k, items) :: rest =>
    if k = key then (k, items ++ [item]) :: rest else (k, items) :: insert key item rest

/-- The items under a key. -/
def Buckets.find {κ α : Type} [DecidableEq κ] (b : Buckets κ α) (key : κ) : List α :=
  (b.lookup key).getD []

/-- Items by key, leaving out keys with a missing part. -/
def gatherByKey {α : Type} (rows : List (List Cell × α)) : Buckets (List Cell) α :=
  rows.foldl (fun b (key, row) => if key.any Cell.isMissing then b else b.insert key row) []

/-- The keys of some rows: every key expression over all rows first, then the cells row by row. -/
def rowKeys {s : Schema} (bindings : ScalarBindings) (keys : List Expr) (rows : Batch s) :
    Outcome (List (List Cell)) := do
  let columns ← keys.mapM fun k => do
    let e ← k.compile s bindings
    return (← e.2.eval rows).map Cell.read
  (transposeCells rows.length columns).mapM (·.mapM id)

/-- Pairs of matching rows. -/
def matchRows {α β : Type} (left : List (List Cell × α)) (right : List (List Cell × β)) :
    List (α × β) :=
  let buckets := gatherByKey right
  left.flatMap fun (key, row) =>
    if key.any Cell.isMissing then [] else (buckets.find key).map fun other => (row, other)

/-- Joins two relations. Without a match there is no batch. -/
def joinRelations (left right : Relation) (on : List (Expr × Expr)) (bindings : ScalarBindings) :
    Outcome Relation := do
  let leftKeys ← rowKeys bindings (on.map (·.1)) left.rows
  let rightKeys ← rowKeys bindings (on.map (·.2)) right.rows
  let pairs := matchRows (leftKeys.zip left.rows) (rightKeys.zip right.rows)
  if pairs.isEmpty then return ⟨left.schema ++ right.schema, []⟩
  else
    let b : Batch (left.schema ++ right.schema) := pairs.map fun (l, r) => l.append r
    return ⟨_, [← b.check .join]⟩

end RelScript
