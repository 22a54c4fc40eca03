import RelScript.Execution.Joining
import RelScript.Metrics
import RelScript.Physical.Basic
import RelScript.SideInput.Slot
import RelScript.Storage.Catalog

/-!
Running operator trees. An operator produces all of its rows before the operator above starts.
Filters and projections cut their input into parts for parallel tasks; the parts run in order, and
the first failing part decides the error.
-/

namespace RelScript

/-- What operators need to know while a unit runs. -/
structure RunContext where
  query : String
  batchSize : Nat
  parallelism : Nat
  slots : List Slot

/-- What running changes: the stored tables, and the record of what happened. -/
structure EngineState where
  catalog : Catalog
  metrics : Metrics

/-- Steps that change the engine and may fail; what was changed before a failure stays changed. -/
abbrev Run := ExceptT Error (StateM EngineState)

namespace EngineState

/-- The state after an event. -/
def record (w : EngineState) (e : MetricEvent) : EngineState :=
  { w with metrics := w.metrics ++ [e] }

end EngineState

/-- Records an event. -/
def recordEvent (e : MetricEvent) : Run Unit := modify (·.record e)

/-- A result as a step. -/
def ofOutcome {α : Type} : Outcome α → Run α
  | .ok a => pure a
  | .error e => throw e

namespace RunContext

/-- The slot of a side input. -/
def slot? (ctx : RunContext) (id : SideInputId) : Option Slot := ctx.slots.find? (·.id = id)

/-- What a slot holds, which has to have been written. -/
def resolve (slot : Slot) : Outcome ScalarBinding :=
  match slot.resolve? with
  | some outcome => outcome
  | none => .error (.execution (.notTerminal slot.aliasName slot.state.label))

/-- The bindings with some side inputs bound as well, in order. -/
def bindSideInputs (ctx : RunContext) : List SideInputId → ScalarBindings → Outcome ScalarBindings
  | [], bindings => .ok bindings
  | id :: rest, bindings =>
    match ctx.slot? id with
    | none => .error (.execution (.noSlot id))
    | some slot => do
      let binding ← resolve slot
      ctx.bindSideInputs rest (bindings.bind id binding)

/-- One task reads every side input that is bound around it. -/
def readEvents (ctx : RunContext) (bindings : ScalarBindings) : List MetricEvent :=
  (ctx.slots.filter fun s => (bindings.lookup s.id).isSome).map fun s =>
    .scalarRead ctx.query s.aliasName

end RunContext

/-- A column of an input cast to a declared type; columns that the input does not have are
missing. -/
def scanColumn {s : Schema} (rows : Batch s) (index : Nat) (t : DataType) : Outcome (Column t) :=
  if h : index < s.length then (rows.column ⟨index, h⟩).cast t else .ok (rows.map fun _ => none)

/-- The columns of an input from a position on, cast to declared fields. -/
def scanColumns {s : Schema} (rows : Batch s) : (index : Nat) → (declared : Schema) →
    Outcome (Batch declared)
  | _, [] => .ok (Batch.blank rows.length)
  | index, f :: rest => do
    let c ← scanColumn rows index f.type
    let b ← scanColumns rows (index + 1) rest
    return Batch.consColumn c b

/-- The rows of a table as a source offers them: in batches of the wanted size, and cast to the
declared schema if there is one. -/
def scanTable (batchSize : Nat) (source : String) (declared : RelationSchema) (table : Relation) :
    Outcome Relation :=
  let raw := table.rebatch batchSize
  match declared with
  | none => .ok raw
  | some fields => do
    let batches ← raw.batches.mapM fun rows => do
      let b ← scanColumns rows 0 fields
      b.check (.scan source)
    return ⟨fields, batches⟩

/-- Whether a condition is known and true. -/
def holdsTrue : DataType.boolean.Entry → Bool
  | some true => true
  | _ => false

/-- The rows of a slice for which the predicate is true. -/
def filterSlice (predicate : Expr) (bindings : ScalarBindings) {s : Schema} (rows : Batch s) :
    Outcome (Batch s) := do
  let e ← predicate.compile s bindings
  let mask ← e.2.eval rows
  let mask ← mask.expect .boolean .predicateType
  return ((rows.zip mask).filter fun r => holdsTrue r.2).map (·.1)

/-- A compiled output column. -/
abbrev OutputColumn (s : Schema) := Named (AnyCompiled s)

/-- The field of an output column. -/
def OutputColumn.field {s : Schema} (c : OutputColumn s) : Field :=
  ⟨c.name, c.value.2.declared, true⟩

/-- The output columns of a slice side by side, from the `index`-th on. All of them are evaluated
before the first one is found that has not the type it is declared with. -/
def projectColumns {s : Schema} (rows : Batch s) :
    (index : Nat) → (columns : List (OutputColumn s)) →
      Outcome (Except BatchFault (Batch (columns.map OutputColumn.field)))
  | _, [] => .ok (.ok (Batch.blank rows.length))
  | index, c :: rest => do
    let column ← c.value.2.eval rows
    let b ← projectColumns rows (index + 1) rest
    match column.as? c.field.type with
    | some column => return b.map (Batch.consColumn column)
    | none => return .error (.columnType c.field.type c.value.1 index)

/-- The batch of the output columns of a slice. -/
def projectSlice {s : Schema} (columns : List (OutputColumn s)) (rows : Batch s) :
    Outcome (Batch (columns.map OutputColumn.field)) := do
  let b ← (← projectColumns rows 0 columns).mapError (.execution <| .batch .projection ·)
  b.check .projection

/-- Compiles an output column. -/
def compileOutput (s : Schema) (bindings : ScalarBindings) (c : Named Expr) :
    Outcome (OutputColumn s) := do
  return ⟨← c.value.compile s bindings, c.name⟩

/-- The first `count` rows of some batches; batches after the last row that is taken are left
out. -/
def limitBatches {α : Type} : (count : Nat) → List (List α) → List (List α)
  | 0, _ => []
  | _, [] => []
  | count + 1, b :: rest =>
    b.take (count + 1) :: limitBatches (count + 1 - b.length) rest

/-- Runs a step over the slices of every part. Each part counts as one task, and all parts run; the
outputs come in row order. -/
def runParts {α β : Type} (ctx : RunContext) (bindings : ScalarBindings)
    (step : List α → Outcome (List β)) (batches : List (List α)) : Run (List (List β)) := do
  let parts := partition ctx.parallelism batches
  parts.forM fun _ => (ctx.readEvents bindings).forM recordEvent
  let outputs ← ofOutcome (parts.mapM fun part => part.mapM step)
  return outputs.flatten

/-- Runs an operator tree with the side inputs that are bound around it. -/
def Operator.execute (ctx : RunContext) : Operator → ScalarBindings → Run Relation
  | scan source declared size, _ => do
    let table ← ofOutcome ((← get).catalog.get source)
    let r ← ofOutcome (scanTable ctx.batchSize source declared table)
    finish (scan source declared size) r
  | filter predicate input, bindings => do
    let child ← input.execute ctx bindings
    let batches ← runParts ctx bindings (filterSlice predicate bindings) child.batches
    finish (filter predicate input) ⟨child.schema, batches⟩
  | project columns input, bindings => do
    let child ← input.execute ctx bindings
    let compiled ← ofOutcome (columns.mapM (compileOutput child.schema bindings))
    let batches ← runParts ctx bindings (projectSlice compiled) child.batches
    finish (project columns input) ⟨_, batches⟩
  | hashAggregate keys aggregates input, bindings => do
    let child ← input.execute ctx bindings
    let r ← ofOutcome (aggregateRelation child keys aggregates bindings)
    finish (hashAggregate keys aggregates input) r
  | hashJoin left right on, bindings => do
    let l ← left.execute ctx bindings
    let r ← right.execute ctx bindings
    let joined ← ofOutcome (joinRelations l r on bindings)
    finish (hashJoin left right on) joined
  | limit count input, bindings => do
    let child ← input.execute ctx bindings
    finish (limit count input) ⟨child.schema, limitBatches count child.batches⟩
  | store target input, bindings => do
    let child ← input.execute ctx bindings
    let (_, catalog) ← ofOutcome ((← get).catalog.write target child)
    modify fun w => { w with catalog }
    finish (store target input) child
  | broadcast ids input, bindings => do
    let bound ← ofOutcome (ctx.bindSideInputs ids bindings)
    let r ← input.execute ctx bound
    finish (broadcast ids input) r
where
  /-- Records the rows of an operator that succeeded. -/
  finish (o : Operator) (r : Relation) : Run Relation := do
    recordEvent (.rowsOut ctx.query o.name r.size)
    return r

end RelScript
