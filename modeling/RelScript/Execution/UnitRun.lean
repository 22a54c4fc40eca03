import RelScript.Execution.Operators

/-!
Running a unit. The side inputs are materialized in the order of their numbers, each into a slot of
its own; then the outputs run in statement order, all of them even if one fails.
-/

namespace RelScript

/-- The result of a statement: the number of rows that it produced, and the rows themselves unless
they were stored. -/
structure OutputResult where
  aliasName : String
  target : OutputTarget
  count : Nat
  rows : Relation

/-- What a run needs to know besides its unit. -/
structure RunSettings where
  query : String
  batchSize : Nat
  parallelism : Nat
  rowLimit : Nat

/-- The setting of a run with some slots. -/
def RunSettings.context (r : RunSettings) (slots : List Slot) : RunContext :=
  ⟨r.query, r.batchSize, max r.parallelism 1, slots⟩

/-- Why a side input whose own operators did not finish counts as failed. -/
def failureReason : Error → String
  | .cancelled _ => "upstream"
  | _ => "subtree"

/-- Writes what the operators of a side input gave into its slot, and names the reason if that is a
failure. -/
def settle (slot : Slot) : Outcome Relation → Slot × Option String
  | .ok r =>
    match slot.complete r.batches with
    | (.ok (), slot) => (slot, none)
    | (.error f, slot) => (slot, some f.reason.label)
  | .error e => (slot.fail e, some (failureReason e))

/-- The event of a failure, if there was one. -/
def failureEvents (query aliasName : String) (reason : Option String) : List MetricEvent :=
  (reason.map fun r => .scalarFailed query aliasName r).toList

/-- Materializes a side input into a new slot. -/
def materialize (settings : RunSettings) (s : SideInputPlan) (slots : List Slot) (w : EngineState) :
    Slot × EngineState :=
  let slot := (Slot.create s.id s.aliasName settings.rowLimit).begin
  let (result, w) := s.plan.execute (settings.context slots) [] w
  let w := w.record (.materialized settings.query s.aliasName (Ieee.zero .double false))
  let (slot, reason) := settle slot result
  (slot, (failureEvents settings.query s.aliasName reason).foldl EngineState.record w)

/-- The slots with one more, which replaces an earlier one of its number. -/
def putSlot (slot : Slot) (slots : List Slot) : List Slot :=
  slots.filter (·.id ≠ slot.id) ++ [slot]

/-- Materializes side inputs one after the other. -/
def materializeAll (settings : RunSettings) :
    List SideInputPlan → List Slot → EngineState → List Slot × EngineState
  | [], slots, w => (slots, w)
  | s :: rest, slots, w =>
    let (slot, w) := materialize settings s slots w
    materializeAll settings rest (putSlot slot slots) w

/-- The result of a statement that ran; stored rows are not kept. -/
def OutputPlan.result (o : OutputPlan) (r : Relation) : OutputResult :=
  ⟨o.aliasName, o.target, r.size,
    match o.target with
    | .collect => r
    | .store _ => ⟨r.schema, []⟩⟩

/-- Runs one output. -/
def OutputPlan.run (settings : RunSettings) (slots : List Slot) (o : OutputPlan) (w : EngineState) :
    Outcome OutputResult × EngineState :=
  let (result, w) := o.plan.execute (settings.context slots) [] w
  (result.map o.result, w)

/-- Runs outputs one after the other. -/
def runOutputs (settings : RunSettings) (slots : List Slot) :
    List OutputPlan → EngineState → List (Outcome OutputResult) × EngineState
  | [], w => ([], w)
  | o :: rest, w =>
    let (result, w) := o.run settings slots w
    let (results, w) := runOutputs settings slots rest w
    (result :: results, w)

/-- The side inputs in the order of their numbers. -/
def PhysicalUnit.schedule (u : PhysicalUnit) : List SideInputPlan :=
  u.sideInputs.mergeSort fun a b => decide (a.id ≤ b.id)

/-- Runs a unit and gives the result of every output. -/
def PhysicalUnit.runAll (settings : RunSettings) (u : PhysicalUnit) (w : EngineState) :
    List (Outcome OutputResult) × EngineState :=
  let (slots, w) := materializeAll settings u.schedule [] w
  runOutputs settings slots u.outputs w

/-- Runs a unit. It fails with the error of the first output that failed. -/
def PhysicalUnit.run (settings : RunSettings) (u : PhysicalUnit) (w : EngineState) :
    Outcome (List OutputResult) × EngineState :=
  let (results, w) := u.runAll settings w
  (results.mapM id, w)

/-- The rows of a result as tuples: cells in parentheses, with commas between them. -/
def Relation.tuples (r : Relation) : Outcome (List String) :=
  r.rows.mapM fun row => do return "(" ++ ",".intercalate (← row.displays) ++ ")"

end RelScript
