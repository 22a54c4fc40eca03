import RelScript.Execution.Compiled
import RelScript.Value.Cell

/-!
Slots. Every side input of a run owns a slot, which its materializer writes once: it binds the one
row that the side input produced, or binds nothing if it produced none, or fails. What a slot holds
then never changes, and every reader gets the same answer.
-/

namespace RelScript

/-- The life of a slot. -/
inductive SlotState
  | unresolved
  | materializing
  | bound (schema : Schema) (row : Row schema)
  | boundEmpty
  | failed (e : Error)

namespace SlotState

/-- Whether the slot has been written. -/
def isTerminal : SlotState → Bool
  | bound _ _ | boundEmpty | failed _ => true
  | unresolved | materializing => false

/-- The state's word. -/
def label : SlotState → String
  | unresolved => "unresolved"
  | materializing => "materializing"
  | bound _ _ => "bound"
  | boundEmpty => "bound_empty"
  | failed _ => "failed"

end SlotState

/-- Why a finished side input could not be bound. -/
inductive BindReason
  | cardinality
  | rowSize
  | freeze
  deriving DecidableEq

/-- The reason's word in metrics. -/
def BindReason.label : BindReason → String
  | cardinality => "cardinality"
  | rowSize => "row_size"
  | freeze => "freeze"

/-- A failed binding: its reason, and the error. -/
structure BindFailure where
  reason : BindReason
  error : Error

/-- The slot of a side input. `limit` bounds the size of the row that it holds. -/
structure Slot where
  id : SideInputId
  aliasName : String
  limit : Nat
  state : SlotState

/-- The size of a row: the sizes of its cells. -/
def Row.size {s : Schema} (r : Row s) : Outcome Nat := do
  let cells ← r.cells.mapM id
  return cells.foldr (fun c total => c.size + total) 0

/-- The row as a slot keeps it: it needs a column, readable cells, and a size within the limit. -/
def freezeRow (aliasName : String) (limit : Nat) {s : Schema} (r : Row s) :
    Except BindFailure (Row s) :=
  if s.isEmpty then .error ⟨.freeze, .execution (.batch .freezing .noColumns)⟩
  else match r.size with
    | .error e => .error ⟨.freeze, e⟩
    | .ok bytes =>
      if limit < bytes then .error ⟨.rowSize, .execution (.rowTooLarge aliasName bytes limit)⟩
      else .ok r

namespace Slot

/-- A new slot. -/
def create (id : SideInputId) (aliasName : String) (limit : Nat) : Slot :=
  ⟨id, aliasName, limit, .unresolved⟩

/-- Writes a state. -/
def write (slot : Slot) (state : SlotState) : Slot := { slot with state }

/-- The side input is running. -/
def begin (slot : Slot) : Slot := slot.write .materializing

/-- What the rows of a finished side input bind. -/
def outcome (slot : Slot) {s : Schema} (batches : List (Batch s)) : Except BindFailure SlotState :=
  match batches.flatten with
  | [] => .ok .boundEmpty
  | [row] => (freezeRow slot.aliasName slot.limit row).map fun r => .bound s r
  | rows => .error ⟨.cardinality, .cardinality slot.aliasName rows.length⟩

/-- Binds the rows of the finished side input. A failure is returned as readers see it. -/
def complete (slot : Slot) {s : Schema} (batches : List (Batch s)) :
    Except BindFailure Unit × Slot :=
  match slot.outcome batches with
  | .ok state => (.ok (), slot.write state)
  | .error f => (.error ⟨f.reason, f.error.forReader slot.aliasName⟩, slot.write (.failed f.error))

/-- The side input failed. -/
def fail (slot : Slot) (e : Error) : Slot := slot.write (.failed e)

/-- The materializer went away without writing. -/
def abandon (slot : Slot) : Slot := slot.write (.failed (Error.abandoned slot.aliasName))

/-- What a reader gets, once the slot has been written. -/
def resolve? (slot : Slot) : Option (Outcome ScalarBinding) :=
  match slot.state with
  | .bound s r => some (.ok (.row s r))
  | .boundEmpty => some (.ok .empty)
  | .failed e => some (.error (e.forReader slot.aliasName))
  | .unresolved | .materializing => none

end Slot

end RelScript
