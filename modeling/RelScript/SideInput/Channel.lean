import RelScript.SideInput.Slot

/-!
The two ends of a slot. The materializer holds the writer, which is used up by the step that
finishes the slot; readers look at the state of the slot, or wait for what it resolves to. A slot
can be written at any time, so that it is written once hangs on the writer alone.
-/

namespace RelScript

/-- What can be done at the two ends of a slot. -/
inductive SlotStep
  | begin
  | complete (rows : Relation)
  | fail (e : Error)
  | drop
  | state
  | resolve

/-- What a step gives back. A reader that resolves a slot before it is written has to wait. -/
inductive SlotAnswer
  | done
  | completed (result : Except BindFailure Unit)
  | state (now : SlotState)
  | resolved (binding : Option (Outcome ScalarBinding))

/-- A slot, and whether its writer is still held. -/
structure Channel where
  slot : Slot
  held : Bool

namespace Channel

/-- A new slot with its writer. -/
def create (id : SideInputId) (aliasName : String) (limit : Nat) : Channel :=
  ⟨.create id aliasName limit, true⟩

/-- A step of the writer, if it is still held. -/
def writes (c : Channel) (answer : SlotAnswer) (next : Channel) : Option (SlotAnswer × Channel) :=
  if c.held then some (answer, next) else none

/-- A step, with what it gives back. Once the writer is used up, only readers go on. -/
def step (c : Channel) : SlotStep → Option (SlotAnswer × Channel)
  | .begin => c.writes .done ⟨c.slot.begin, true⟩
  | .complete rows =>
    let (result, slot) := c.slot.complete rows.batches
    c.writes (.completed result) ⟨slot, false⟩
  | .fail e => c.writes .done ⟨c.slot.fail e, false⟩
  | .drop => c.writes .done ⟨c.slot.abandon, false⟩
  | .state => some (.state c.slot.state, c)
  | .resolve => some (.resolved c.slot.resolve?, c)

/-- Some steps one after the other, with all that they give back. -/
def run (c : Channel) : List SlotStep → Option (List SlotAnswer × Channel)
  | [] => some ([], c)
  | step :: rest => do
    let (answer, c) ← c.step step
    let (answers, c) ← c.run rest
    return (answer :: answers, c)

end Channel

end RelScript
