import RelScript.Physical.Basic

/-!
The stages of a unit: one for each side input and one for each output, numbered in that order. A
stage comes after the stages of the side inputs that its operators wait for.
-/

namespace RelScript

/-- What a stage produces. -/
inductive StageKind
  | sideInput (id : SideInputId)
  | output (aliasName : String)
  deriving DecidableEq

/-- A stage, with the stages before it and the stages that wait for it. -/
structure Stage where
  id : Nat
  kind : StageKind
  operators : List String
  parents : List Nat
  children : List Nat

/-- What each stage of a unit produces and runs, in stage order. -/
def PhysicalUnit.stageWork (u : PhysicalUnit) : List (StageKind × Operator) :=
  u.sideInputs.map (fun s => (.sideInput s.id, s.plan)) ++
    u.outputs.map fun o => (.output o.aliasName, o.plan)

/-- The stage that materializes a side input: the first one, if there are several. -/
def PhysicalUnit.stageOf? (u : PhysicalUnit) (id : SideInputId) : Option Nat :=
  u.stageWork.findIdx? (·.1 = .sideInput id)

/-- The stages that an operator tree comes after. -/
def PhysicalUnit.parentsOf (u : PhysicalUnit) (plan : Operator) : List Nat :=
  (plan.sideInputs.filterMap u.stageOf?).eraseDups

/-- The stages that come after a stage. -/
def PhysicalUnit.childrenOf (u : PhysicalUnit) (stage : Nat) : List Nat :=
  (u.stageWork.zipIdx.filter fun w => stage ∈ u.parentsOf w.1.2).map (·.2)

/-- The stages of a unit. -/
def PhysicalUnit.stages (u : PhysicalUnit) : List Stage :=
  u.stageWork.zipIdx.map fun w =>
    ⟨w.2, w.1.1, w.1.2.nodes.map (·.name), u.parentsOf w.1.2, u.childrenOf w.2⟩

/-- The stages that can start at once. -/
def PhysicalUnit.rootStages (u : PhysicalUnit) : List Nat :=
  (u.stages.filter (·.parents.isEmpty)).map (·.id)

end RelScript
