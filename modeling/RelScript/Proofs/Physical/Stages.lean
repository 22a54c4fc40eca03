import RelScript.Physical.Stage
import RelScript.Proofs.Session.Stores
import RelScript.Proofs.Unit.Readiness

/-!
The stages of a unit and their orders: what it is to run stages one by one, and that the stages name
every dependency.
-/

namespace RelScript

namespace PhysicalUnit

/-- The tables that the outputs of a unit store to. -/
def targets (u : PhysicalUnit) : List String :=
  u.outputs.filterMap fun o =>
    match o.target with
    | .store name => some name
    | .collect => none

/-- The outputs store to tables of their own, which no plan of the unit scans. -/
structure StoresApart (u : PhysicalUnit) : Prop where
  distinct : u.targets.Nodup
  unreadBySideInputs : ∀ p ∈ u.sideInputs, ∀ source ∈ p.plan.sources, source ∉ u.targets
  unreadByOutputs : ∀ o ∈ u.outputs, ∀ source ∈ o.plan.sources, source ∉ u.targets

/-- An order of the stages in which every stage comes after its parents. -/
structure StageOrder (u : PhysicalUnit) (order : List Nat) : Prop where
  stages : order.Perm (u.stages.map (·.id))
  parents : ∀ before n after, order = before ++ n :: after →
    ∀ s ∈ u.stages, s.id = n → ∀ parent ∈ s.parents, parent ∈ before

end PhysicalUnit

/-- What stages that have run leave behind: the slots that they wrote, the results of outputs, each
with the number of its stage, and the engine. -/
structure StagesRun where
  slots : List Slot
  results : List (Nat × Outcome OutputResult)
  state : EngineState

namespace PhysicalUnit

/-- Runs the stage of a number. -/
def runStage (settings : RunSettings) (u : PhysicalUnit) (r : StagesRun) (n : Nat) : StagesRun :=
  match u.sideInputs[n]? with
  | some p =>
    let (slot, state) := materialize settings p r.slots r.state
    ⟨putSlot slot r.slots, r.results, state⟩
  | none =>
    match u.outputs[n - u.sideInputs.length]? with
    | some o =>
      let (result, state) := o.run settings r.slots r.state
      ⟨r.slots, r.results ++ [(n, result)], state⟩
    | none => r

/-- Runs stages in an order. -/
def runStages (settings : RunSettings) (u : PhysicalUnit) (order : List Nat) (w : EngineState) :
    StagesRun :=
  order.foldl (u.runStage settings) ⟨[], [], w⟩

variable {u : PhysicalUnit} {settings : RunSettings}

theorem runStage_sideInput {n : Nat} {p : SideInputPlan} (hp : u.sideInputs[n]? = some p)
    (r : StagesRun) : u.runStage settings r n =
      ⟨putSlot (materialize settings p r.slots r.state).1 r.slots, r.results,
        (materialize settings p r.slots r.state).2⟩ := by
  rw [runStage, hp]

theorem runStage_output {k : Nat} {o : OutputPlan} (ho : u.outputs[k]? = some o) (r : StagesRun) :
    u.runStage settings r (u.sideInputs.length + k) =
      ⟨r.slots, r.results ++ [(u.sideInputs.length + k, (o.run settings r.slots r.state).1)],
        (o.run settings r.slots r.state).2⟩ := by
  have hnone : u.sideInputs[u.sideInputs.length + k]? = none :=
    List.getElem?_eq_none (Nat.le_add_right _ _)
  rw [runStage, hnone, Nat.add_sub_cancel_left, ho]

section Stages

theorem length_stages (u : PhysicalUnit) :
    u.stages.length = u.sideInputs.length + u.outputs.length := by
  simp [stages, stageWork]

theorem map_id_stages (u : PhysicalUnit) : u.stages.map (·.id) = List.range u.stages.length := by
  rw [stages, List.map_map, List.length_map, List.length_zipIdx]
  have hsnd : ((fun s : Stage => s.id) ∘ fun w : (StageKind × Operator) × Nat =>
      (⟨w.2, w.1.1, w.1.2.nodes.map (·.name), u.parentsOf w.1.2, u.childrenOf w.2⟩ : Stage)) =
      Prod.snd := rfl
  rw [hsnd, List.zipIdx_map_snd, List.range_eq_range']

theorem exists_stage {n : Nat} (kind : StageKind) {plan : Operator}
    (h : u.stageWork[n]? = some (kind, plan)) :
    ∃ s ∈ u.stages, s.id = n ∧ s.parents = u.parentsOf plan := by
  have hmem : ((kind, plan), n) ∈ u.stageWork.zipIdx := List.mem_zipIdx_iff_getElem?.mpr h
  exact ⟨_, List.mem_map.mpr ⟨_, hmem, rfl⟩, rfl, rfl⟩

theorem exists_stage_sideInput {n : Nat} {p : SideInputPlan} (hp : u.sideInputs[n]? = some p) :
    ∃ s ∈ u.stages, s.id = n ∧ s.parents = u.parentsOf p.plan := by
  have hn : n < u.sideInputs.length := (List.getElem?_eq_some_iff.mp hp).1
  apply exists_stage (.sideInput p.id)
  rw [stageWork, List.getElem?_append_left (by simpa using hn), List.getElem?_map, hp]
  rfl

theorem exists_stage_output {k : Nat} {o : OutputPlan} (ho : u.outputs[k]? = some o) :
    ∃ s ∈ u.stages, s.id = u.sideInputs.length + k ∧ s.parents = u.parentsOf o.plan := by
  apply exists_stage (.output o.aliasName)
  rw [stageWork, List.getElem?_append_right (by simp), List.length_map, Nat.add_sub_cancel_left,
    List.getElem?_map, ho]
  rfl

theorem Closed.stageOf?_eq (h : u.Closed) {id : SideInputId} (hlt : id < u.sideInputs.length) :
    u.stageOf? id = some id := by
  have hlength : ∀ {k}, k < u.sideInputs.length → k < u.stageWork.length := by
    intro k hk
    simp only [stageWork, List.length_append, List.length_map]
    omega
  have hkind : ∀ {k} (hk : k < u.sideInputs.length),
      (u.stageWork.get ⟨k, hlength hk⟩).1 = .sideInput k := by
    intro k hk
    have hwork : u.stageWork.get ⟨k, hlength hk⟩ =
        (.sideInput u.sideInputs[k].id, u.sideInputs[k].plan) := by
      simp [stageWork, List.getElem_append_left, hk]
    rw [hwork, h.numbered k _ (List.getElem?_eq_getElem hk)]
  rw [stageOf?, List.findIdx?_eq_some_iff_getElem]
  refine ⟨hlength hlt, by simpa using hkind hlt, fun k hk => ?_⟩
  have hne : k ≠ id := Nat.ne_of_lt hk
  have hother := hkind (Nat.lt_trans hk hlt)
  rw [List.get_eq_getElem] at hother
  simpa [hother] using hne

/-- The parents of a stage of a closed unit are the side inputs that its operators wait for. -/
theorem Closed.mem_parentsOf (h : u.Closed) {plan : Operator}
    (hbelow : ∀ id ∈ plan.sideInputs, id < u.sideInputs.length) {id : Nat} :
    id ∈ u.parentsOf plan ↔ id ∈ plan.sideInputs := by
  rw [parentsOf, List.mem_eraseDups, List.mem_filterMap]
  constructor
  · rintro ⟨k, hk, hstage⟩
    rw [h.stageOf?_eq (hbelow k hk)] at hstage
    cases hstage
    exact hk
  · exact fun hid => ⟨id, hid, h.stageOf?_eq (hbelow id hid)⟩

end Stages

end PhysicalUnit

end RelScript
