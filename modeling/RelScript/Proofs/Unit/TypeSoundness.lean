import RelScript.Proofs.Execution.SlotReads
import RelScript.Proofs.Execution.TypedOperators
import RelScript.Proofs.Unit.Lowering

/-!
Accepted scripts over declared sources run as analysis says: every statement that succeeds gives
rows of the schema that it was compiled with, and nothing fails for the types of operands.
-/

namespace RelScript

/-- All sources that the statements read, directly or through other aliases, are declared. -/
def Script.DeclaresSources (script : Script) (statements : List Statement) : Prop :=
  ∀ a d, script.Reached (statements.map (·.aliasName)) a → script.get? a = some d →
    ∀ source schema, Plan.Access.load source schema ∈ d.accesses → schema.isSome

namespace Compilation

variable {script : Script} {statements : List Statement} {c : Compilation}

/-- A plan that lowers to a typed operator tree of the schema. -/
def LowersTyped (batchSize : Nat) (plan : Plan) (schema : RelationSchema) : Prop :=
  ∃ o s, plan.lower batchSize = .ok o ∧ schema = some s ∧ o.Typed s

/-- Compiled aliases over declared sources lower to typed operator trees. -/
theorem Built.typed (hscript : script.IsScripted) (hsources : script.DeclaresSources statements)
    (h : Built script (statements.map (·.aliasName)) c) (batchSize : Nat) {a : String}
    {x : CompiledAlias} (hx : c.get? a = some x) : LowersTyped batchSize x.plan x.schema := by
  refine h.induction hscript (P := fun a x => script.Reached (statements.map (·.aliasName)) a →
    LowersTyped batchSize x.plan x.schema) ?_ hx (h.reached (by rw [hx]; rfl))
  intro a d x hd _ hsolves hdeps ha
  obtain ⟨scope, columns, hplan, hschema, hscope⟩ := hsolves.analyzesPlan
  rw [← hschema]
  refine hplan.typed batchSize (fun source schema hload => ?_) fun b q schema hq hschema => ?_
  · rw [Plan.accesses_substitute] at hload
    exact hsources a d ha hd source schema hload
  · obtain ⟨y, hb, hy, rfl, hfound⟩ := hscope b q hq
    cases hschema.symm.trans hfound
    exact hdeps b hb y hy (ha.read ⟨d, hd, hb⟩)

theorem LowersTyped.statementPlan {batchSize : Nat} {plan : Plan} {schema : RelationSchema}
    (h : LowersTyped batchSize plan schema) (target : OutputTarget) :
    LowersTyped batchSize (statementPlan target plan) schema := by
  cases target with
  | collect => exact h
  | store name =>
      obtain ⟨o, s, ho, hs, hotyped⟩ := h
      exact ⟨_, s, bind_eq_ok.mpr ⟨o, ho, rfl⟩, hs, .store name hotyped⟩

end Compilation

/-- A slot that has not failed for the types of operands. -/
def Slot.Safe (slot : Slot) : Prop := ∀ e, slot.state = .failed e → e.isOperandFault = false

/-- A side input and an output whose operator trees are typed. -/
def SideInputPlan.Typed (p : SideInputPlan) : Prop := ∃ s, p.plan.Typed s

theorem materialize_safe (settings : RunSettings) {p : SideInputPlan} (h : p.Typed)
    (slots : List Slot) (w : EngineState) : (materialize settings p slots w).1.Safe := by
  obtain ⟨s, hs⟩ := h
  have hrows := (hs.safe_execute (settings.context slots) [] w).spares
  intro e he
  rw [state_materialize] at he
  exact Slot.spares_settled (fun _ hoperands => hoperands) hrows he

theorem materializeAll_safe (settings : RunSettings) {plans : List SideInputPlan}
    (h : ∀ p ∈ plans, p.Typed) {slots : List Slot} (hslots : ∀ slot ∈ slots, slot.Safe)
    (w : EngineState) : ∀ slot ∈ (materializeAll settings plans slots w).1, slot.Safe := by
  induction plans generalizing slots w with
  | nil => exact hslots
  | cons p rest ih =>
      obtain ⟨hp, hrest⟩ := List.forall_mem_cons.mp h
      refine ih hrest ?_ _
      intro slot hslot
      rcases List.mem_append.mp hslot with hslot | hslot
      · exact hslots slot (List.mem_filter.mp hslot).1
      · rw [List.mem_singleton.mp hslot]
        exact materialize_safe settings hp slots w

/-- A result of a statement that agrees with analysis. -/
def ResultFits (schema : RelationSchema) (result : Outcome OutputResult) : Prop :=
  Safe (fun r => some r.rows.schema = schema) result

theorem OutputPlan.run_fits (settings : RunSettings) (slots : List Slot) {o : OutputPlan}
    {s : Schema} (h : o.plan.Typed s) (w : EngineState) :
    ResultFits (some s) (o.run settings slots w).1 := by
  refine (h.safe_execute (settings.context slots) [] w).map fun r hr => ?_
  rw [← hr, OutputPlan.result]
  cases o.target <;> rfl

theorem runOutputs_fits (settings : RunSettings) (slots : List Slot) {statements :
    List CompiledStatement} {outputs : List OutputPlan}
    (h : List.Forall₂ (fun (t : CompiledStatement) (o : OutputPlan) =>
      ∃ s, t.schema = some s ∧ o.plan.Typed s) statements outputs) (w : EngineState) :
    List.Forall₂ (fun t r => ResultFits t.schema r) statements
      (runOutputs settings slots outputs w).1 := by
  induction h generalizing w with
  | nil => exact List.Forall₂.nil
  | cons ho _ ih =>
      obtain ⟨s, hs, htyped⟩ := ho
      refine List.Forall₂.cons ?_ (ih _)
      rw [hs]
      exact OutputPlan.run_fits settings slots htyped w

/-- Type soundness. Over declared sources, whatever the catalog holds, every statement of an
accepted unit fails for another reason than the types of operands, or gives rows of the schema that
it was compiled with; and so do the side inputs that it reads, and the unit as a whole. -/
theorem Script.compile_typeSound {script : Script} {statements : List Statement}
    {u : CompiledUnit} (hscript : script.IsScripted) (hsources : script.DeclaresSources statements)
    (h : script.compile statements = .ok u) (batchSize : Nat) :
    ∃ phys, u.lower batchSize = .ok phys ∧ ∀ (settings : RunSettings) (w : EngineState),
      (∀ slot ∈ (materializeAll settings phys.schedule [] w).1, slot.Safe) ∧
        List.Forall₂ (fun t r => ResultFits t.schema r) u.statements
          (phys.runAll settings w).1 ∧
        Safe (fun results => List.Forall₂ (fun t (r : OutputResult) =>
          some r.rows.schema = t.schema) u.statements results) (phys.run settings w).1 := by
  obtain ⟨phys, hphys⟩ := Script.exists_lower_of_compile hscript h batchSize
  obtain ⟨c, hc, hsides, hstatements⟩ := Script.built_of_compile h
  obtain ⟨hsideInputs, houtputs⟩ := CompiledUnit.lower_eq_ok.mp hphys
  have htyped : ∀ p ∈ phys.schedule, p.Typed := by
    intro p hp
    obtain ⟨s, hs, hlower⟩ := forall_right_of_forall₂ hsideInputs p
      (List.mem_mergeSort.mp hp)
    rw [hsides] at hs
    obtain ⟨a, -, ha⟩ := (hc.described hscript).first s hs
    obtain ⟨o, schema, ho, -, hotyped⟩ := hc.typed hscript hsources batchSize ha
    dsimp only at ho
    rw [SideInput.plan_of_lower hlower] at ho
    cases ho
    exact ⟨schema, hotyped⟩
  have hstatement : ∀ t ∈ u.statements,
      Compilation.LowersTyped batchSize t.plan t.schema := by
    intro t ht
    obtain ⟨s, -, x, hx, rfl⟩ := forall_right_of_forall₂ hstatements t ht
    exact (hc.typed hscript hsources batchSize hx).statementPlan s.target
  have hresults : ∀ settings slots w, List.Forall₂ (fun t r => ResultFits t.schema r)
      u.statements (runOutputs settings slots phys.outputs w).1 := by
    intro settings slots w
    refine runOutputs_fits settings slots ?_ w
    refine ((List.forall₂_and_left _ _).mpr ⟨hstatement, houtputs⟩).imp fun t o hto => ?_
    obtain ⟨⟨p, s, hp, hs, hptyped⟩, hlower⟩ := hto
    obtain ⟨q, hq, rfl⟩ := CompiledStatement.lower_eq_ok.mp hlower
    rw [hp] at hq
    cases hq
    exact ⟨s, hs, hptyped⟩
  refine ⟨phys, hphys, fun settings w => ⟨?_, hresults settings _ _, ?_⟩⟩
  · exact materializeAll_safe settings htyped (by simp) w
  · exact Safe.mapM₂ (hresults settings _ _).flip fun r t hr => hr

theorem bestOrders_typeSound : bestOrders.DeclaresSources [⟨"top", .store "out"⟩] ∧
    ∃ u phys, bestOrders.compile [⟨"top", .store "out"⟩] = .ok u ∧ u.lower 8192 = .ok phys ∧
      ∀ (settings : RunSettings) (w : EngineState),
        (∀ slot ∈ (materializeAll settings phys.schedule [] w).1, slot.Safe) ∧
          List.Forall₂ (fun t r => ResultFits t.schema r) u.statements
            (phys.runAll settings w).1 ∧
          Safe (fun results => List.Forall₂ (fun t (r : OutputResult) =>
            some r.rows.schema = t.schema) u.statements results) (phys.run settings w).1 := by
  have hsources : bestOrders.DeclaresSources [⟨"top", .store "out"⟩] := by
    intro a d _ hd source schema hload
    have hall : ∀ e ∈ bestOrders.definitions, ∀ source schema,
        Plan.Access.load source schema ∈ e.2.accesses → schema.isSome := by
      simp [bestOrders, topOrders, Plan.accesses, Plan.nodes, Plan.access?]
    exact hall _ (Script.mem_of_get? hd) source schema hload
  obtain ⟨u, hu⟩ := compile_bestOrders
  obtain ⟨phys, hphys, hrun⟩ :=
    Script.compile_typeSound isScripted_bestOrders hsources hu 8192
  exact ⟨hsources, u, phys, hu, hphys, hrun⟩

end RelScript
