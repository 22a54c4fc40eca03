import RelScript.Proofs.Execution.SlotReads
import RelScript.Proofs.Unit.Lowering
import RelScript.Proofs.Unit.Numbering

/-!
No read of a scalar waits. The side inputs of an accepted unit run in an order in which each of them
comes after those that it reads, and every read stands under a broadcast of what it reads.
-/

namespace RelScript

theorem Plan.Listed.covered {p : Plan} {above : List SideInputId} (h : p.Listed above) {size : Nat}
    {o : Operator} (ho : p.lower size = .ok o) {around : List SideInputId}
    (habove : above ⊆ around) : o.Covered around := by
  have hwithin : ∀ {node : Plan} {above around}, Lists above node.reads → above ⊆ around →
      ∀ e ∈ node.exprs, e.Within around := by
    intro node above around hlists hsub e he q hq
    apply hsub
    rw [hlists.2]
    exact List.mem_map_of_mem (List.mem_flatMap.mpr ⟨e, he, hq⟩)
  induction p generalizing above o around with
  | load source schema =>
      cases ho
      trivial
  | relation aliasName => cases ho
  | project columns input ih =>
      obtain ⟨i, hi, ho⟩ := bind_eq_ok.mp ho
      cases ho
      refine ⟨fun c hc => ?_, ih h.2 hi (List.nil_subset _)⟩
      exact hwithin h.1 habove c.value (List.mem_map_of_mem hc)
  | filter predicate input ih | split branch predicate input ih =>
      obtain ⟨i, hi, ho⟩ := bind_eq_ok.mp ho
      cases ho
      refine ⟨?_, ih h.2 hi (List.nil_subset _)⟩
      exact hwithin h.1 habove predicate (List.mem_singleton.mpr rfl)
  | aggregate keys aggregates input ih =>
      obtain ⟨i, hi, ho⟩ := bind_eq_ok.mp ho
      cases ho
      refine ⟨⟨fun k hk => ?_, fun a ha => ?_⟩, ih h.2 hi (List.nil_subset _)⟩
      · exact hwithin h.1 habove k (List.mem_append_left _ hk)
      · exact hwithin h.1 habove _ (List.mem_append_right _ (List.mem_map_of_mem ha))
  | join left right on ihl ihr =>
      obtain ⟨l, hl, ho⟩ := bind_eq_ok.mp ho
      obtain ⟨r, hr, ho⟩ := bind_eq_ok.mp ho
      cases ho
      refine ⟨fun k hk => ⟨?_, ?_⟩, ihl h.2.1 hl (List.nil_subset _),
        ihr h.2.2 hr (List.nil_subset _)⟩
      · exact hwithin h.1 habove k.1 (Plan.mem_exprs_join hk).1
      · exact hwithin h.1 habove k.2 (Plan.mem_exprs_join hk).2
  | limit count input ih | store target input ih =>
      obtain ⟨i, hi, ho⟩ := bind_eq_ok.mp ho
      cases ho
      exact ih h.2 hi (List.nil_subset _)
  | sideInputs ids input ih =>
      obtain ⟨i, hi, ho⟩ := bind_eq_ok.mp ho
      cases ho
      exact ih h.2.2 hi (List.subset_append_left _ _)

namespace PhysicalUnit

/-- A unit whose side inputs are numbered by their places and wait only for earlier ones. -/
structure Ordered (u : PhysicalUnit) : Prop where
  numbered : ∀ (k : Nat) (p : SideInputPlan), u.sideInputs[k]? = some p → p.id = k
  below : ∀ p ∈ u.sideInputs, ∀ id ∈ p.plan.sideInputs, id < p.id

namespace Ordered

variable {u : PhysicalUnit}

theorem map_id (h : u.Ordered) : u.sideInputs.map (·.id) = List.range u.sideInputs.length := by
  apply List.ext_getElem
  · simp
  · intro k hk _
    rw [List.length_map] at hk
    simpa using h.numbered k _ (List.getElem?_eq_getElem hk)

theorem pairwise_id (h : u.Ordered) : u.sideInputs.Pairwise fun p q => p.id < q.id := by
  have hrange := List.pairwise_lt_range (n := u.sideInputs.length)
  rwa [← h.map_id, List.pairwise_map] at hrange

theorem schedule_eq (h : u.Ordered) : u.schedule = u.sideInputs :=
  schedule_of_pairwise h.pairwise_id

end Ordered

/-- A unit whose side inputs are numbered by their places and wait only for earlier ones, and whose
operators read only side inputs that are broadcast around them. -/
structure Closed (u : PhysicalUnit) : Prop where
  numbered : ∀ (k : Nat) (p : SideInputPlan), u.sideInputs[k]? = some p → p.id = k
  below : ∀ p ∈ u.sideInputs, ∀ id ∈ p.plan.sideInputs, id < p.id
  outputsBelow : ∀ o ∈ u.outputs, ∀ id ∈ o.plan.sideInputs, id < u.sideInputs.length
  covered : ∀ p ∈ u.sideInputs, p.plan.Covered []
  outputsCovered : ∀ o ∈ u.outputs, o.plan.Covered []

namespace Closed

variable {u : PhysicalUnit}

theorem ordered (h : u.Closed) : u.Ordered := ⟨h.numbered, h.below⟩

theorem inOrder (h : u.Closed) : InOrder u.sideInputs := by
  intro before p after hsplit id hid
  have hp : p.id = before.length := by
    apply h.numbered
    rw [hsplit]
    simp
  have hlt : id < before.length := by
    rw [← hp]
    apply h.below p ?_ id hid
    rw [hsplit]
    exact List.mem_append_right _ List.mem_cons_self
  have hbefore : before.map (·.id) = List.range before.length := by
    have htake := congrArg (List.take before.length) h.ordered.map_id
    rw [hsplit, List.map_append, List.take_range] at htake
    simpa using htake
  rw [hbefore]
  exact List.mem_range.mpr hlt

end Closed

/-- A run in which no read of a scalar waits, or finds nothing to read: whenever a broadcast runs,
all slots that it lists are there and are written, and nothing fails with a failure that blames a
slot. -/
structure NeverWaits (u : PhysicalUnit) (settings : RunSettings) (w : EngineState) : Prop where
  sideInputs : ∀ before p after, u.schedule = before ++ p :: after →
    p.plan.FindsSlots (materializeAll settings before [] w).1
  outputs : ∀ o ∈ u.outputs, o.plan.FindsSlots (materializeAll settings u.schedule [] w).1
  slots : ∀ slot ∈ (materializeAll settings u.schedule [] w).1, slot.IsSettled
  results : ∀ result ∈ (u.runAll settings w).1, SparesSlots result
  run : SparesSlots (u.run settings w).1

theorem runOutputs_sparesSlots (settings : RunSettings) {slots : List Slot} {os : List OutputPlan}
    (h : ∀ o ∈ os, o.plan.Covered [] ∧ o.plan.FindsSlots slots) (w : EngineState) :
    ∀ result ∈ (runOutputs settings slots os w).1, SparesSlots result := by
  induction os generalizing w with
  | nil => exact fun _ => nofun
  | cons o rest ih =>
      obtain ⟨⟨hcovered, hslots⟩, hrest⟩ := List.forall_mem_cons.mp h
      refine List.forall_mem_cons.mpr ⟨?_, ih hrest _⟩
      apply Spares.map
      exact hcovered.spares_execute hslots (by simp) w

/-- Closed units never wait. -/
theorem Closed.neverWaits {u : PhysicalUnit} (h : u.Closed) (settings : RunSettings)
    (w : EngineState) : u.NeverWaits settings w := by
  have hready := materializeAll_ready settings h.covered h.inOrder w
  have houtputs : ∀ o ∈ u.outputs,
      o.plan.FindsSlots (materializeAll settings u.schedule [] w).1 := by
    intro o ho
    rw [h.ordered.schedule_eq]
    apply hready.findsSlots
    intro id hid
    rw [h.ordered.map_id]
    exact List.mem_range.mpr (h.outputsBelow o ho id hid)
  have hresults : ∀ result ∈ (u.runAll settings w).1, SparesSlots result :=
    runOutputs_sparesSlots settings (fun o ho => ⟨h.outputsCovered o ho, houtputs o ho⟩) _
  constructor
  · intro before p after hsplit
    rw [h.ordered.schedule_eq] at hsplit
    have hcovered : ∀ q ∈ before, q.plan.Covered [] := by
      intro q hq
      apply h.covered
      rw [hsplit]
      exact List.mem_append_left _ hq
    have hbefore : InOrder before := by
      intro first q rest hq
      refine h.inOrder first q (rest ++ p :: after) ?_
      rw [hsplit, hq, List.append_assoc, List.cons_append]
    exact (materializeAll_ready settings hcovered hbefore w).findsSlots
      (h.inOrder before p after hsplit)
  · exact houtputs
  · rw [h.ordered.schedule_eq]
    exact hready.settled
  · exact hresults
  · exact Spares.mapM hresults

end PhysicalUnit

theorem Script.ordered_of_lower {script : Script} {statements : List Statement} {u : CompiledUnit}
    (h : script.compile statements = .ok u) {size : Nat} {phys : PhysicalUnit}
    (hphys : u.lower size = .ok phys) : phys.Ordered := by
  obtain ⟨c, hc, hsides, -⟩ := Script.built_of_compile h
  obtain ⟨hplans, -⟩ := CompiledUnit.lower_eq_ok.mp hphys
  rw [hsides] at hplans
  constructor
  · intro k p hp
    obtain ⟨s, hs, hlower⟩ := exists_getElem?_of_forall₂ hplans.flip hp
    exact (SideInput.id_of_lower hlower).trans (hc.indexes.numbered k s hs)
  · intro p hp
    obtain ⟨s, -, hlower⟩ := forall_right_of_forall₂ hplans p hp
    exact SideInput.below_of_lower hlower

theorem Script.closed_of_lower {script : Script} {statements : List Statement} {u : CompiledUnit}
    (hscript : script.IsScripted) (h : script.compile statements = .ok u) {size : Nat}
    {phys : PhysicalUnit} (hphys : u.lower size = .ok phys) : phys.Closed := by
  have hordered := Script.ordered_of_lower h hphys
  obtain ⟨c, hc, hsides, hstatements⟩ := Script.built_of_compile h
  obtain ⟨hplans, houtputs⟩ := CompiledUnit.lower_eq_ok.mp hphys
  rw [hsides] at hplans
  have houtput : ∀ o ∈ phys.outputs,
      o.plan.Covered [] ∧ ∀ id ∈ o.plan.sideInputs, id < phys.sideInputs.length := by
    intro o ho
    obtain ⟨s, hs, hlower⟩ := forall_right_of_forall₂ houtputs o ho
    obtain ⟨t, -, x, hx, rfl⟩ := forall_right_of_forall₂ hstatements s hs
    obtain ⟨plan, hplan, rfl⟩ := CompiledStatement.lower_eq_ok.mp hlower
    have hscoped := (hc.wellScoped hscript hx).statementPlan t.target
    refine ⟨hscoped.listed.covered hplan (List.nil_subset _), fun id hmem => ?_⟩
    obtain ⟨q, hq, rfl⟩ := hscoped.listed.mentions
      (Plan.mem_mentions_of_lower hplan (Operator.mem_sideInputs.mp hmem))
    obtain ⟨entry, hentry, -⟩ := hscoped.fits q hq
    rw [← hplans.length_eq]
    exact (List.getElem?_eq_some_iff.mp hentry).1
  constructor
  · exact hordered.numbered
  · exact hordered.below
  · exact fun o ho => (houtput o ho).2
  · intro p hp
    obtain ⟨s, hs, hlower⟩ := forall_right_of_forall₂ hplans p hp
    obtain ⟨k, hk⟩ := List.getElem?_of_mem hs
    obtain ⟨-, hscoped, -⟩ := hc.wellScoped_sideInput hscript hk
    exact hscoped.listed.covered (SideInput.plan_of_lower hlower) (List.nil_subset _)
  · exact fun o ho => (houtput o ho).1

/-- Accepted units can be lowered, and however they run, no read of a scalar waits. -/
theorem Script.compile_neverWaits {script : Script} {statements : List Statement}
    {u : CompiledUnit} (hscript : script.IsScripted) (h : script.compile statements = .ok u)
    (batchSize : Nat) : ∃ phys, u.lower batchSize = .ok phys ∧
      ∀ (settings : RunSettings) (w : EngineState), phys.NeverWaits settings w := by
  obtain ⟨phys, hphys⟩ := Script.exists_lower_of_compile hscript h batchSize
  exact ⟨phys, hphys, (Script.closed_of_lower hscript h hphys).neverWaits⟩

theorem bestOrders_neverWaits :
    ∃ u phys, bestOrders.compile [⟨"top", .store "out"⟩] = .ok u ∧ u.lower 8192 = .ok phys ∧
      ∀ (settings : RunSettings) (w : EngineState), phys.NeverWaits settings w := by
  obtain ⟨u, hu⟩ := compile_bestOrders
  obtain ⟨phys, hphys, hruns⟩ := Script.compile_neverWaits isScripted_bestOrders hu 8192
  exact ⟨u, phys, hu, hphys, hruns⟩

end RelScript
