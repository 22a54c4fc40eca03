import RelScript.Proofs.Physical.StageProgress
import RelScript.Proofs.Unit.Origins

/-!
In whatever order the stages of a unit run, each after its parents, the slots, the results of the
outputs and the tables are those of a run in stage order.
-/

namespace RelScript

namespace PhysicalUnit

section InOrder

variable {u : PhysicalUnit} (settings : RunSettings)

theorem foldl_runStage_sideInputs (before rest : List SideInputPlan)
    (h : u.sideInputs = before ++ rest) (r : StagesRun) :
    (List.range' before.length rest.length).foldl (u.runStage settings) r =
      ⟨(materializeAll settings rest r.slots r.state).1, r.results,
        (materializeAll settings rest r.slots r.state).2⟩ := by
  induction rest generalizing before r with
  | nil => rfl
  | cons p rest ih =>
      have hp : u.sideInputs[before.length]? = some p := by simp [h]
      have hnext := ih (before ++ [p]) (by simp [h])
        (u.runStage settings r before.length)
      rw [List.length_append, List.length_singleton] at hnext
      rw [List.length_cons, List.range'_succ, List.foldl_cons, hnext, runStage_sideInput hp]
      rfl

theorem foldl_runStage_outputs (before rest : List OutputPlan) (h : u.outputs = before ++ rest)
    (r : StagesRun) :
    (List.range' (u.sideInputs.length + before.length) rest.length).foldl (u.runStage settings) r =
      ⟨r.slots, r.results ++ ((runOutputs settings r.slots rest r.state).1.zipIdx
          (u.sideInputs.length + before.length)).map Prod.swap,
        (runOutputs settings r.slots rest r.state).2⟩ := by
  induction rest generalizing before r with
  | nil => simp [runOutputs]
  | cons o rest ih =>
      have ho : u.outputs[before.length]? = some o := by simp [h]
      have hnext := ih (before ++ [o]) (by simp [h])
        (u.runStage settings r (u.sideInputs.length + before.length))
      rw [List.length_append, List.length_singleton, ← Nat.add_assoc] at hnext
      rw [List.length_cons, List.range'_succ, List.foldl_cons, hnext, runStage_output ho]
      simp [runOutputs]

theorem lookup_zipIdx {α : Type} (items : List α) (start k : Nat) :
    ((items.zipIdx start).map Prod.swap).lookup (start + k) = items[k]? := by
  induction items generalizing start k with
  | nil => simp
  | cons a items ih =>
      rw [List.zipIdx_cons, List.map_cons, Prod.swap_prod_mk, List.lookup_cons]
      cases k with
      | zero => simp
      | succ k =>
          have hne : start + (k + 1) ≠ start := by omega
          rw [beq_false_of_ne hne, ← Nat.add_assoc, Nat.add_right_comm, ih (start + 1) k]
          rfl

theorem runStages_range (h : u.Closed) (w : EngineState) :
    u.runStages settings (List.range u.stages.length) w =
      ⟨u.finalSlots settings w,
        ((u.runAll settings w).1.zipIdx u.sideInputs.length).map Prod.swap,
        (u.runAll settings w).2⟩ := by
  have hrange : List.range (u.sideInputs.length + u.outputs.length) =
      List.range' 0 u.sideInputs.length ++ List.range' u.sideInputs.length u.outputs.length := by
    rw [List.range_eq_range', ← List.range'_append_1, Nat.zero_add]
  rw [runStages, length_stages, hrange, List.foldl_append]
  have hsides := foldl_runStage_sideInputs settings (u := u) [] _ rfl ⟨[], [], w⟩
  have houtputs := foldl_runStage_outputs settings (u := u) [] _ rfl
  rw [List.length_nil] at hsides houtputs
  rw [hsides]
  rw [Nat.add_zero] at houtputs
  rw [houtputs, finalSlots, runAll, h.ordered.schedule_eq]
  rfl

end InOrder

section Order

variable {u : PhysicalUnit}

theorem Closed.parents_lt (h : u.Closed) {s : Stage} (hs : s ∈ u.stages) :
    ∀ parent ∈ s.parents, parent < s.id := by
  obtain ⟨⟨⟨kind, plan⟩, n⟩, hn, rfl⟩ := List.mem_map.mp hs
  replace hn := List.mem_zipIdx_iff_getElem?.mp hn
  intro parent hparent
  rw [stageWork] at hn
  by_cases hside : n < u.sideInputs.length
  · rw [List.getElem?_append_left (by simpa using hside), List.getElem?_map,
      List.getElem?_eq_getElem hside] at hn
    cases hn
    have hmem := List.getElem_mem hside
    have hid := h.numbered n _ (List.getElem?_eq_getElem hside)
    have hbelow := h.below _ hmem
    rw [hid] at hbelow
    refine hbelow parent ((h.mem_parentsOf fun id hmem => ?_).mp hparent)
    exact Nat.lt_trans (hbelow id hmem) hside
  · rw [List.getElem?_append_right (by simpa using hside), List.length_map, List.getElem?_map,
      Option.map_eq_some_iff] at hn
    obtain ⟨o, ho, hwork⟩ := hn
    cases hwork
    have hbelow := h.outputsBelow o (List.mem_of_getElem? ho)
    have hlt := hbelow parent ((h.mem_parentsOf hbelow).mp hparent)
    exact Nat.lt_of_lt_of_le hlt (Nat.not_lt.mp hside)

theorem Closed.stageOrder_range (h : u.Closed) :
    u.StageOrder (List.range u.stages.length) := by
  constructor
  · rw [map_id_stages]
  · rintro before n after hsplit s hs rfl parent hparent
    have hlt := h.parents_lt hs parent hparent
    have hsorted := List.pairwise_lt_range (n := u.stages.length)
    have hid : s.id ∈ List.range u.stages.length := by
      rw [hsplit]
      exact List.mem_append_right _ List.mem_cons_self
    have hmem : parent ∈ List.range u.stages.length :=
      List.mem_range.mpr (Nat.lt_trans hlt (List.mem_range.mp hid))
    rw [hsplit, List.pairwise_append, List.pairwise_cons] at hsorted
    rw [hsplit, List.mem_append, List.mem_cons] at hmem
    obtain ⟨-, ⟨hafter, -⟩, -⟩ := hsorted
    rcases hmem with hbefore | rfl | hmem
    · exact hbefore
    · exact absurd hlt (Nat.lt_irrefl _)
    · exact absurd (hafter parent hmem) (Nat.lt_asymm hlt)

/-- Stages that run in any order, each after its parents, leave what the unit leaves behind. -/
theorem StageOrder.agree {order : List Nat} (horder : u.StageOrder order) (hclosed : u.Closed)
    (hlast : u.StoresLast) (hapart : u.StoresApart) (settings : RunSettings) (w : EngineState) :
    (∀ id, (u.runStages settings order w).slots.find? (·.id = id) =
        (u.finalSlots settings w).find? (·.id = id)) ∧
      (∀ slot ∈ (u.runStages settings order w).slots, slot.state.isTerminal = true) ∧
      (∀ k, (u.runStages settings order w).results.lookup (u.sideInputs.length + k) =
        (u.runAll settings w).1[k]?) ∧
      ∀ name, (u.runStages settings order w).state.catalog.get name =
        (u.runAll settings w).2.catalog.get name := by
  have hprogress : ∀ {order}, u.StageOrder order →
      u.Progress settings w order (u.runStages settings order w) := by
    intro order horder
    have hmem : ∀ n ∈ order, n ∈ List.range u.stages.length := fun n hn =>
      map_id_stages u ▸ horder.stages.mem_iff.mp hn
    refine progress_runStages hclosed hlast hapart ?_
      (fun n hn => List.mem_range.mp (hmem n hn)) horder.parents
    rw [horder.stages.nodup_iff, map_id_stages]
    exact List.nodup_range
  obtain ⟨hslots, hresults, hcatalog⟩ :=
    (hprogress horder).agree (hprogress hclosed.stageOrder_range) fun n => by
      rw [horder.stages.mem_iff, map_id_stages]
  rw [runStages_range settings hclosed] at hslots hresults hcatalog
  refine ⟨hslots, (hprogress horder).terminal, fun k => ?_, hcatalog⟩
  rw [hresults k, lookup_zipIdx]

end Order

end PhysicalUnit

theorem Plan.mem_accesses_of_lower {p : Plan} {size : Nat} {o : Operator}
    (h : p.lower size = .ok o) {target : String} (htarget : target ∈ o.targets) :
    Access.store target ∈ p.accesses := by
  have hchild : ∀ {n c : Plan}, c ∈ n.children → Access.store target ∈ c.accesses →
      Access.store target ∈ n.accesses := fun hc hmem => accesses_subset_of_child hc hmem
  induction p generalizing o with
  | load source schema =>
      cases h
      simp [Operator.targets, Operator.nodes] at htarget
  | relation aliasName => cases h
  | join left right on ihl ihr =>
      obtain ⟨l, hl, h⟩ := bind_eq_ok.mp h
      obtain ⟨r, hr, h⟩ := bind_eq_ok.mp h
      cases h
      have htargets : (l.hashJoin r on).targets = l.targets ++ r.targets := by
        simp [Operator.targets, Operator.nodes]
      rw [htargets] at htarget
      rcases List.mem_append.mp htarget with htarget | htarget
      · exact hchild List.mem_cons_self (ihl hl htarget)
      · exact hchild (List.mem_cons_of_mem _ List.mem_cons_self) (ihr hr htarget)
  | store name input ih =>
      obtain ⟨i, hi, h⟩ := bind_eq_ok.mp h
      cases h
      rw [Operator.targets_store] at htarget
      rcases List.mem_cons.mp htarget with rfl | htarget
      · exact List.mem_filterMap.mpr ⟨_, mem_nodes_self _, rfl⟩
      · exact hchild (List.mem_singleton.mpr rfl) (ih hi htarget)
  | _ =>
      rename_i ih
      obtain ⟨i, hi, h⟩ := bind_eq_ok.mp h
      cases h
      exact hchild (List.mem_singleton.mpr rfl) (ih hi htarget)

theorem Script.storesLast_of_lower {script : Script} {statements : List Statement}
    {u : CompiledUnit}
    (hstores : ∀ d ∈ script.definitions, ∀ target, Plan.Access.store target ∉ d.2.accesses)
    (h : script.compile statements = .ok u) {size : Nat} {phys : PhysicalUnit}
    (hphys : u.lower size = .ok phys) : phys.StoresLast := by
  obtain ⟨c, hc, hsides, hstatements⟩ := Script.built_of_compile h
  obtain ⟨hplans, houtputs⟩ := CompiledUnit.lower_eq_ok.mp hphys
  rw [hsides] at hplans
  have hempty : ∀ {a x i}, c.get? a = some x → x.plan.lower size = .ok i → i.targets = [] := by
    intro a x i hx hi
    refine List.eq_nil_iff_forall_not_mem.mpr fun target htarget => ?_
    obtain ⟨b, d, -, hd, hstore⟩ :=
      hc.accesses hx (Plan.mem_accesses_of_lower hi htarget)
    exact hstores _ (Script.mem_of_get? hd) target hstore
  constructor
  · intro p hp
    obtain ⟨s, hs, hlower⟩ := forall_right_of_forall₂ hplans p hp
    obtain ⟨a, -, ha⟩ := hc.indexes.first s hs
    exact hempty ha (SideInput.plan_of_lower hlower)
  · intro o ho
    obtain ⟨s, hs, hlower⟩ := forall_right_of_forall₂ houtputs o ho
    obtain ⟨t, -, x, hx, rfl⟩ := forall_right_of_forall₂ hstatements s hs
    obtain ⟨plan, hplan, rfl⟩ := CompiledStatement.lower_eq_ok.mp hlower
    change (Compilation.statementPlan t.target x.plan).lower size = .ok plan at hplan
    cases htarget : t.target with
    | collect =>
        rw [htarget] at hplan
        exact ⟨plan, hempty hx hplan, by simp [Statement.compiled, htarget]⟩
    | store name =>
        rw [htarget] at hplan
        obtain ⟨i, hi, hstore⟩ := bind_eq_ok.mp hplan
        cases hstore
        exact ⟨i, hempty hx hi, by simp [Statement.compiled, htarget]⟩

/-- The stages of an accepted unit name every dependency. If no definition stores anything, and the
statements store to tables of their own that nothing in the unit scans, then the stages in any
order, each after its parents, fill the slots, give the results and leave the tables that the unit
does when its side inputs run in the order of their numbers and then its outputs in statement
order. -/
theorem Script.runStages_agree {script : Script} {statements : List Statement} {u : CompiledUnit}
    (hscript : script.IsScripted)
    (hstores : ∀ d ∈ script.definitions, ∀ target, Plan.Access.store target ∉ d.2.accesses)
    (h : script.compile statements = .ok u) {batchSize : Nat} {phys : PhysicalUnit}
    (hphys : u.lower batchSize = .ok phys) (hapart : phys.StoresApart) {order : List Nat}
    (horder : phys.StageOrder order) (settings : RunSettings) (w : EngineState) :
    (∀ id, (phys.runStages settings order w).slots.find? (·.id = id) =
        (materializeAll settings phys.schedule [] w).1.find? (·.id = id)) ∧
      (∀ slot ∈ (phys.runStages settings order w).slots, slot.state.isTerminal = true) ∧
      (∀ k, (phys.runStages settings order w).results.lookup (phys.sideInputs.length + k) =
        (phys.runAll settings w).1[k]?) ∧
      ∀ name, (phys.runStages settings order w).state.catalog.get name =
        (phys.runAll settings w).2.catalog.get name :=
  horder.agree (Script.closed_of_lower hscript h hphys)
    (Script.storesLast_of_lower hstores h hphys) hapart settings w

/-- Two stores, of which only the first one waits for a side input. -/
def orderStores : List Statement := [⟨"top", .store "out"⟩, ⟨"orders", .store "copy"⟩]

theorem bestOrders_stages : ∃ u phys, bestOrders.compile orderStores = .ok u ∧
    u.lower 8192 = .ok phys ∧ phys.targets = ["out", "copy"] ∧
      phys.sideInputs.map (·.plan.sources) = [["orders"]] ∧
      phys.outputs.map (·.plan.sources) = [["orders"], ["orders"]] ∧
      phys.stages.map (fun s => (s.id, s.parents)) = [(0, []), (1, [0]), (2, [])] := by
  have hunit : (bestOrders.compile orderStores >>= fun u => (u.lower 8192).map fun phys =>
      (phys.targets, phys.sideInputs.map (·.plan.sources), phys.outputs.map (·.plan.sources),
        phys.stages.map fun s => (s.id, s.parents))) =
      .ok (["out", "copy"], [["orders"]], [["orders"], ["orders"]],
        [(0, []), (1, [0]), (2, [])]) := by
    cbv
  obtain ⟨u, hu, hunit⟩ := bind_eq_ok.mp hunit
  obtain ⟨phys, hphys, hfacts⟩ := map_eq_ok.mp hunit
  simp only [Prod.mk.injEq] at hfacts
  exact ⟨u, phys, hu, hphys, hfacts⟩

theorem bestOrders_runStages : ∃ u phys, bestOrders.compile orderStores = .ok u ∧
    u.lower 8192 = .ok phys ∧ phys.StoresApart ∧ phys.StageOrder [2, 0, 1] ∧
      ∀ (settings : RunSettings) (w : EngineState),
        (∀ id, (phys.runStages settings [2, 0, 1] w).slots.find? (·.id = id) =
            (materializeAll settings phys.schedule [] w).1.find? (·.id = id)) ∧
          (∀ slot ∈ (phys.runStages settings [2, 0, 1] w).slots,
            slot.state.isTerminal = true) ∧
          (∀ k, (phys.runStages settings [2, 0, 1] w).results.lookup
            (phys.sideInputs.length + k) = (phys.runAll settings w).1[k]?) ∧
          ∀ name, (phys.runStages settings [2, 0, 1] w).state.catalog.get name =
            (phys.runAll settings w).2.catalog.get name := by
  obtain ⟨u, phys, hu, hphys, htargets, hsides, houtputs, hstages⟩ := bestOrders_stages
  have hapart : phys.StoresApart := by
    refine ⟨by simp [htargets], fun p hp source hsource => ?_, fun o ho source hsource => ?_⟩
    · have hmem := List.mem_map_of_mem (f := fun p : SideInputPlan => p.plan.sources) hp
      simp only [hsides, List.mem_singleton] at hmem
      simp only [hmem, List.mem_singleton] at hsource
      simp [htargets, hsource]
    · have hmem := List.mem_map_of_mem (f := fun o : OutputPlan => o.plan.sources) ho
      simp only [houtputs, List.mem_cons, List.not_mem_nil, or_false, or_self] at hmem
      simp only [hmem, List.mem_singleton] at hsource
      simp [htargets, hsource]
  have horder : phys.StageOrder [2, 0, 1] := by
    constructor
    · have hids := congrArg (List.map Prod.fst) hstages
      rw [List.map_map] at hids
      change phys.stages.map (·.id) = [0, 1, 2] at hids
      rw [hids]
      decide
    · intro before n after hsplit s hs hn parent hparent
      have hmem := List.mem_map_of_mem (f := fun s : Stage => (s.id, s.parents)) hs
      simp only [hstages, List.mem_cons, Prod.mk.injEq, List.not_mem_nil, or_false] at hmem
      rcases hmem with ⟨hid, hnone⟩ | ⟨hid, hone⟩ | ⟨hid, hnone⟩
      · simp [hnone] at hparent
      · -- Only the second stage has a parent, and it comes last.
        rw [hone, List.mem_singleton] at hparent
        rw [hparent]
        rw [hid] at hn
        subst hn
        match before with
        | [] => simp at hsplit
        | [_] => simp at hsplit
        | _ :: b :: _ =>
            simp only [List.cons_append, List.cons.injEq] at hsplit
            simp [hsplit.2.1.symm]
      · simp [hnone] at hparent
  have hstores : ∀ d ∈ bestOrders.definitions, ∀ target,
      Plan.Access.store target ∉ d.2.accesses := by
    simp [bestOrders, topOrders, Plan.accesses, Plan.nodes, Plan.access?]
  exact ⟨u, phys, hu, hphys, hapart, horder,
    Script.runStages_agree isScripted_bestOrders hstores hu hphys hapart horder⟩

end RelScript
