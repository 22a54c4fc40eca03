import RelScript.Execution.UnitRun
import RelScript.Proofs.Physical.Trees
import RelScript.Proofs.Unit.Scoping

/-!
Compiled units can be lowered: their plans read no relations by name, and their side inputs wait
only for earlier ones.
-/

namespace RelScript

namespace Plan

theorem exists_lower {p : Plan} (h : ∀ n ∈ p.nodes, n.relationAlias? = none) (batchSize : Nat) :
    ∃ o, p.lower batchSize = .ok o := by
  induction p with
  | load => exact ⟨_, rfl⟩
  | relation aliasName => cases h _ (List.mem_singleton.mpr rfl)
  | join left right on ihl ihr =>
      obtain ⟨-, hchildren⟩ := List.forall_mem_cons.mp h
      obtain ⟨hl, hr⟩ := List.forall_mem_append.mp hchildren
      obtain ⟨l, hl⟩ := ihl hl
      obtain ⟨r, hr⟩ := ihr hr
      exact ⟨_, bind_eq_ok.mpr ⟨l, hl, bind_eq_ok.mpr ⟨r, hr, rfl⟩⟩⟩
  | _ =>
      rename_i ih
      obtain ⟨-, hinput⟩ := List.forall_mem_cons.mp h
      obtain ⟨o, ho⟩ := ih hinput
      exact ⟨_, bind_eq_ok.mpr ⟨o, ho, rfl⟩⟩

/-- An operator tree binds only side inputs that its plan lists. -/
theorem mem_mentions_of_lower {p : Plan} {batchSize : Nat} {o : Operator}
    (h : p.lower batchSize = .ok o) {id : SideInputId}
    (hid : id ∈ o.nodes.flatMap Operator.ownSideInputs) : id ∈ p.mentions := by
  have hchild : ∀ {n c : Plan}, c ∈ n.children → id ∈ c.mentions → id ∈ n.mentions := by
    intro n c hc hmem
    obtain ⟨m, hm, hidm⟩ := List.mem_flatMap.mp hmem
    exact List.mem_flatMap.mpr ⟨m, nodes_subset_of_child hc hm, hidm⟩
  induction p generalizing o with
  | load source schema =>
      cases h
      cases hid
  | relation aliasName => cases h
  | join left right on ihl ihr =>
      obtain ⟨l, hl, h⟩ := bind_eq_ok.mp h
      obtain ⟨r, hr, h⟩ := bind_eq_ok.mp h
      cases h
      have hown : (l.hashJoin r on).ownSideInputs = [] := rfl
      rw [Operator.nodes, List.flatMap_cons, List.flatMap_append, hown, List.nil_append] at hid
      rcases List.mem_append.mp hid with hid | hid
      · exact hchild List.mem_cons_self (ihl hl hid)
      · exact hchild (List.mem_cons_of_mem _ List.mem_cons_self) (ihr hr hid)
  | sideInputs ids input ih =>
      obtain ⟨i, hi, h⟩ := bind_eq_ok.mp h
      cases h
      rcases List.mem_append.mp hid with hid | hid
      · exact List.mem_flatMap.mpr ⟨_, mem_nodes_self _, hid⟩
      · exact hchild (List.mem_singleton.mpr rfl) (ih hi hid)
  | _ =>
      rename_i ih
      obtain ⟨i, hi, h⟩ := bind_eq_ok.mp h
      cases h
      exact hchild (List.mem_singleton.mpr rfl) (ih hi hid)

end Plan

theorem SideInput.lower_eq_ok {s : SideInput} {batchSize : Nat} {p : SideInputPlan} :
    s.lower batchSize = .ok p ↔
      ∃ o, s.plan.lower batchSize = .ok o ∧ (∀ id ∈ o.sideInputs, id < s.id) ∧
        ⟨s.id, s.aliasName, o, s.schema, s.consumers⟩ = p := by
  have hbelow : ∀ o : Operator, o.sideInputs.find? (s.id ≤ ·) = none ↔
      ∀ id ∈ o.sideInputs, id < s.id := by
    simp
  rw [lower, bind_eq_ok]
  constructor
  · rintro ⟨o, ho, h⟩
    split at h
    · cases h
    · rename_i hnone
      exact ⟨o, ho, (hbelow o).mp hnone, pure_eq_ok.mp h⟩
  · rintro ⟨o, ho, hlt, h⟩
    refine ⟨o, ho, ?_⟩
    rw [(hbelow o).mpr hlt]
    exact pure_eq_ok.mpr h

theorem SideInput.plan_of_lower {s : SideInput} {batchSize : Nat} {p : SideInputPlan}
    (h : s.lower batchSize = .ok p) : s.plan.lower batchSize = .ok p.plan := by
  obtain ⟨o, ho, -, rfl⟩ := lower_eq_ok.mp h
  exact ho

theorem SideInput.id_of_lower {s : SideInput} {batchSize : Nat} {p : SideInputPlan}
    (h : s.lower batchSize = .ok p) : p.id = s.id := by
  obtain ⟨o, -, -, rfl⟩ := lower_eq_ok.mp h
  rfl

theorem SideInput.aliasName_of_lower {s : SideInput} {batchSize : Nat} {p : SideInputPlan}
    (h : s.lower batchSize = .ok p) : p.aliasName = s.aliasName := by
  obtain ⟨o, -, -, rfl⟩ := lower_eq_ok.mp h
  rfl

theorem SideInput.below_of_lower {s : SideInput} {batchSize : Nat} {p : SideInputPlan}
    (h : s.lower batchSize = .ok p) : ∀ id ∈ p.plan.sideInputs, id < p.id := by
  obtain ⟨o, -, hbelow, rfl⟩ := lower_eq_ok.mp h
  exact hbelow

theorem PhysicalUnit.schedule_of_pairwise {u : PhysicalUnit}
    (h : u.sideInputs.Pairwise fun p q => p.id < q.id) : u.schedule = u.sideInputs :=
  List.mergeSort_of_pairwise (h.imp fun hlt => decide_eq_true hlt.le)

theorem CompiledUnit.lower_eq_ok {u : CompiledUnit} {batchSize : Nat} {phys : PhysicalUnit} :
    u.lower batchSize = .ok phys ↔
      List.Forall₂ (fun s p => s.lower batchSize = .ok p) u.sideInputs phys.sideInputs ∧
        List.Forall₂ (fun s p => s.lower batchSize = .ok p) u.statements phys.outputs := by
  rw [lower, bind_eq_ok]
  constructor
  · rintro ⟨sideInputs, hsides, h⟩
    obtain ⟨outputs, houtputs, h⟩ := bind_eq_ok.mp h
    cases h
    exact ⟨mapM_eq_ok.mp hsides, mapM_eq_ok.mp houtputs⟩
  · rintro ⟨hsides, houtputs⟩
    exact ⟨_, mapM_eq_ok.mpr hsides, bind_eq_ok.mpr ⟨_, mapM_eq_ok.mpr houtputs, rfl⟩⟩

theorem CompiledStatement.lower_eq_ok {s : CompiledStatement} {batchSize : Nat} {p : OutputPlan} :
    s.lower batchSize = .ok p ↔
      ∃ o, s.plan.lower batchSize = .ok o ∧ ⟨s.aliasName, s.target, o, s.schema⟩ = p := by
  rw [lower, bind_eq_ok]
  exact ⟨fun ⟨o, ho, h⟩ => ⟨o, ho, pure_eq_ok.mp h⟩, fun ⟨o, ho, h⟩ => ⟨o, ho, pure_eq_ok.mpr h⟩⟩

theorem Script.exists_lower_of_compile {script : Script} {statements : List Statement}
    {u : CompiledUnit} (hscript : script.IsScripted) (h : script.compile statements = .ok u)
    (batchSize : Nat) : ∃ phys, u.lower batchSize = .ok phys := by
  obtain ⟨c, hc, hsides, hstatements⟩ := Script.built_of_compile h
  have hside : ∀ s ∈ u.sideInputs, ∃ p, s.lower batchSize = .ok p := by
    rw [hsides]
    intro s hs
    obtain ⟨k, hk⟩ := List.getElem?_of_mem hs
    obtain ⟨hid, hscoped, hbelow⟩ := hc.wellScoped_sideInput hscript hk
    obtain ⟨o, ho⟩ := Plan.exists_lower hscoped.inlined batchSize
    refine ⟨_, SideInput.lower_eq_ok.mpr ⟨o, ho, fun id hmem => ?_, rfl⟩⟩
    rw [hid]
    exact hbelow id (Plan.mem_mentions_of_lower ho (Operator.mem_sideInputs.mp hmem))
  have hstatement : ∀ s ∈ u.statements, ∃ p, s.lower batchSize = .ok p := by
    intro s hs
    obtain ⟨t, -, x, hx, rfl⟩ := forall_right_of_forall₂ hstatements s hs
    obtain ⟨o, ho⟩ := Plan.exists_lower
      ((hc.wellScoped hscript hx).statementPlan t.target).inlined batchSize
    exact ⟨_, CompiledStatement.lower_eq_ok.mpr ⟨o, ho, rfl⟩⟩
  obtain ⟨sideInputs, hlowered⟩ := exists_mapM_eq_ok hside
  obtain ⟨outputs, houtputs⟩ := exists_mapM_eq_ok hstatement
  exact ⟨⟨sideInputs, outputs⟩,
    CompiledUnit.lower_eq_ok.mpr ⟨mapM_eq_ok.mp hlowered, mapM_eq_ok.mp houtputs⟩⟩

end RelScript
