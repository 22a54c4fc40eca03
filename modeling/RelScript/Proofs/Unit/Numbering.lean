import RelScript.Proofs.Script.ScalarBinding
import RelScript.Proofs.Unit.Binding
import RelScript.Proofs.Unit.History

/-!
The registry of every compilation indexes the compiled aliases, whatever the definitions hold: the
number of a side input is its place, and its plan is the plan of a compiled alias.
-/

namespace RelScript

namespace Compilation

variable {script : Script} {roots : List String}

theorem sideInput_eq_ok {compiled : List (String × CompiledAlias)} {consumer a : String}
    {r r' : Registry} {id : SideInputId} :
    (scalarScope compiled consumer).sideInput a r = .ok (id, r') ↔
      ∃ x, compiled.lookup a = some x ∧ id = (r.register a x.plan x.schema).1 ∧
        r' = (r.register a x.plan x.schema).2.addConsumer id consumer := by
  constructor
  · intro h
    obtain ⟨x, hx, h⟩ := stateBind_lift_eq_ok.mp h
    cases h
    exact ⟨x, find_eq_ok.mp hx, rfl, rfl⟩
  · rintro ⟨x, hx, rfl, rfl⟩
    exact stateBind_lift_of_ok (find_eq_ok.mpr hx) _ r

theorem sideInput_spec {compiled : List (String × CompiledAlias)} {consumer a : String}
    {r r' : Registry} {id : SideInputId} (hr : r.Indexes compiled)
    (h : (scalarScope compiled consumer).sideInput a r = .ok (id, r')) :
    r'.Indexes compiled ∧ r.Extends r' ∧ r'.Holds a id := by
  obtain ⟨x, hx, rfl, rfl⟩ := sideInput_eq_ok.mp h
  obtain ⟨hindexes, hext, hholds⟩ := hr.register hx (Prod.mk.eta).symm
  have hnoted := Registry.extends_addConsumer (r.register a x.plan x.schema).1 consumer
    (r.register a x.plan x.schema).2
  exact ⟨hindexes.addConsumer _ consumer, hext.trans hnoted, hholds.extend hnoted⟩

theorem preserves_sideInput (compiled : List (String × CompiledAlias)) (consumer a : String) :
    ScalarScope.Preserves (Registry.Indexes compiled)
      ((scalarScope compiled consumer).sideInput a) fun _ => True :=
  fun _ _ _ hr h => ⟨(sideInput_spec hr h).1, trivial⟩

/-- The registry of a compilation indexes the aliases that are compiled. -/
theorem Built.indexes {c : Compilation} (h : Built script roots c) :
    c.registry.Indexes c.compiled := by
  induction h with
  | empty => exact Registry.indexes_nil
  | @add c c' a d _ _ _ hnone _ hadd ih =>
      have hkeeps := keeps_add hnone hadd
      obtain ⟨bound, r, x, hbind, -, rfl⟩ := add_eq_ok hadd
      have hr := (ScalarScope.preserves_bindPlan (preserves_sideInput c.compiled a) d
        c.registry bound r ih hbind).1
      exact hr.mono hkeeps

end Compilation

end RelScript
