import RelScript.Proofs.Script.ScalarAsking
import RelScript.Proofs.Unit.Consistency
import RelScript.Proofs.Unit.Numbering

/-!
Compiled aliases, seen from the end of the compilation. Numbers and plans stay as they are when
others are added, so binding and analyzing a definition again at the end gives the plan that it was
given when it was compiled.
-/

namespace RelScript

namespace Compilation

variable {script : Script} {roots : List String}

/-- How scalar references are bound when nothing is registered any more. -/
def settledScope (c : Compilation) : ScalarScope Unit where
  schema aliasName := (find c.compiled aliasName).map (·.schema)
  sideInput aliasName := pure (c.registry.idOf aliasName)

section Settling

variable {compiled : List (String × CompiledAlias)} {consumer : String} {r r' : Registry}
  {c : Compilation}

theorem extends_placeholders {refs : List (String × FieldSelector)} {ps : List Placeholder}
    (hrun : (scalarScope compiled consumer).placeholders refs r = .ok (ps, r'))
    (hr : r.Indexes compiled) : r.Extends r' := by
  induction refs generalizing r ps with
  | nil =>
      obtain ⟨-, rfl⟩ := ScalarScope.placeholders_nil_eq_ok.mp hrun
      exact Registry.Extends.refl _
  | cons ref refs ih =>
      obtain ⟨p, t, rest, hp, hrest, -⟩ := ScalarScope.placeholders_cons_eq_ok.mp hrun
      obtain ⟨_, _, _, id, -, -, hid, -⟩ := ScalarScope.placeholder_eq_ok.mp hp
      obtain ⟨hindexes, hext, -⟩ := sideInput_spec hr hid
      exact hext.trans (ih hrest hindexes)

theorem placeholders_settledScope
    (hkeeps : ∀ a x, compiled.lookup a = some x → c.get? a = some x)
    (hc : c.registry.Indexes c.compiled) {refs : List (String × FieldSelector)}
    {ps : List Placeholder}
    (hrun : (scalarScope compiled consumer).placeholders refs r = .ok (ps, r'))
    (hr : r.Indexes compiled) (hext : r'.Extends c.registry) :
    c.settledScope.placeholders refs () = .ok (ps, ()) := by
  induction refs generalizing r ps with
  | nil =>
      obtain ⟨rfl, -⟩ := ScalarScope.placeholders_nil_eq_ok.mp hrun
      rfl
  | cons ref refs ih =>
      obtain ⟨p, t, rest, hp, hrest, rfl⟩ := ScalarScope.placeholders_cons_eq_ok.mp hrun
      obtain ⟨schema, index, type, id, hschema, hfield, hid, rfl⟩ :=
        ScalarScope.placeholder_eq_ok.mp hp
      obtain ⟨x, hx, rfl⟩ := map_eq_ok.mp hschema
      obtain ⟨hindexes, -, hholds⟩ := sideInput_spec hr hid
      have hlater := (extends_placeholders hrest hindexes).trans hext
      refine ScalarScope.placeholders_cons_eq_ok.mpr ⟨_, (), rest, ?_, ih hrest hindexes, rfl⟩
      refine ScalarScope.placeholder_eq_ok.mpr ⟨x.schema, index, type, id, ?_, hfield, ?_, rfl⟩
      · exact map_eq_ok.mpr ⟨x, find_eq_ok.mpr (hkeeps _ x (find_eq_ok.mp hx)), rfl⟩
      · show Except.ok (c.registry.idOf ref.1, ()) = _
        rw [hc.idOf_eq (hholds.extend hlater)]

end Settling

/-- The definition of an alias, bound with the numbers and analyzed with the plans of `c`, gives the
plan of the alias. -/
def Settled (script : Script) (c : Compilation) (a : String) (x : CompiledAlias) : Prop :=
  ∃ d bound columns, script.get? a = some d ∧ c.settledScope.bindPlan d () = .ok (bound, ()) ∧
    (relationScope script c.compiled).AnalyzesPlan bound x.plan columns ∧
      columns.schema = x.schema

theorem Built.settled_of_extends {c c' : Compilation} (h : Built script roots c)
    (hc' : c'.registry.Indexes c'.compiled) (hext : c.Extends c') {a : String} {x : CompiledAlias}
    (hx : c.get? a = some x) : Settled script c' a x := by
  induction h generalizing a x with
  | empty => cases hx
  | @add c c₁ b d hb _ hd hnone hdeps hadd ih =>
      have hkeeps := keeps_add hnone hadd
      obtain ⟨bound, r, y, hbind, hanalyze, rfl⟩ := add_eq_ok hadd
      obtain ⟨result, hresult⟩ := ScalarScope.asks_bindPlan d
      obtain ⟨hok, ps, hps, hbound⟩ := (hresult ..).mp hbind
      rw [get?, List.lookup_cons] at hx
      split at hx
      · cases hx
        rename_i hab
        obtain ⟨columns, hplan, hschema⟩ := RelationScope.analyze_eq_ok.mp hanalyze
        refine ⟨d, bound, columns, eq_of_beq hab ▸ hd, (hresult ..).mpr ⟨hok, ps, ?_, hbound⟩,
          hplan.congr fun e he => ?_, hschema⟩
        · exact placeholders_settledScope (hkeeps.trans hext.keeps) hc' hps hb.indexes hext.registry
        · rw [ScalarScope.accesses_of_bindPlan hbind] at he
          have hfind := find_keeps (hkeeps.trans hext.keeps)
            (hdeps e (Plan.mem_dependencies_of_relation he))
          exact ⟨congrArg (Except.map _) hfind, congrArg (Except.map _) hfind⟩
      · exact ih ⟨hkeeps.trans hext.keeps,
          (extends_placeholders hps hb.indexes).trans hext.registry⟩ hx

theorem Built.settled {c : Compilation} (h : Built script roots c) {a : String}
    {x : CompiledAlias} (hx : c.get? a = some x) : Settled script c a x :=
  h.settled_of_extends h.indexes ⟨fun _ _ hx => hx, Registry.Extends.refl _⟩ hx

end Compilation

end RelScript
