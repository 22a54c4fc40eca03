import RelScript.Proofs.Encoding.Fingerprint
import RelScript.Proofs.Script.ScalarBinding
import RelScript.Proofs.Unit.Renumbering

/-!
Where the contents of compiled plans come from: what a compiled plan reads and writes, and its
constants, are those of the definitions that its alias reaches.
-/

namespace RelScript

/-- Some definition that the roots reach reads or writes it. -/
def Script.Accesses (script : Script) (roots : List String) (x : Plan.Access) : Prop :=
  ∃ a d, script.Reached roots a ∧ script.get? a = some d ∧ x ∈ d.accesses

/-- A script of which no definition stores anything, lists side inputs, or holds placeholders, and
whose constants are told apart by how they are written. -/
structure Script.IsLegible (script : Script) : Prop where
  isScripted : script.IsScripted
  storesNothing : ∀ d ∈ script.definitions, ∀ target, Plan.Access.store target ∉ d.2.accesses
  toldApart : ∀ d ∈ script.definitions, ∀ d' ∈ script.definitions, ∀ v ∈ d.2.literals,
    ∀ v' ∈ d'.2.literals, v.legible = v'.legible → v = v'

theorem Script.IsLegible.not_accesses_store {script : Script} (h : script.IsLegible)
    (roots : List String) (target : String) : ¬ script.Accesses roots (.store target) := by
  rintro ⟨a, d, -, hd, htarget⟩
  exact h.storesNothing _ (Script.mem_of_get? hd) target htarget

/-- A script of which no definition stores anything, lists side inputs, holds placeholders, or holds
constants that are not finite. -/
structure Script.IsPlain (script : Script) : Prop where
  isScripted : script.IsScripted
  storesNothing : ∀ d ∈ script.definitions, ∀ target, Plan.Access.store target ∉ d.2.accesses
  finite : ∀ d ∈ script.definitions, ∀ v ∈ d.2.literals, v.isFinite = true

theorem Script.IsPlain.isLegible {script : Script} (h : script.IsPlain) : script.IsLegible where
  isScripted := h.isScripted
  storesNothing := h.storesNothing
  toldApart d hd d' hd' v hv v' hv' hlegible := by
    rwa [Literal.legible_of_isFinite (h.finite d hd v hv),
      Literal.legible_of_isFinite (h.finite d' hd' v' hv')] at hlegible

namespace Expr

theorem findsScalars_literal? : FindsScalars literal? := by
  intro e he
  cases e with
  | literal v => cases he
  | _ => rfl

theorem literals_substitute (value : Placeholding) (e : Expr) :
    (e.substitute value).literals = e.literals := by
  unfold literals substitute
  induction e with
  | binary l op r ihl ihr =>
      rw [mapLeaves, filterMap_binary findsScalars_literal?, ihl, ihr,
        filterMap_binary findsScalars_literal?]
  | cast e t ih =>
      rw [mapLeaves, filterMap_cast findsScalars_literal?, ih, filterMap_cast findsScalars_literal?]
  | junction j l r ihl ihr =>
      rw [mapLeaves, filterMap_junction findsScalars_literal?, ihl, ihr,
        filterMap_junction findsScalars_literal?]
  | not e ih =>
      rw [mapLeaves, filterMap_not findsScalars_literal?, ih, filterMap_not findsScalars_literal?]
  | _ => rfl

end Expr

theorem Plan.literals_substitute (value : Placeholding) (p : Plan) :
    (p.substitute value).literals = p.literals := by
  rw [literals, substitute, allExprs_relist, allExprs_mapExprs, List.flatMap_map, literals]
  exact List.flatMap_congr fun e _ => e.literals_substitute value

namespace Compilation

variable {script : Script} {roots : List String} {c : Compilation}

theorem Built.accesses (h : Built script roots c) {a : String} {x : CompiledAlias}
    (hx : c.get? a = some x) {y : Plan.Access} (hy : y ∈ x.plan.accesses) :
    script.Accesses roots y := by
  induction h generalizing a x with
  | empty => cases hx
  | @add c c' b d _ hreached hd _ _ hadd ih =>
      obtain ⟨bound, r, z, hbind, hanalyze, rfl⟩ := add_eq_ok hadd
      have hbound := ScalarScope.accesses_of_bindPlan hbind
      rw [get?, List.lookup_cons] at hx
      split at hx
      · cases hx
        obtain ⟨columns, hplan, -⟩ := RelationScope.analyze_eq_ok.mp hanalyze
        rcases hplan.access_origin hy with ⟨hown, -⟩ | ⟨b', q, -, hq, hyq⟩
        · exact ⟨b, d, hreached, hd, hbound ▸ hown⟩
        · obtain ⟨z', hz', rfl⟩ := map_eq_ok.mp hq
          exact ih (find_eq_ok.mp hz') hyq
      · exact ih hx hy

theorem Built.literals (hscript : script.IsScripted) (h : Built script roots c) {a : String}
    {x : CompiledAlias} (hx : c.get? a = some x) :
    ∀ v ∈ x.plan.literals, ∃ d ∈ script.definitions, v ∈ d.2.literals := by
  refine h.induction hscript
    (P := fun _ x => ∀ v ∈ x.plan.literals, ∃ d ∈ script.definitions, v ∈ d.2.literals) ?_ hx
  intro a d x hd _ hsolves hdeps v hv
  obtain ⟨scope, columns, hplan, -, hscope⟩ := hsolves.analyzesPlan
  obtain ⟨e', he', hve⟩ := List.mem_flatMap.mp hv
  rcases hplan.expr_origin he' with ⟨e, he, hbecomes⟩ | ⟨b, q, -, hq, heq⟩
  · have hvd : v ∈ (d.substitute (placeholding c.compiled c.registry)).literals := by
      refine List.mem_flatMap.mpr ⟨e, he, ?_⟩
      rw [Expr.literals, ← hbecomes.filterMap_parts Expr.findsScalars_literal?]
      exact hve
    rw [Plan.literals_substitute] at hvd
    exact ⟨_, Script.mem_of_get? hd, hvd⟩
  · obtain ⟨z, hb, hz, rfl, -⟩ := hscope b q hq
    exact hdeps b hb z hz v (List.mem_flatMap.mpr ⟨e', heq, hve⟩)

/-- Where constants are told apart, a side input runs the plan of every alias that it stands for. -/
theorem Built.plan_of_holds (hlegible : script.IsLegible) (h : Built script roots c) {a : String}
    {id : SideInputId} (hid : c.registry.Holds a id) :
    ∃ s x, c.registry[id]? = some s ∧ c.get? a = some x ∧ s.plan = x.plan := by
  have hdescribed := h.described hlegible.isScripted
  obtain ⟨s, hs, ha⟩ := hid
  have hmem := List.mem_of_getElem? hs
  obtain ⟨x, hx, hfingerprint⟩ := hdescribed.alike s hmem a ha
  obtain ⟨b, -, hb⟩ := hdescribed.first s hmem
  refine ⟨s, x, hs, hx, ?_⟩
  rw [hdescribed.shown s hmem, Plan.fingerprint_eq_iff] at hfingerprint
  have hapart : {v | ∃ d ∈ script.definitions, v ∈ d.2.literals}.InjOn Literal.legible := by
    rintro v ⟨d, hd, hv⟩ v' ⟨d', hd', hv'⟩
    exact hlegible.toldApart d hd d' hd' v hv v' hv'
  exact (Plan.eq_of_legible hapart (h.literals hlegible.isScripted hx)
    (h.literals hlegible.isScripted hb) hfingerprint).symm

end Compilation

end RelScript
