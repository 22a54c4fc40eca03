import RelScript.Proofs.Outcome
import RelScript.Proofs.Plan.Traversal

/-!
What binding keeps, whatever its scope says: the tables and aliases that a plan reads and writes,
and every fact about the state that taking a side input keeps.
-/

namespace RelScript

namespace ScalarScope

/-- The step keeps a fact about the state, and its results fit. -/
def Preserves {σ α : Type} (fact : σ → Prop) (step : StateT σ Outcome α) (fits : α → Prop) : Prop :=
  ∀ s a s', fact s → step s = .ok (a, s') → fact s' ∧ fits a

namespace Preserves

variable {σ α β : Type} {fact : σ → Prop} {fits : α → Prop} {fits' : β → Prop}

theorem pure {a : α} (h : fits a) : Preserves fact (Pure.pure a) fits := by
  rintro s _ _ hs ⟨⟩
  exact ⟨hs, h⟩

theorem throw (e : Error) : Preserves fact (MonadExcept.throw e : StateT σ Outcome α) fits := by
  rintro s _ _ hs ⟨⟩

theorem lift (x : Outcome α) : Preserves fact (liftM x : StateT σ Outcome α) fun _ => True := by
  intro s a s' hs h
  cases x with
  | ok b =>
      cases h
      exact ⟨hs, trivial⟩
  | error e => cases h

theorem bind {step : StateT σ Outcome α} {next : α → StateT σ Outcome β}
    (h : Preserves fact step fits) (hnext : ∀ a, fits a → Preserves fact (next a) fits') :
    Preserves fact (step >>= next) fits' := by
  intro s b s'' hs hb
  obtain ⟨a, s', ha, hb⟩ := stateBind_eq_ok.mp hb
  obtain ⟨hs', hfits⟩ := h s a s' hs ha
  exact hnext a hfits s' b s'' hs' hb

end Preserves

open Preserves

section Steps

variable {σ : Type} {fact : σ → Prop} {scope : ScalarScope σ}
  (hscope : ∀ a, Preserves fact (scope.sideInput a) fun _ => True)

include hscope

theorem preserves_placeholder (a : String) (field : FieldSelector) :
    Preserves fact (scope.placeholder a field) fun _ => True := by
  unfold placeholder
  apply (lift _).bind
  intro schema _
  apply (lift _).bind
  intro found _
  apply (hscope a).bind
  intro id _
  exact pure trivial

theorem preserves_bindExpr (e : Expr) : Preserves fact (scope.bindExpr e) fun _ => True := by
  induction e with
  | scalarRef a field =>
      apply (preserves_placeholder hscope a field).bind
      intro p _
      exact pure trivial
  | relationRef a => exact throw _
  | binary l op r ihl ihr | junction j l r ihl ihr =>
      apply ihl.bind
      intro l _
      apply ihr.bind
      intro r _
      exact pure trivial
  | cast e t ih | not e ih =>
      apply ih.bind
      intro e _
      exact pure trivial
  | _ => exact pure trivial

omit hscope in
theorem preserves_bindAll {α : Type} {step : α → StateT σ Outcome (α × List SideInputId)}
    (hstep : ∀ a, Preserves fact (step a) fun _ => True) (items : List α) :
    Preserves fact (bindAll step items) fun _ => True := by
  induction items with
  | nil => exact pure trivial
  | cons a items ih =>
      apply (hstep a).bind
      intro first _
      apply ih.bind
      intro rest _
      exact pure trivial

theorem preserves_bindColumn (c : Named Expr) :
    Preserves fact (scope.bindColumn c) fun _ => True := by
  apply (preserves_bindExpr hscope c.value).bind
  intro e _
  exact pure trivial

theorem preserves_bindAggregate (a : Named Aggregate) :
    Preserves fact (scope.bindAggregate a) fun _ => True := by
  apply (preserves_bindExpr hscope a.value.arg).bind
  intro e _
  exact pure trivial

theorem preserves_bindKeys (k : Expr × Expr) :
    Preserves fact (scope.bindKeys k) fun _ => True := by
  apply (preserves_bindExpr hscope k.1).bind
  intro l _
  apply (preserves_bindExpr hscope k.2).bind
  intro r _
  exact pure trivial

theorem preserves_bindPlan (p : Plan) :
    Preserves fact (scope.bindPlan p) fun q => q.accesses = p.accesses := by
  induction p with
  | load | relation => exact pure rfl
  | project columns input ih =>
      apply ih.bind
      intro q hq
      apply (preserves_bindAll (preserves_bindColumn hscope) columns).bind
      intro bound _
      exact pure ((Plan.accesses_wrap _ _).trans hq)
  | filter predicate input ih | split branch predicate input ih =>
      apply ih.bind
      intro q hq
      apply (preserves_bindExpr hscope predicate).bind
      intro bound _
      exact pure ((Plan.accesses_wrap _ _).trans hq)
  | aggregate keys aggregates input ih =>
      apply ih.bind
      intro q hq
      apply (preserves_bindAll (preserves_bindExpr hscope) keys).bind
      intro ks _
      apply (preserves_bindAll (preserves_bindAggregate hscope) aggregates).bind
      intro gs _
      exact pure ((Plan.accesses_wrap _ _).trans hq)
  | join left right on ihl ihr =>
      apply ihl.bind
      intro l hl
      apply ihr.bind
      intro r hr
      apply (preserves_bindAll (preserves_bindKeys hscope) on).bind
      intro bound _
      refine pure ((Plan.accesses_wrap _ _).trans ?_)
      simp_all [Plan.accesses, Plan.nodes, Plan.access?, List.filterMap_cons]
  | limit count input ih | store target input ih | sideInputs ids input ih =>
      apply ih.bind
      intro q hq
      exact pure (by simp_all [Plan.accesses, Plan.nodes, Plan.access?, List.filterMap_cons])

end Steps

theorem accesses_of_bindPlan {σ : Type} {scope : ScalarScope σ} {p bound : Plan} {s s' : σ}
    (h : scope.bindPlan p s = .ok (bound, s')) : bound.accesses = p.accesses := by
  have htrivial : ∀ a, Preserves (fun _ => True) (scope.sideInput a) fun _ => True :=
    fun _ _ _ _ _ _ => ⟨trivial, trivial⟩
  exact (preserves_bindPlan htrivial p s bound s' trivial h).2

end ScalarScope

end RelScript
