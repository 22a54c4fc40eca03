import RelScript.Proofs.Analysis.Resolver
import RelScript.Proofs.Outcome
import RelScript.Proofs.Plan.Dependencies
import RelScript.Unit.Compile

/-!
What binding and analysis ask of the other aliases. They look up the aliases that the plan reads and
no others: scopes that agree on these lead to the same result. Where all of these lookups succeed,
neither step fails for an alias that is missing.
-/

namespace RelScript

/-- Whether a failure says that an alias is unknown or was not compiled. -/
def Error.missesAlias : Error → Bool
  | planning (.unknownAlias _) => true
  | planning (.notCompiled _) => true
  | _ => false

/-- Equal results, which are no failures for an alias that is missing. -/
structure Agree {α : Type} (x y : Outcome α) : Prop where
  eq : x = y
  spares : ∀ e, x = .error e → e.missesAlias = false

namespace Agree

variable {α β σ : Type}

theorem ok (a : α) : Agree (.ok a) (.ok a) := by
  refine ⟨rfl, ?_⟩
  rintro e ⟨⟩

theorem error {e : Error} (h : e.missesAlias = false) :
    Agree (.error e : Outcome α) (.error e) := by
  refine ⟨rfl, ?_⟩
  rintro _ ⟨⟩
  exact h

theorem of_ok {x y : Outcome α} {a : α} (hx : x = .ok a) (hy : y = x) : Agree x y := by
  subst hx hy
  exact ok a

theorem bind {x y : Outcome α} {f g : α → Outcome β} (h : Agree x y)
    (hf : ∀ a, Agree (f a) (g a)) : Agree (x >>= f) (y >>= g) := by
  obtain ⟨rfl, hx⟩ := h
  cases x with
  | ok a => exact hf a
  | error e => exact error (hx e rfl)

theorem run_bind {x y : StateT σ Outcome α} {f g : α → StateT σ Outcome β}
    (h : ∀ s, Agree (x s) (y s)) (hf : ∀ a s, Agree (f a s) (g a s)) (s : σ) :
    Agree ((x >>= f) s) ((y >>= g) s) :=
  (h s).bind fun p => hf p.1 p.2

theorem run_pure (a : α) (s : σ) :
    Agree ((pure a : StateT σ Outcome α) s) ((pure a : StateT σ Outcome α) s) :=
  ok (a, s)

theorem run_lift {x y : Outcome α} (h : Agree x y) (s : σ) :
    Agree ((liftM x : StateT σ Outcome α) s) ((liftM y : StateT σ Outcome α) s) :=
  h.bind fun a => ok (a, s)

theorem mapM {f g : α → Outcome β} {items : List α} (h : ∀ a ∈ items, Agree (f a) (g a)) :
    Agree (items.mapM f) (items.mapM g) := by
  induction items with
  | nil => exact ok []
  | cons a items ih =>
      obtain ⟨ha, hrest⟩ := List.forall_mem_cons.mp h
      rw [List.mapM_cons, List.mapM_cons]
      apply ha.bind
      intro b
      apply (ih hrest).bind
      intro bs
      exact ok (b :: bs)

end Agree

open Agree

theorem FieldSelector.agree_resolve (f : FieldSelector) (a : String) (s : RelationSchema) :
    Agree (f.resolve a s) (f.resolve a s) := by
  cases s with
  | none =>
      cases f with
      | name n => exact error rfl
      | position p => exact ok _
  | some s =>
      cases f with
      | name n =>
          rw [FieldSelector.resolve]
          cases Schema.indexOf? s n with
          | some i => exact ok _
          | none => exact error rfl
      | position p =>
          rw [FieldSelector.resolve]
          cases RelationSchema.fieldType? (some s) p with
          | some t => exact ok _
          | none => exact error rfl

namespace ScalarScope

variable {σ : Type}

/-- Two scopes that both know the alias, and say the same of it. -/
structure AgreeAt (scope scope' : ScalarScope σ) (a : String) : Prop where
  schema : Agree (scope.schema a) (scope'.schema a)
  sideInput : ∀ s, Agree (scope.sideInput a s) (scope'.sideInput a s)

variable {scope scope' : ScalarScope σ}

theorem agree_placeholder {a : String} (h : scope.AgreeAt scope' a) (field : FieldSelector)
    (s : σ) : Agree (scope.placeholder a field s) (scope'.placeholder a field s) := by
  apply run_bind (run_lift h.schema)
  intro schema
  apply run_bind (run_lift (field.agree_resolve a schema))
  intro found
  apply run_bind h.sideInput
  intro id
  exact run_pure _

theorem agree_bindExpr {e : Expr} (h : ∀ a, e.ReadsScalar a → scope.AgreeAt scope' a) (s : σ) :
    Agree (scope.bindExpr e s) (scope'.bindExpr e s) := by
  induction e generalizing s with
  | scalarRef a field =>
      apply run_bind (agree_placeholder (h a rfl) field)
      intro p
      exact run_pure _
  | relationRef a => exact error rfl
  | binary l op r ihl ihr | junction j l r ihl ihr =>
      apply run_bind (ihl fun a ha => h a (Or.inl ha))
      intro l
      apply run_bind (ihr fun a ha => h a (Or.inr ha))
      intro r
      exact run_pure _
  | cast e t ih | not e ih =>
      apply run_bind (ih h)
      intro e
      exact run_pure _
  | _ => exact run_pure _ s

theorem agree_bindAll {α : Type} {step step' : α → StateT σ Outcome (α × List SideInputId)}
    {items : List α} (h : ∀ a ∈ items, ∀ s, Agree (step a s) (step' a s)) (s : σ) :
    Agree (bindAll step items s) (bindAll step' items s) := by
  induction items generalizing s with
  | nil => exact run_pure _ s
  | cons a items ih =>
      obtain ⟨ha, hrest⟩ := List.forall_mem_cons.mp h
      apply run_bind ha
      intro first
      apply run_bind (ih hrest)
      intro rest
      exact run_pure _

theorem agree_bindColumn {c : Named Expr}
    (h : ∀ a, c.value.ReadsScalar a → scope.AgreeAt scope' a) (s : σ) :
    Agree (scope.bindColumn c s) (scope'.bindColumn c s) := by
  apply run_bind (agree_bindExpr h)
  intro e
  exact run_pure _

theorem agree_bindAggregate {g : Named Aggregate}
    (h : ∀ a, g.value.arg.ReadsScalar a → scope.AgreeAt scope' a) (s : σ) :
    Agree (scope.bindAggregate g s) (scope'.bindAggregate g s) := by
  apply run_bind (agree_bindExpr h)
  intro e
  exact run_pure _

theorem agree_bindKeys {k : Expr × Expr}
    (h : ∀ a, k.1.ReadsScalar a ∨ k.2.ReadsScalar a → scope.AgreeAt scope' a) (s : σ) :
    Agree (scope.bindKeys k s) (scope'.bindKeys k s) := by
  apply run_bind (agree_bindExpr fun a ha => h a (Or.inl ha))
  intro l
  apply run_bind (agree_bindExpr fun a ha => h a (Or.inr ha))
  intro r
  exact run_pure _

theorem agree_bindPlan {p : Plan} (h : ∀ a, p.Reads a → scope.AgreeAt scope' a) (s : σ) :
    Agree (scope.bindPlan p s) (scope'.bindPlan p s) := by
  induction p generalizing s with
  | load | relation => exact run_pure _ s
  | project columns input ih =>
      apply run_bind (ih fun a ha => h a (Or.inr ha))
      intro q
      apply run_bind (agree_bindAll fun c hc =>
        agree_bindColumn fun a ha => h a (Or.inl ⟨c, hc, ha⟩))
      intro bound
      exact run_pure _
  | filter predicate input ih | split branch predicate input ih =>
      apply run_bind (ih fun a ha => h a (Or.inr ha))
      intro q
      apply run_bind (agree_bindExpr fun a ha => h a (Or.inl ha))
      intro bound
      exact run_pure _
  | aggregate keys aggregates input ih =>
      apply run_bind (ih fun a ha => h a (Or.inr (Or.inr ha)))
      intro q
      apply run_bind (agree_bindAll fun k hk =>
        agree_bindExpr fun a ha => h a (Or.inl ⟨k, hk, ha⟩))
      intro ks
      apply run_bind (agree_bindAll fun g hg =>
        agree_bindAggregate fun a ha => h a (Or.inr (Or.inl ⟨g, hg, ha⟩)))
      intro gs
      exact run_pure _
  | join left right on ihl ihr =>
      apply run_bind (ihl fun a ha => h a (Or.inr (Or.inl ha)))
      intro l
      apply run_bind (ihr fun a ha => h a (Or.inr (Or.inr ha)))
      intro r
      apply run_bind (agree_bindAll fun k hk =>
        agree_bindKeys fun a ha => h a (Or.inl ⟨k, hk, ha⟩))
      intro bound
      exact run_pure _
  | limit count input ih | store target input ih | sideInputs ids input ih =>
      apply run_bind (ih h)
      intro q
      exact run_pure _

end ScalarScope

theorem Resolver.agree_resolve (input : Resolver) (text : String) :
    Agree (input.resolve text) (input.resolve text) := by
  cases input with
  | unknown => exact error rfl
  | known parts =>
      rw [Resolver.resolve]
      split
      · exact error rfl
      · exact ok _
      · exact error rfl

theorem Resolver.agree_position (input : Resolver) (i : Nat) :
    Agree (input.position i) (input.position i) := by
  cases input with
  | unknown => exact ok _
  | known parts =>
      rw [Resolver.position_known]
      split
      · exact ok _
      · exact error rfl

theorem agree_rejectUntypedScalar (op : BinaryOp) (l r : TypedExpr) :
    Agree (rejectUntypedScalar op l r) (rejectUntypedScalar op l r) := by
  unfold rejectUntypedScalar
  split
  · exact error rfl
  · exact ok ()

theorem agree_coerceComparison (l r : TypedExpr) :
    Agree (coerceComparison l r) (coerceComparison l r) := by
  unfold coerceComparison
  split
  · exact ok _
  · exact error rfl

theorem agree_coerceArithmetic (op : Arithmetic) (l r : TypedExpr) :
    Agree (coerceArithmetic op l r) (coerceArithmetic op l r) := by
  unfold coerceArithmetic
  split
  · exact ok _
  · exact error rfl

theorem agree_coerceConcat (l r : TypedExpr) : Agree (coerceConcat l r) (coerceConcat l r) := by
  unfold coerceConcat
  split
  · exact ok _
  · exact error rfl

theorem agree_coerceArgument (fn : AggregateFn) (e : TypedExpr) :
    Agree (coerceArgument fn e) (coerceArgument fn e) := by
  unfold coerceArgument
  split
  · exact ok _
  · exact error rfl

namespace RelationScope

/-- Two scopes that both know the alias, and say the same of it. -/
structure AgreeAt (scope scope' : RelationScope) (a : String) : Prop where
  compiled : Agree (scope.compiled a) (scope'.compiled a)
  schema : Agree (scope.schema a) (scope'.schema a)

variable {scope scope' : RelationScope}

section Expressions

variable (hdefines : scope.defines = scope'.defines)

include hdefines

theorem agree_analyzeExpr (input : Resolver) (e : Expr) :
    Agree (scope.analyzeExpr input e) (scope'.analyzeExpr input e) := by
  induction e with
  | column name =>
      have hresolve := input.agree_resolve name
      rw [analyzeExpr, analyzeExpr, ← hdefines]
      cases hfound : input.resolve name with
      | ok found => exact ok _
      | error e =>
          -- An alias that is no column has its own error, and both scopes know the same ones.
          dsimp only
          split
          · exact error rfl
          · exact error (hresolve.spares e hfound)
  | position i | columnRef name i =>
      apply (input.agree_position i).bind
      intro found
      exact ok _
  | cast e t ih =>
      apply ih.bind
      intro found
      exact ok _
  | not e ih =>
      apply ih.bind
      intro found
      dsimp only
      split
      · exact ok _
      · exact error rfl
  | junction j l r ihl ihr =>
      apply ihl.bind
      intro l
      apply ihr.bind
      intro r
      dsimp only
      split
      · exact ok _
      · exact error rfl
  | binary l op r ihl ihr =>
      apply ihl.bind
      intro l
      apply ihr.bind
      intro r
      apply (agree_rejectUntypedScalar op l r).bind
      intro _
      cases op with
      | compare c =>
          apply (agree_coerceComparison l r).bind
          intro found
          exact ok _
      | arith op =>
          apply (agree_coerceArithmetic op l r).bind
          intro found
          exact ok _
      | concat =>
          apply (agree_coerceConcat l r).bind
          intro found
          exact ok _
  | scalarRef a field => exact error rfl
  | relationRef a => exact error rfl
  | _ => exact ok _

theorem agree_analyzeCondition (clause : Clause) (input : Resolver) (e : Expr) :
    Agree (scope.analyzeCondition clause input e) (scope'.analyzeCondition clause input e) := by
  apply (agree_analyzeExpr hdefines input e).bind
  intro found
  dsimp only
  split
  · exact ok _
  · exact error rfl

theorem agree_analyzeAggregate (input : Resolver) (g : Aggregate) :
    Agree (scope.analyzeAggregate input g) (scope'.analyzeAggregate input g) := by
  apply (agree_analyzeExpr hdefines input g.arg).bind
  intro found
  cases g.fn with
  | count => exact ok _
  | _ =>
      apply (agree_coerceArgument _ found).bind
      intro cast
      exact ok _

theorem agree_analyzeKeys (left right : Resolver) (k : Expr × Expr) :
    Agree (scope.analyzeKeys left right k) (scope'.analyzeKeys left right k) := by
  apply (agree_analyzeExpr hdefines left k.1).bind
  intro l
  apply (agree_analyzeExpr hdefines right k.2).bind
  intro r
  apply (agree_rejectUntypedScalar _ l r).bind
  intro _
  exact agree_coerceComparison l r

theorem agree_analyzeColumn (input : Resolver) (c : Named Expr) :
    Agree (scope.analyzeColumn input c) (scope'.analyzeColumn input c) := by
  apply (agree_analyzeExpr hdefines input c.value).bind
  intro found
  exact ok _

theorem agree_analyzeKey (input : Resolver) (k : Expr) :
    Agree (scope.analyzeKey input k) (scope'.analyzeKey input k) := by
  apply (agree_analyzeExpr hdefines input k).bind
  intro found
  exact ok _

theorem agree_analyzeMeasure (input : Resolver) (g : Named Aggregate) :
    Agree (scope.analyzeMeasure input g) (scope'.analyzeMeasure input g) := by
  apply (agree_analyzeAggregate hdefines input g.value).bind
  intro found
  exact ok _

end Expressions

theorem agree_analyzePlan (hdefines : scope.defines = scope'.defines) {p : Plan}
    (h : ∀ a, .relation a ∈ p.accesses → scope.AgreeAt scope' a) :
    Agree (scope.analyzePlan p) (scope'.analyzePlan p) := by
  have hchild : ∀ {n child : Plan}, child ∈ n.children →
      (∀ a, Plan.Access.relation a ∈ n.accesses → scope.AgreeAt scope' a) →
        ∀ a, Plan.Access.relation a ∈ child.accesses → scope.AgreeAt scope' a :=
    fun hmem hn a ha => hn a (Plan.accesses_subset_of_child hmem ha)
  induction p with
  | load source schema => exact ok _
  | relation a =>
      have ha := h a (by simp [Plan.accesses, Plan.nodes, Plan.access?])
      apply ha.compiled.bind
      intro plan
      apply ha.schema.bind
      intro schema
      exact ok _
  | project outputs input ih =>
      apply (ih (hchild (List.mem_singleton.mpr rfl) h)).bind
      intro q
      apply (mapM fun c _ => agree_analyzeColumn hdefines q.2 c).bind
      intro results
      exact ok _
  | filter predicate input ih | split branch predicate input ih =>
      apply (ih (hchild (List.mem_singleton.mpr rfl) h)).bind
      intro q
      apply (agree_analyzeCondition hdefines _ q.2 predicate).bind
      intro e
      exact ok _
  | aggregate keys aggregates input ih =>
      apply (ih (hchild (List.mem_singleton.mpr rfl) h)).bind
      intro q
      apply (mapM fun k _ => agree_analyzeKey hdefines q.2 k).bind
      intro ks
      apply (mapM fun g _ => agree_analyzeMeasure hdefines q.2 g).bind
      intro gs
      exact ok _
  | join left right on ihl ihr =>
      apply (ihl (hchild List.mem_cons_self h)).bind
      intro l
      apply (ihr (hchild (List.mem_cons_of_mem _ List.mem_cons_self) h)).bind
      intro r
      apply (mapM fun k _ => agree_analyzeKeys hdefines l.2 r.2 k).bind
      intro on'
      exact ok _
  | limit count input ih | store target input ih | sideInputs ids input ih =>
      apply (ih (hchild (List.mem_singleton.mpr rfl) h)).bind
      intro q
      exact ok _

theorem agree_analyze (hdefines : scope.defines = scope'.defines) {p : Plan}
    (h : ∀ a, .relation a ∈ p.accesses → scope.AgreeAt scope' a) :
    Agree (scope.analyze p) (scope'.analyze p) := by
  apply (agree_analyzePlan hdefines h).bind
  intro found
  exact ok _

end RelationScope

end RelScript
