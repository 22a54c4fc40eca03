import RelScript.Proofs.Script.ScalarAsking
import RelScript.Proofs.Unit.Scoping

/-!
Binding replaces the scalar references of a plan and nothing else, whatever its scope is. Without
its lists and with references in the place of placeholders, a bound plan is the plan again; and it
has nothing left to bind.
-/

namespace RelScript

namespace FieldSelector

/-- The field with its position in the place of its name. -/
def toPosition (schema : RelationSchema) : FieldSelector → FieldSelector
  | name n => (schema.fieldIndex? n).elim (name n) position
  | position p => position p

theorem toPosition_of_resolve {aliasName : String} {field : FieldSelector}
    {schema : RelationSchema} {index : Nat} {type : DataType}
    (h : field.resolve aliasName schema = .ok (index, type)) :
    field.toPosition schema = position index := by
  cases field with
  | name n =>
      cases schema with
      | none => simp [resolve] at h
      | some fields =>
          cases hindex : Schema.indexOf? fields n with
          | none => simp [resolve, hindex] at h
          | some i =>
              simp only [resolve, hindex, Except.ok.injEq, Prod.mk.injEq] at h
              simp [toPosition, RelationSchema.fieldIndex?, hindex, h.1]
  | position p =>
      cases schema with
      | none =>
          simp only [resolve, Except.ok.injEq, Prod.mk.injEq] at h
          rw [toPosition, h.1]
      | some fields =>
          cases htype : RelationSchema.fieldType? (some fields) p with
          | none => simp [resolve, htype] at h
          | some t =>
              simp only [resolve, htype, Except.ok.injEq, Prod.mk.injEq] at h
              rw [toPosition, h.1]

end FieldSelector

namespace Expr

/-- The expression with references in the place of its placeholders. -/
def unbound (e : Expr) : Expr :=
  e.mapLeaves fun
    | placeholder p => scalarRef p.aliasName (.position p.index)
    | leaf => leaf

/-- Whether an expression has nothing left to bind. -/
def IsBound (e : Expr) : Prop := e.scalarRefs = [] ∧ e.relationRefs = []

end Expr

namespace Plan

/-- The plan without its lists of side inputs. -/
def unlisted : Plan → Plan
  | load source schema => load source schema
  | relation aliasName => relation aliasName
  | project columns input => project columns input.unlisted
  | filter predicate input => filter predicate input.unlisted
  | split branch predicate input => split branch predicate input.unlisted
  | aggregate keys aggregates input => aggregate keys aggregates input.unlisted
  | join left right on => join left.unlisted right.unlisted on
  | limit count input => limit count input.unlisted
  | store target input => store target input.unlisted
  | sideInputs _ input => input.unlisted

/-- The plan with references in the place of its placeholders, and without lists. -/
def unbound (p : Plan) : Plan := (p.mapExprs Expr.unbound).unlisted

end Plan

namespace ScalarScope

variable {σ : Type}

/-- The field with its position in the place of its name, if the alias has a schema. -/
def numberedField (scope : ScalarScope σ) (aliasName : String) (field : FieldSelector) :
    FieldSelector :=
  match scope.schema aliasName with
  | .ok schema => field.toPosition schema
  | .error _ => field

/-- The expression with positions in the place of the names in its scalar references. -/
def numbered (scope : ScalarScope σ) (e : Expr) : Expr :=
  e.mapLeaves fun
    | .scalarRef aliasName field => .scalarRef aliasName (scope.numberedField aliasName field)
    | leaf => leaf

/-- Something that holds expressions: how they are replaced, and which they are. -/
structure Holder (α : Type) where
  map : (Expr → Expr) → α → α
  exprs : α → List Expr

/-- What binding makes of something that holds expressions. -/
structure Replaced {α : Type} (scope : ScalarScope σ) (holder : Holder α) (a : α)
    (b : α × List SideInputId) : Prop where
  restores : holder.map Expr.unbound b.1 = holder.map scope.numbered a
  bound : ∀ e ∈ holder.exprs b.1, e.IsBound
  used : b.2 = ((holder.exprs b.1).flatMap Expr.placeholders).map (·.sideInput)

/-- A list of things that hold expressions holds those of each. -/
def Holder.list {α : Type} (holder : Holder α) : Holder (List α) where
  map f := List.map (holder.map f)
  exprs items := items.flatMap holder.exprs

/-- An expression holds itself. -/
def Holder.expr : Holder Expr := ⟨fun f e => f e, fun e => [e]⟩

/-- A column holds its expression. -/
def Holder.column : Holder (Named Expr) := ⟨fun f c => ⟨f c.value, c.name⟩, fun c => [c.value]⟩

/-- An aggregate holds its argument. -/
def Holder.aggregate : Holder (Named Aggregate) :=
  ⟨fun f a => ⟨⟨a.value.fn, f a.value.arg⟩, a.name⟩, fun a => [a.value.arg]⟩

/-- A pair of join keys holds both. -/
def Holder.keys : Holder (Expr × Expr) := ⟨fun f k => (f k.1, f k.2), fun k => [k.1, k.2]⟩

section Replacement

variable {scope : ScalarScope σ} {fact : σ → Prop}
open Preserves

theorem replaced_bindAll {α : Type} {step : α → StateT σ Outcome (α × List SideInputId)}
    {holder : Holder α} {items : List α}
    (hstep : ∀ a ∈ items, Preserves (fun _ => True) (step a) (Replaced scope holder a)) :
    Preserves (fun _ => True) (bindAll step items) (Replaced scope holder.list items) := by
  induction items with
  | nil => exact Preserves.pure ⟨rfl, by simp [Holder.list], rfl⟩
  | cons a items ih =>
      obtain ⟨ha, hitems⟩ := List.forall_mem_cons.mp hstep
      apply ha.bind
      intro b hb
      apply (ih hitems).bind
      intro rest hrest
      refine Preserves.pure ⟨?_, ?_, ?_⟩
      · exact congrArg₂ List.cons hb.restores hrest.restores
      · exact List.forall_mem_append.mpr ⟨hb.bound, hrest.bound⟩
      · show b.2 ++ rest.2 = _
        rw [hb.used, hrest.used]
        simp [Holder.list]

theorem replaced_placeholder (a : String) (field : FieldSelector) :
    Preserves (fun _ => True) (scope.placeholder a field)
      fun p => p.aliasName = a ∧ scope.numberedField a field = .position p.index := by
  intro s p s' _ h
  obtain ⟨schema, index, type, id, hschema, hfield, -, rfl⟩ := placeholder_eq_ok.mp h
  refine ⟨trivial, rfl, ?_⟩
  rw [numberedField, hschema]
  exact FieldSelector.toPosition_of_resolve hfield

theorem replaced_bindExpr {e : Expr} (he : e.placeholders = []) :
    Preserves (fun _ => True) (scope.bindExpr e) (Replaced scope .expr e) := by
  induction e with
  | scalarRef a field =>
      apply (replaced_placeholder a field).bind
      rintro p ⟨rfl, hindex⟩
      refine Preserves.pure ⟨?_, ?_, rfl⟩
      · exact congrArg (Expr.scalarRef p.aliasName) hindex.symm
      · exact List.forall_mem_singleton.mpr ⟨rfl, rfl⟩
  | relationRef a => exact throw _
  | binary l op r ihl ihr =>
      rw [Expr.placeholders_binary, List.append_eq_nil_iff] at he
      apply (ihl he.1).bind
      intro l hl
      apply (ihr he.2).bind
      intro r hr
      refine Preserves.pure ⟨?_, ?_, ?_⟩
      · exact congrArg₂ (Expr.binary · op ·) hl.restores hr.restores
      · have hbound := And.intro hl.bound hr.bound
        simp_all [Holder.expr, Expr.IsBound]
      · show l.2 ++ r.2 = _
        rw [hl.used, hr.used]
        simp [Holder.expr]
  | junction j l r ihl ihr =>
      rw [Expr.placeholders_junction, List.append_eq_nil_iff] at he
      apply (ihl he.1).bind
      intro l hl
      apply (ihr he.2).bind
      intro r hr
      refine Preserves.pure ⟨?_, ?_, ?_⟩
      · exact congrArg₂ (Expr.junction j) hl.restores hr.restores
      · have hbound := And.intro hl.bound hr.bound
        simp_all [Holder.expr, Expr.IsBound]
      · show l.2 ++ r.2 = _
        rw [hl.used, hr.used]
        simp [Holder.expr]
  | cast e t ih =>
      rw [Expr.placeholders_cast] at he
      apply (ih he).bind
      intro e he
      refine Preserves.pure ⟨congrArg (Expr.cast · t) he.restores, ?_, ?_⟩
      · simpa [Holder.expr, Expr.IsBound] using he.bound
      · simpa [Holder.expr] using he.used
  | not e ih =>
      rw [Expr.placeholders_not] at he
      apply (ih he).bind
      intro e he
      refine Preserves.pure ⟨congrArg Expr.not he.restores, ?_, ?_⟩
      · simpa [Holder.expr, Expr.IsBound] using he.bound
      · simpa [Holder.expr] using he.used
  | placeholder p => cases he
  | _ => exact Preserves.pure ⟨rfl, List.forall_mem_singleton.mpr ⟨rfl, rfl⟩, rfl⟩

theorem replaced_bindColumn {c : Named Expr} (hc : c.value.placeholders = []) :
    Preserves (fun _ => True) (scope.bindColumn c) (Replaced scope .column c) := by
  apply (replaced_bindExpr hc).bind
  intro e he
  exact Preserves.pure ⟨congrArg (Named.mk · c.name) he.restores, he.bound, he.used⟩

theorem replaced_bindAggregate {a : Named Aggregate} (ha : a.value.arg.placeholders = []) :
    Preserves (fun _ => True) (scope.bindAggregate a) (Replaced scope .aggregate a) := by
  apply (replaced_bindExpr ha).bind
  intro e he
  exact Preserves.pure
    ⟨congrArg (fun x => Named.mk (Aggregate.mk a.value.fn x) a.name) he.restores, he.bound, he.used⟩

theorem replaced_bindKeys {k : Expr × Expr} (hl : k.1.placeholders = [])
    (hr : k.2.placeholders = []) :
    Preserves (fun _ => True) (scope.bindKeys k) (Replaced scope .keys k) := by
  apply (replaced_bindExpr hl).bind
  intro l hl
  apply (replaced_bindExpr hr).bind
  intro r hr
  refine Preserves.pure ⟨congrArg₂ Prod.mk hl.restores hr.restores, ?_, ?_⟩
  · exact List.forall_mem_append.mpr ⟨hl.bound, hr.bound⟩
  · show l.2 ++ r.2 = _
    rw [hl.used, hr.used]
    simp [Holder.expr, Holder.keys]

/-- What binding makes of a plan. -/
structure ReplacedIn (scope : ScalarScope σ) (p q : Plan) : Prop where
  restores : q.unbound = p.mapExprs scope.numbered
  bound : ∀ e ∈ q.allExprs, e.IsBound
  listed : q.Listed []

theorem unbound_wrap (node : Plan) (used : List SideInputId) :
    (wrap node used).unbound = node.unbound := by
  cases used <;> rfl

theorem ReplacedIn.wrap {p node : Plan} {used : List SideInputId} {held : List Expr}
    (hrestores : node.unbound = p.mapExprs scope.numbered) (hheld : node.exprs = held)
    (hbound : ∀ e ∈ held, e.IsBound)
    (hused : used = (held.flatMap Expr.placeholders).map (·.sideInput))
    (hinputs : ∀ c ∈ node.children, ∀ e ∈ c.allExprs, e.IsBound)
    (hlisted : ∀ above, Plan.Lists above node.reads → node.Listed above) :
    ReplacedIn scope p (wrap node used) := by
  subst hheld
  refine ⟨(unbound_wrap node used).trans hrestores, ?_, Plan.listed_wrap hused hlisted⟩
  rw [Plan.allExprs_wrap, Plan.allExprs_eq]
  exact List.forall_mem_append.mpr ⟨hbound, List.forall_mem_flatMap.mpr hinputs⟩

theorem replaced_bindPlan {p : Plan} (hp : p.IsScripted) :
    Preserves (fun _ => True) (scope.bindPlan p) (ReplacedIn scope p) := by
  induction p with
  | load | relation =>
      exact Preserves.pure ⟨rfl, by simp [Plan.allExprs, Plan.nodes, Plan.exprs], rfl⟩
  | project columns input ih =>
      apply (ih (hp.child (List.mem_singleton.mpr rfl))).bind
      intro i hi
      apply (replaced_bindAll fun c hc =>
        replaced_bindColumn (hp.own (List.mem_map_of_mem hc : Named.value c ∈ _))).bind
      intro cs hcs
      refine Preserves.pure (.wrap ?_ ?_ hcs.bound hcs.used
        (List.forall_mem_singleton.mpr hi.bound) fun above h => ⟨h, hi.listed⟩)
      · exact congrArg₂ Plan.project hcs.restores hi.restores
      · exact List.map_eq_flatMap
  | filter predicate input ih =>
      apply (ih (hp.child (List.mem_singleton.mpr rfl))).bind
      intro i hi
      apply (replaced_bindExpr (hp.own (List.mem_singleton.mpr rfl))).bind
      intro e he
      refine Preserves.pure (.wrap ?_ rfl he.bound he.used
        (List.forall_mem_singleton.mpr hi.bound) fun above h => ⟨h, hi.listed⟩)
      exact congrArg₂ Plan.filter he.restores hi.restores
  | split branch predicate input ih =>
      apply (ih (hp.child (List.mem_singleton.mpr rfl))).bind
      intro i hi
      apply (replaced_bindExpr (hp.own (List.mem_singleton.mpr rfl))).bind
      intro e he
      refine Preserves.pure (.wrap ?_ rfl he.bound he.used
        (List.forall_mem_singleton.mpr hi.bound) fun above h => ⟨h, hi.listed⟩)
      exact congrArg₂ (Plan.split branch) he.restores hi.restores
  | aggregate keys aggregates input ih =>
      apply (ih (hp.child (List.mem_singleton.mpr rfl))).bind
      intro i hi
      apply (replaced_bindAll fun k hk =>
        replaced_bindExpr (hp.own (List.mem_append_left _ hk))).bind
      intro ks hks
      apply (replaced_bindAll fun a ha => replaced_bindAggregate
        (hp.own (List.mem_append_right _ (List.mem_map_of_mem ha)))).bind
      intro gs hgs
      refine Preserves.pure (.wrap ?_ ?_ (List.forall_mem_append.mpr ⟨hks.bound, hgs.bound⟩) ?_
        (List.forall_mem_singleton.mpr hi.bound) fun above h => ⟨h, hi.listed⟩)
      · show Plan.aggregate _ _ _ = Plan.aggregate _ _ _
        exact congr (congrArg₂ Plan.aggregate hks.restores hgs.restores) hi.restores
      · exact congrArg₂ (· ++ ·) (List.flatMap_singleton' ks.1).symm List.map_eq_flatMap
      · rw [hks.used, hgs.used, List.flatMap_append, List.map_append]
  | join left right on ihl ihr =>
      apply (ihl (hp.child List.mem_cons_self)).bind
      intro l hl
      apply (ihr (hp.child (List.mem_cons_of_mem _ List.mem_cons_self))).bind
      intro r hr
      apply (replaced_bindAll fun k hk =>
        replaced_bindKeys (hp.own (Plan.mem_exprs_join hk).1)
          (hp.own (Plan.mem_exprs_join hk).2)).bind
      intro ks hks
      refine Preserves.pure (.wrap ?_ rfl hks.bound hks.used
        (List.forall_mem_cons.mpr ⟨hl.bound, List.forall_mem_singleton.mpr hr.bound⟩)
        fun above h => ⟨h, hl.listed, hr.listed⟩)
      show Plan.join _ _ _ = Plan.join _ _ _
      exact congr (congrArg₂ Plan.join hl.restores hr.restores) hks.restores
  | limit count input ih | store target input ih =>
      apply (ih (hp.child (List.mem_singleton.mpr rfl))).bind
      intro i hi
      exact Preserves.pure ⟨congrArg _ hi.restores, hi.bound, rfl, hi.listed⟩
  | sideInputs ids input _ =>
      exact absurd rfl (hp.2 _ (Plan.mem_nodes_self _) ids input)

end Replacement

section Rebinding

variable (scope : ScalarScope σ)

theorem bindExpr_of_isBound {e : Expr} (he : e.IsBound) : scope.bindExpr e = pure (e, []) := by
  induction e with
  | scalarRef a field => cases he.1
  | relationRef a => cases he.2
  | binary l op r ihl ihr | junction j l r ihl ihr =>
      simp only [Expr.IsBound, Expr.scalarRefs_binary, Expr.relationRefs_binary,
        Expr.scalarRefs_junction, Expr.relationRefs_junction, List.append_eq_nil_iff] at he
      rw [bindExpr, ihl ⟨he.1.1, he.2.1⟩, ihr ⟨he.1.2, he.2.2⟩]
      rfl
  | cast e t ih | not e ih =>
      simp only [Expr.IsBound, Expr.scalarRefs_cast, Expr.relationRefs_cast, Expr.scalarRefs_not,
        Expr.relationRefs_not] at he
      rw [bindExpr, ih he]
      rfl
  | _ => rfl

theorem bindAll_of_forall {α : Type} {step : α → StateT σ Outcome (α × List SideInputId)}
    {items : List α} (h : ∀ a ∈ items, step a = pure (a, [])) :
    bindAll step items = pure (items, []) := by
  induction items with
  | nil => rfl
  | cons a items ih =>
      obtain ⟨ha, hitems⟩ := List.forall_mem_cons.mp h
      rw [bindAll, ha, ih hitems]
      rfl

/-- A plan that has nothing left to bind is bound to itself, and no side input is asked for. -/
theorem bindPlan_of_isBound {p : Plan} (hp : ∀ e ∈ p.allExprs, e.IsBound) :
    scope.bindPlan p = pure p := by
  induction p with
  | load | relation => rfl
  | project columns input ih =>
      rw [Plan.allExprs_eq, List.forall_mem_append] at hp
      have hcolumns : ∀ c ∈ columns, scope.bindColumn c = pure (c, []) := by
        intro c hc
        rw [bindColumn, scope.bindExpr_of_isBound (hp.1 _ (List.mem_map_of_mem hc))]
        rfl
      rw [bindPlan, ih (by simpa [Plan.children] using hp.2), bindAll_of_forall hcolumns]
      rfl
  | filter predicate input ih | split branch predicate input ih =>
      rw [Plan.allExprs_eq, List.forall_mem_append] at hp
      rw [bindPlan, ih (by simpa [Plan.children] using hp.2),
        scope.bindExpr_of_isBound (hp.1 _ (List.mem_singleton.mpr rfl))]
      rfl
  | aggregate keys aggregates input ih =>
      rw [Plan.allExprs_eq, List.forall_mem_append] at hp
      have hkeys : ∀ k ∈ keys, scope.bindExpr k = pure (k, []) := fun k hk =>
        scope.bindExpr_of_isBound (hp.1 _ (List.mem_append_left _ hk))
      have haggregates : ∀ a ∈ aggregates, scope.bindAggregate a = pure (a, []) := by
        intro a ha
        rw [bindAggregate, scope.bindExpr_of_isBound
          (hp.1 _ (List.mem_append_right _ (List.mem_map_of_mem ha)))]
        rfl
      rw [bindPlan, ih (by simpa [Plan.children] using hp.2), bindAll_of_forall hkeys,
        bindAll_of_forall haggregates]
      rfl
  | join left right on ihl ihr =>
      rw [Plan.allExprs_eq, List.forall_mem_append] at hp
      have hon : ∀ k ∈ on, scope.bindKeys k = pure (k, []) := by
        intro k hk
        rw [bindKeys, scope.bindExpr_of_isBound (hp.1 _ (Plan.mem_exprs_join hk).1),
          scope.bindExpr_of_isBound (hp.1 _ (Plan.mem_exprs_join hk).2)]
        rfl
      have hinputs : (∀ e ∈ left.allExprs, e.IsBound) ∧ ∀ e ∈ right.allExprs, e.IsBound := by
        simpa [Plan.children, or_imp, forall_and] using hp.2
      rw [bindPlan, ihl hinputs.1, ihr hinputs.2, bindAll_of_forall hon]
      rfl
  | limit count input ih | store target input ih | sideInputs ids input ih =>
      rw [Plan.allExprs_eq, List.forall_mem_append] at hp
      rw [bindPlan, ih (by simpa [Plan.children] using hp.2)]
      rfl

end Rebinding

/-- What binding a plan does in a state: it succeeds exactly if no relation is used as a tuple,
every scalar field is found and every side input is there, and then it replaces the scalar
references and nothing else. -/
structure ReplacesScalars (scope : ScalarScope σ) (p : Plan) (s : σ) : Prop where
  succeeds_iff : (∃ q s', scope.bindPlan p s = .ok (q, s')) ↔
    (∀ e ∈ p.allExprs, e.relationRefs = []) ∧ (∀ r ∈ p.scalarRefs, scope.Finds r) ∧
      scope.Supplies (p.visitedRefs.map (·.1)) s
  succeeds_iff_of_steady : scope.Steady → ((∃ q s', scope.bindPlan p s = .ok (q, s')) ↔
    (∀ e ∈ p.allExprs, e.relationRefs = []) ∧
      ∀ r ∈ p.scalarRefs, scope.Finds r ∧ ∃ found, scope.sideInput r.1 s = .ok found)
  restores : ∀ {q s'}, scope.bindPlan p s = .ok (q, s') → q.unbound = p.mapExprs scope.numbered
  listed : ∀ {q s'}, scope.bindPlan p s = .ok (q, s') → q.Listed []
  asks : ∀ {q s'}, scope.bindPlan p s = .ok (q, s') → ∃ asked,
    scope.recording.bindPlan p (s, []) = .ok (q, s', asked) ∧
      asked.Perm (p.scalarRefs.map (·.1)) ∧ ∀ a, a ∈ asked ↔ a ∈ p.scalarAliases
  settles : ∀ {q s'}, scope.bindPlan p s = .ok (q, s') →
    ∀ {τ : Type} (scope' : ScalarScope τ) (t : τ), scope'.bindPlan q t = .ok (q, t)

theorem replacesScalars (scope : ScalarScope σ) {p : Plan} (hp : p.IsScripted) (s : σ) :
    scope.ReplacesScalars p s := by
  have hexists := (asks_bindPlan p).exists_iff scope s
  simp only [Plan.mem_visitedRefs] at hexists
  have hreplaced : ∀ {q s'}, scope.bindPlan p s = .ok (q, s') → scope.ReplacedIn p q :=
    fun h => (replaced_bindPlan hp s _ _ trivial h).2
  refine ⟨hexists, fun hsteady => ?_, fun h => (hreplaced h).restores,
    fun h => (hreplaced h).listed, fun h => ?_, fun h τ scope' t => ?_⟩
  · rw [hexists, supplies_iff_of_steady hsteady]
    simp only [List.forall_mem_map, Plan.mem_visitedRefs, forall_and]
    exact Iff.rfl
  · have hperm := p.perm_visitedRefs.map Prod.fst
    refine ⟨_, (asks_bindPlan p).recorded h [], hperm, fun a => ?_⟩
    rw [Plan.mem_scalarAliases]
    exact hperm.mem_iff
  · rw [scope'.bindPlan_of_isBound (hreplaced h).bound]
    rfl

end ScalarScope

/-- The greatest orders with the amount that they share. -/
def sharedAmounts : Plan :=
  .project [⟨.scalarRef "best" (.name "amount"), "shared"⟩] topOrders

/-- A scope that knows one scalar relation, with numbers in the order of first use. -/
def bestScope : ScalarScope (List String) where
  schema a :=
    if a = "best" then .ok (some [⟨"amount", .int64, true⟩])
    else .error (.planning (.unknownAlias a))
  sideInput a := fun used =>
    if a ∈ used then .ok (used.idxOf a, used) else .ok (used.length, used ++ [a])

theorem sharedAmounts_replaced :
    bestScope.ReplacesScalars sharedAmounts [] ∧
      bestScope.bindPlan sharedAmounts [] = .ok
        (.sideInputs [0] (.project [⟨.placeholder ⟨0, "best", 0, .int64, true⟩, "shared"⟩]
          (.sideInputs [0] (.filter (.binary (.position 0) (.compare .eq)
            (.placeholder ⟨0, "best", 0, .int64, true⟩)) (.relation "orders")))), ["best"]) := by
  have hscripted : sharedAmounts.IsScripted := by
    simp [sharedAmounts, topOrders, Plan.IsScripted, Plan.placeholders, Plan.allExprs, Plan.nodes,
      Plan.exprs, Expr.placeholders, Expr.parts, Expr.placeholder?]
  exact ⟨bestScope.replacesScalars hscripted [], by cbv⟩

end RelScript
