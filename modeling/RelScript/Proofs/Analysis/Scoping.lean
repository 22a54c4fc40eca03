import RelScript.Proofs.Analysis.Rules
import RelScript.Proofs.Plan.Substitution

/-!
What analysis keeps and what it removes: placeholders and lists of side inputs stay, names of
columns and reads of relations go.
-/

namespace RelScript

namespace Expr

/-- An expression with some casts around it. -/
inductive Casts (e : Expr) : Expr → Prop
  | refl : Casts e e
  | cast {e' : Expr} (t : DataType) : Casts e e' → Casts e (.cast e' t)

theorem casts_castTo (e : Expr) (a t : DataType) : Casts e (TypedExpr.castTo (e, a) t) := by
  unfold TypedExpr.castTo
  split
  · exact .refl
  · exact .cast t .refl

theorem Casts.trans {e e' e'' : Expr} (h : Casts e e') (h' : Casts e' e'') : Casts e e'' := by
  induction h' with
  | refl => exact h
  | cast t _ ih => exact .cast t ih

/-- Whether an expression is a constant or a placeholder. -/
def isScalar : Expr → Bool
  | literal _ | placeholder _ => true
  | _ => false

/-- A search that finds nothing but constants and placeholders. -/
def FindsScalars {α : Type} (find : Expr → Option α) : Prop :=
  ∀ e, e.isScalar = false → find e = none

theorem findsScalars_placeholder? : FindsScalars placeholder? := by
  intro e he
  cases e with
  | placeholder p => cases he
  | _ => rfl

section FindsScalars

variable {α : Type} {find : Expr → Option α} (hfind : FindsScalars find)
include hfind

theorem filterMap_binary (l r : Expr) (op : BinaryOp) :
    (binary l op r).parts.filterMap find = l.parts.filterMap find ++ r.parts.filterMap find := by
  rw [parts, List.filterMap_cons_none (hfind _ rfl), List.filterMap_append]

theorem filterMap_cast (e : Expr) (t : DataType) :
    (cast e t).parts.filterMap find = e.parts.filterMap find := by
  rw [parts, List.filterMap_cons_none (hfind _ rfl)]

theorem filterMap_junction (j : Junction) (l r : Expr) :
    (junction j l r).parts.filterMap find = l.parts.filterMap find ++ r.parts.filterMap find := by
  rw [parts, List.filterMap_cons_none (hfind _ rfl), List.filterMap_append]

theorem filterMap_not (e : Expr) : (not e).parts.filterMap find = e.parts.filterMap find := by
  rw [parts, List.filterMap_cons_none (hfind _ rfl)]

theorem Casts.filterMap_parts {e e' : Expr} (h : Casts e e') :
    e'.parts.filterMap find = e.parts.filterMap find := by
  induction h with
  | refl => rfl
  | cast t _ ih => rw [filterMap_cast hfind, ih]

theorem filterMap_castTo (e : Expr) (a t : DataType) :
    (TypedExpr.castTo (e, a) t).parts.filterMap find = e.parts.filterMap find :=
  (casts_castTo e a t).filterMap_parts hfind

end FindsScalars

/-- Whether an expression names a column, a scalar or a relation, or counts columns without naming
them. -/
def isUnresolved : Expr → Bool
  | column _ | position _ | scalarRef _ _ | relationRef _ => true
  | _ => false

/-- An expression no part of which is left to be resolved. -/
def IsResolved (e : Expr) : Prop := ∀ x ∈ e.parts, x.isUnresolved = false

theorem isResolved_binary {l r : Expr} {op : BinaryOp} :
    (binary l op r).IsResolved ↔ l.IsResolved ∧ r.IsResolved := by
  simp [IsResolved, parts, isUnresolved, or_imp, forall_and]

theorem isResolved_cast {e : Expr} {t : DataType} : (cast e t).IsResolved ↔ e.IsResolved := by
  simp [IsResolved, parts, isUnresolved]

theorem isResolved_junction {l r : Expr} {j : Junction} :
    (junction j l r).IsResolved ↔ l.IsResolved ∧ r.IsResolved := by
  simp [IsResolved, parts, isUnresolved, or_imp, forall_and]

theorem isResolved_not {e : Expr} : (not e).IsResolved ↔ e.IsResolved := by
  simp [IsResolved, parts, isUnresolved]

theorem Casts.isResolved {e e' : Expr} (h : Casts e e') (he : e.IsResolved) : e'.IsResolved := by
  induction h with
  | refl => exact he
  | cast t _ ih => exact isResolved_cast.mpr ih

end Expr

namespace RelationScope

open RelScript.Expr (Casts casts_castTo)

theorem Analyzes.filterMap_parts {α : Type} {find : Expr → Option α}
    (hfind : Expr.FindsScalars find) {input : Resolver} {e e' : Expr} {t : DataType}
    (h : Analyzes input e e' t) : e'.parts.filterMap find = e.parts.filterMap find := by
  induction h with
  | column | position | columnRef =>
      exact (List.filterMap_cons_none (hfind _ rfl)).trans
        (List.filterMap_cons_none (hfind _ rfl)).symm
  | literal | placeholder => rfl
  | cast t _ ih => rw [Expr.filterMap_cast hfind, Expr.filterMap_cast hfind, ih]
  | junction j _ _ ihl ihr =>
      rw [Expr.filterMap_junction hfind, Expr.filterMap_junction hfind, ihl, ihr]
  | not _ ih => rw [Expr.filterMap_not hfind, Expr.filterMap_not hfind, ih]
  | compare | arith | concat =>
      rename_i ihl ihr
      rw [Expr.filterMap_binary hfind, Expr.filterMap_binary hfind, Expr.filterMap_castTo hfind,
        Expr.filterMap_castTo hfind, ihl, ihr]

theorem Analyzes.isResolved {input : Resolver} {e e' : Expr} {t : DataType}
    (h : Analyzes input e e' t) : e'.IsResolved := by
  induction h with
  | column | position | columnRef | literal | placeholder =>
      simp [Expr.IsResolved, Expr.parts, Expr.isUnresolved]
  | cast t _ ih => exact Expr.isResolved_cast.mpr ih
  | junction j _ _ ihl ihr => exact Expr.isResolved_junction.mpr ⟨ihl, ihr⟩
  | not _ ih => exact Expr.isResolved_not.mpr ih
  | compare c _ _ _ _ _ ihl ihr =>
      exact Expr.isResolved_binary.mpr
        ⟨(casts_castTo _ _ _).isResolved ihl, (casts_castTo _ _ _).isResolved ihr⟩
  | arith op _ _ _ _ _ ihl ihr =>
      exact Expr.isResolved_binary.mpr
        ⟨(casts_castTo _ _ _).isResolved ihl, (casts_castTo _ _ _).isResolved ihr⟩
  | concat _ _ _ _ _ _ ihl ihr =>
      exact Expr.isResolved_binary.mpr
        ⟨(casts_castTo _ _ _).isResolved ihl, (casts_castTo _ _ _).isResolved ihr⟩

/-- An expression, and what analysis of the node around it makes of it. -/
def Becomes (e e' : Expr) : Prop := ∃ input e₁ t, Analyzes input e e₁ t ∧ Casts e₁ e'

theorem Becomes.filterMap_parts {α : Type} {find : Expr → Option α}
    (hfind : Expr.FindsScalars find) {e e' : Expr} (h : Becomes e e') :
    e'.parts.filterMap find = e.parts.filterMap find := by
  obtain ⟨input, e₁, t, he, hcasts⟩ := h
  rw [hcasts.filterMap_parts hfind, he.filterMap_parts hfind]

theorem Becomes.placeholders {e e' : Expr} (h : Becomes e e') :
    e'.placeholders = e.placeholders :=
  h.filterMap_parts Expr.findsScalars_placeholder?

theorem Becomes.isResolved {e e' : Expr} (h : Becomes e e') : e'.IsResolved := by
  obtain ⟨input, e₁, t, he, hcasts⟩ := h
  exact hcasts.isResolved he.isResolved

theorem AnalyzesAggregate.becomes {input : Resolver} {a a' : Aggregate} {t : DataType}
    (h : AnalyzesAggregate input a a' t) : Becomes a.arg a'.arg := by
  rcases h with ⟨he⟩ | ⟨he, -⟩ | ⟨-, -, he, -⟩
  · exact ⟨_, _, _, he, .refl⟩
  · exact ⟨_, _, _, he, (casts_castTo _ _ _).trans (casts_castTo _ _ _)⟩
  · exact ⟨_, _, _, he, casts_castTo _ _ _⟩

theorem AnalyzesKeys.becomes {left right : Resolver} {k r : Expr × Expr}
    (h : AnalyzesKeys left right k r) : Becomes k.1 r.1 ∧ Becomes k.2 r.2 := by
  obtain ⟨l', r', a, b, t, hl, hr, -, -, -, rfl⟩ := h
  exact ⟨⟨_, _, _, hl, casts_castTo _ _ _⟩, ⟨_, _, _, hr, casts_castTo _ _ _⟩⟩

theorem reads_eq_of_becomes {n n' : Plan} (h : List.Forall₂ Becomes n.exprs n'.exprs) :
    n'.reads = n.reads := by
  have hflat : ∀ {es es' : List Expr}, List.Forall₂ Becomes es es' →
      es'.flatMap Expr.placeholders = es.flatMap Expr.placeholders := by
    intro es es' hes
    induction hes with
    | nil => rfl
    | cons he _ ih => rw [List.flatMap_cons, List.flatMap_cons, he.placeholders, ih]
  rw [Plan.reads, hflat h, Plan.reads]

theorem becomes_columns {columns : Resolver} {outputs : List (Named Expr)}
    {results : List (Named Expr × Field)}
    (h : List.Forall₂ (AnalyzesColumn columns) outputs results) :
    List.Forall₂ Becomes (outputs.map (·.value)) ((results.map (·.1)).map (·.value)) := by
  rw [List.map_map, List.forall₂_map_left_iff, List.forall₂_map_right_iff]
  exact h.imp fun _ _ hc => ⟨_, _, _, hc.1, .refl⟩

theorem becomes_grouping {columns : Resolver} {keys : List Expr}
    {aggregates : List (Named Aggregate)} {ks : List (Expr × Field)}
    {gs : List (Named Aggregate × Field)} (hks : List.Forall₂ (AnalyzesKey columns) keys ks)
    (hgs : List.Forall₂ (AnalyzesMeasure columns) aggregates gs) :
    List.Forall₂ Becomes (keys ++ aggregates.map (·.value.arg))
      (ks.map (·.1) ++ (gs.map (·.1)).map (·.value.arg)) := by
  refine List.rel_append ?_ ?_
  · rw [List.forall₂_map_right_iff]
    exact hks.imp fun _ _ hk => ⟨_, _, _, hk.1, .refl⟩
  · rw [List.map_map, List.forall₂_map_left_iff, List.forall₂_map_right_iff]
    exact hgs.imp fun _ _ hg => hg.1.becomes

theorem becomes_keys {left right : Resolver} {on on' : List (Expr × Expr)}
    (h : List.Forall₂ (AnalyzesKeys left right) on on') :
    List.Forall₂ Becomes (on.flatMap fun k => [k.1, k.2]) (on'.flatMap fun k => [k.1, k.2]) := by
  induction h with
  | nil => exact .nil
  | cons hk _ ih => exact .cons hk.becomes.1 (.cons hk.becomes.2 ih)

variable {scope : RelationScope} {p p' : Plan} {columns : Resolver}

theorem AnalyzesPlan.listed (h : AnalyzesPlan scope p p' columns)
    (hcompiled : ∀ a q, scope.compiled a = .ok q → q.Listed []) {above : List SideInputId}
    (hp : p.Listed above) : p'.Listed above := by
  induction h generalizing above with
  | load source schema => exact hp
  | relation hq _ =>
      cases hp
      exact hcompiled _ _ hq
  | @filter p p' columns e e' _ he ih =>
      have hreads : (Plan.filter e' p').reads = (Plan.filter e p).reads :=
        reads_eq_of_becomes (.cons ⟨_, _, _, he, .refl⟩ .nil)
      exact ⟨hreads ▸ hp.1, ih hp.2⟩
  | @split p p' columns e e' branch _ he ih =>
      have hreads : (Plan.split branch e' p').reads = (Plan.split branch e p).reads :=
        reads_eq_of_becomes (.cons ⟨_, _, _, he, .refl⟩ .nil)
      exact ⟨hreads ▸ hp.1, ih hp.2⟩
  | @project p p' columns outputs results _ hresults ih =>
      have hreads : (Plan.project (results.map (·.1)) p').reads = (Plan.project outputs p).reads :=
        reads_eq_of_becomes (becomes_columns hresults)
      exact ⟨hreads ▸ hp.1, ih hp.2⟩
  | @aggregate p p' columns keys aggregates ks gs _ hks hgs ih =>
      have hreads : (Plan.aggregate (ks.map (·.1)) (gs.map (·.1)) p').reads =
          (Plan.aggregate keys aggregates p).reads :=
        reads_eq_of_becomes (becomes_grouping hks hgs)
      exact ⟨hreads ▸ hp.1, ih hp.2⟩
  | @join l l' r r' lcolumns rcolumns on on' _ _ hon ihl ihr =>
      have hreads : (Plan.join l' r' on').reads = (Plan.join l r on).reads :=
        reads_eq_of_becomes (becomes_keys hon)
      exact ⟨hreads ▸ hp.1, ihl hp.2.1, ihr hp.2.2⟩
  | limit count _ ih => exact ⟨hp.1, ih hp.2⟩
  | store target _ ih => exact ⟨hp.1, ih hp.2⟩
  | sideInputs ids _ ih => exact ⟨hp.1, hp.2.1, ih hp.2.2⟩

/-- A node of an analyzed plan comes from a node of the plan, or from the plan of an alias. -/
inductive NodeOrigin (scope : RelationScope) (p n' : Plan) : Prop
  | own {n : Plan} : n ∈ p.nodes → n'.access? = n.access? → n'.relationAlias? = none →
    List.Forall₂ Becomes n.exprs n'.exprs → NodeOrigin scope p n'
  | inlined {a : String} {q : Plan} : Plan.Access.relation a ∈ p.accesses →
    scope.compiled a = .ok q → n' ∈ q.nodes → NodeOrigin scope p n'

theorem NodeOrigin.of_child {c n' : Plan} (h : NodeOrigin scope c n') (hc : c ∈ p.children) :
    NodeOrigin scope p n' := by
  cases h with
  | own hn haccess hrelation hexprs =>
      exact .own (Plan.nodes_subset_of_child hc hn) haccess hrelation hexprs
  | inlined ha hq hn => exact .inlined (Plan.accesses_subset_of_child hc ha) hq hn

theorem AnalyzesPlan.origin (h : AnalyzesPlan scope p p' columns) {n' : Plan}
    (hn : n' ∈ p'.nodes) : NodeOrigin scope p n' := by
  induction h with
  | load source schema =>
      rw [Plan.nodes, List.mem_singleton] at hn
      subst hn
      exact .own (Plan.mem_nodes_self _) rfl rfl .nil
  | @relation aliasName q schema hq _ =>
      exact .inlined (List.mem_singleton.mpr rfl) hq hn
  | filter _ he ih =>
      rcases List.mem_cons.mp hn with rfl | hn
      · exact .own (Plan.mem_nodes_self _) rfl rfl (.cons ⟨_, _, _, he, .refl⟩ .nil)
      · exact (ih hn).of_child (List.mem_singleton.mpr rfl)
  | split branch _ he ih =>
      rcases List.mem_cons.mp hn with rfl | hn
      · exact .own (Plan.mem_nodes_self _) rfl rfl (.cons ⟨_, _, _, he, .refl⟩ .nil)
      · exact (ih hn).of_child (List.mem_singleton.mpr rfl)
  | project _ hresults ih =>
      rcases List.mem_cons.mp hn with rfl | hn
      · exact .own (Plan.mem_nodes_self _) rfl rfl (becomes_columns hresults)
      · exact (ih hn).of_child (List.mem_singleton.mpr rfl)
  | aggregate _ hks hgs ih =>
      rcases List.mem_cons.mp hn with rfl | hn
      · exact .own (Plan.mem_nodes_self _) rfl rfl (becomes_grouping hks hgs)
      · exact (ih hn).of_child (List.mem_singleton.mpr rfl)
  | join _ _ hon ihl ihr =>
      rcases List.mem_cons.mp hn with rfl | hn
      · exact .own (Plan.mem_nodes_self _) rfl rfl (becomes_keys hon)
      · rcases List.mem_append.mp hn with hn | hn
        · exact (ihl hn).of_child List.mem_cons_self
        · exact (ihr hn).of_child (List.mem_cons_of_mem _ List.mem_cons_self)
  | limit count _ ih =>
      rcases List.mem_cons.mp hn with rfl | hn
      · exact .own (Plan.mem_nodes_self _) rfl rfl .nil
      · exact (ih hn).of_child (List.mem_singleton.mpr rfl)
  | store target _ ih =>
      rcases List.mem_cons.mp hn with rfl | hn
      · exact .own (Plan.mem_nodes_self _) rfl rfl .nil
      · exact (ih hn).of_child (List.mem_singleton.mpr rfl)
  | sideInputs ids _ ih =>
      rcases List.mem_cons.mp hn with rfl | hn
      · exact .own (Plan.mem_nodes_self _) rfl rfl .nil
      · exact (ih hn).of_child (List.mem_singleton.mpr rfl)

theorem mem_allExprs_of_mem {n p : Plan} {e : Expr} (hn : n ∈ p.nodes) (he : e ∈ n.exprs) :
    e ∈ p.allExprs :=
  List.mem_flatMap.mpr ⟨n, hn, he⟩

/-- An expression of an analyzed plan comes from an expression of the plan, or from the plan of an
alias. -/
theorem AnalyzesPlan.expr_origin (h : AnalyzesPlan scope p p' columns) {e' : Expr}
    (he : e' ∈ p'.allExprs) :
    (∃ e ∈ p.allExprs, Becomes e e') ∨
      ∃ a q, Plan.Access.relation a ∈ p.accesses ∧ scope.compiled a = .ok q ∧
        e' ∈ q.allExprs := by
  obtain ⟨n', hn', he'⟩ := List.mem_flatMap.mp he
  cases h.origin hn' with
  | own hn _ _ hexprs =>
      obtain ⟨i, hi, rfl⟩ := List.getElem_of_mem he'
      have hi' : i < _ := hexprs.length_eq ▸ hi
      exact Or.inl ⟨_, mem_allExprs_of_mem hn (List.getElem_mem hi'),
        (List.forall₂_iff_get.mp hexprs).2 i hi' hi⟩
  | inlined ha hq hn => exact Or.inr ⟨_, _, ha, hq, mem_allExprs_of_mem hn he'⟩

theorem AnalyzesPlan.placeholder_origin (h : AnalyzesPlan scope p p' columns) {q : Placeholder}
    (hq : q ∈ p'.placeholders) :
    q ∈ p.placeholders ∨
      ∃ a r, Plan.Access.relation a ∈ p.accesses ∧ scope.compiled a = .ok r ∧
        q ∈ r.placeholders := by
  obtain ⟨e', he', hqe⟩ := List.mem_flatMap.mp hq
  rcases h.expr_origin he' with ⟨e, he, hbecomes⟩ | ⟨a, r, ha, hr, he⟩
  · exact Or.inl (List.mem_flatMap.mpr ⟨e, he, hbecomes.placeholders ▸ hqe⟩)
  · exact Or.inr ⟨a, r, ha, hr, List.mem_flatMap.mpr ⟨e', he, hqe⟩⟩

theorem AnalyzesPlan.access_origin (h : AnalyzesPlan scope p p' columns) {x : Plan.Access}
    (hx : x ∈ p'.accesses) :
    (x ∈ p.accesses ∧ ∀ a, x ≠ .relation a) ∨
      ∃ a q, Plan.Access.relation a ∈ p.accesses ∧ scope.compiled a = .ok q ∧ x ∈ q.accesses := by
  obtain ⟨n', hn', hx'⟩ := List.mem_filterMap.mp hx
  cases h.origin hn' with
  | own hn haccess hrelation _ =>
      refine Or.inl ⟨List.mem_filterMap.mpr ⟨_, hn, haccess ▸ hx'⟩, ?_⟩
      rintro a rfl
      cases n' with
      | relation b => cases hrelation
      | _ => cases hx'
  | inlined ha hq hn => exact Or.inr ⟨_, _, ha, hq, List.mem_filterMap.mpr ⟨_, hn, hx'⟩⟩

theorem AnalyzesPlan.congr (h : AnalyzesPlan scope p p' columns) {scope' : RelationScope}
    (hcompiled : ∀ a, Plan.Access.relation a ∈ p.accesses →
      scope'.compiled a = scope.compiled a ∧ scope'.schema a = scope.schema a) :
    AnalyzesPlan scope' p p' columns := by
  have hchild : ∀ {n c : Plan} {a : String}, c ∈ n.children →
      Plan.Access.relation a ∈ c.accesses → Plan.Access.relation a ∈ n.accesses :=
    fun hc ha => Plan.accesses_subset_of_child hc ha
  induction h with
  | load source schema => exact .load source schema
  | relation hq hschema =>
      obtain ⟨h₁, h₂⟩ := hcompiled _ (List.mem_singleton.mpr rfl)
      exact .relation (h₁.trans hq) (h₂.trans hschema)
  | filter _ he ih =>
      exact .filter (ih fun a ha => hcompiled a (hchild (List.mem_singleton.mpr rfl) ha)) he
  | split branch _ he ih =>
      exact .split branch (ih fun a ha => hcompiled a (hchild (List.mem_singleton.mpr rfl) ha)) he
  | project _ hresults ih =>
      exact .project (ih fun a ha => hcompiled a (hchild (List.mem_singleton.mpr rfl) ha)) hresults
  | aggregate _ hks hgs ih =>
      exact .aggregate (ih fun a ha => hcompiled a (hchild (List.mem_singleton.mpr rfl) ha)) hks
        hgs
  | join _ _ hon ihl ihr =>
      exact .join (ihl fun a ha => hcompiled a (hchild List.mem_cons_self ha))
        (ihr fun a ha => hcompiled a (hchild (List.mem_cons_of_mem _ List.mem_cons_self) ha)) hon
  | limit count _ ih =>
      exact .limit count (ih fun a ha => hcompiled a (hchild (List.mem_singleton.mpr rfl) ha))
  | store target _ ih =>
      exact .store target (ih fun a ha => hcompiled a (hchild (List.mem_singleton.mpr rfl) ha))
  | sideInputs ids _ ih =>
      exact .sideInputs ids (ih fun a ha => hcompiled a (hchild (List.mem_singleton.mpr rfl) ha))

/-- Nothing that analysis finds depends on aliases that the plan does not read. -/
theorem AnalyzesPlan.restrict (h : AnalyzesPlan scope p p' columns) :
    ∃ scope' : RelationScope, AnalyzesPlan scope' p p' columns ∧
      ∀ a q, scope'.compiled a = .ok q → Plan.Access.relation a ∈ p.accesses ∧
        scope.compiled a = .ok q ∧ scope'.schema a = scope.schema a := by
  classical
  refine ⟨⟨fun a => if Plan.Access.relation a ∈ p.accesses then scope.compiled a else
    .error (.planning (.unknownAlias a)), scope.schema, scope.defines⟩, h.congr ?_, ?_⟩
  · exact fun a ha => ⟨if_pos ha, rfl⟩
  · intro a q hq
    dsimp only at hq
    split at hq
    · rename_i ha
      exact ⟨ha, hq, rfl⟩
    · cases hq

end RelationScope

end RelScript
