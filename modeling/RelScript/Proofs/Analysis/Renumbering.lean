import RelScript.Proofs.Analysis.Scoping

/-!
Analysis does not look at the numbers of side inputs: a renumbered plan is analyzed to the
renumbered result, against aliases whose compiled plans are renumbered as well.
-/

namespace RelScript

namespace Expr

theorem castTo_reassign (ids : String → SideInputId) (e : Expr) (a t : DataType) :
    (TypedExpr.castTo (e, a) t).reassign ids = TypedExpr.castTo (e.reassign ids, a) t := by
  unfold TypedExpr.castTo
  split <;> rfl

theorem isUntypedScalar_reassign (ids : String → SideInputId) (e : Expr) :
    (e.reassign ids).isUntypedScalar = e.isUntypedScalar := by
  cases e <;> rfl

end Expr

namespace RelationScope

variable (ids : String → SideInputId)

theorem Analyzes.reassign {input : Resolver} {e e' : Expr} {t : DataType}
    (h : Analyzes input e e' t) : Analyzes input (e.reassign ids) (e'.reassign ids) t := by
  induction h with
  | column hi => exact .column hi
  | position hi => exact .position hi
  | columnRef hi => exact .columnRef hi
  | literal v => exact .literal v
  | placeholder p => exact .placeholder (p.reassign ids)
  | cast t _ ih => exact .cast t ih
  | junction j _ _ ihl ihr => exact .junction j ihl ihr
  | not _ ih => exact .not ih
  | compare c _ _ hul hur ht ihl ihr =>
      have h := Analyzes.compare c ihl ihr ((Expr.isUntypedScalar_reassign ids _).trans hul)
        ((Expr.isUntypedScalar_reassign ids _).trans hur) ht
      rwa [← Expr.castTo_reassign, ← Expr.castTo_reassign] at h
  | arith op _ _ hul hur ht ihl ihr =>
      have h := Analyzes.arith op ihl ihr ((Expr.isUntypedScalar_reassign ids _).trans hul)
        ((Expr.isUntypedScalar_reassign ids _).trans hur) ht
      rwa [← Expr.castTo_reassign, ← Expr.castTo_reassign] at h
  | concat _ _ hul hur ha hb ihl ihr =>
      have h := Analyzes.concat ihl ihr ((Expr.isUntypedScalar_reassign ids _).trans hul)
        ((Expr.isUntypedScalar_reassign ids _).trans hur) ha hb
      rwa [← Expr.castTo_reassign, ← Expr.castTo_reassign] at h

theorem AnalyzesAggregate.reassign {input : Resolver} {a a' : Aggregate} {t : DataType}
    (h : AnalyzesAggregate input a a' t) :
    AnalyzesAggregate input ⟨a.fn, a.arg.reassign ids⟩ ⟨a'.fn, a'.arg.reassign ids⟩ t := by
  rcases h with ⟨he⟩ | ⟨he, hu⟩ | ⟨hcount, havg, he, hu⟩
  · exact .count (he.reassign ids)
  · have h := AnalyzesAggregate.average (he.reassign ids) hu
    rwa [← Expr.castTo_reassign, ← Expr.castTo_reassign] at h
  · have h := AnalyzesAggregate.gather hcount havg (he.reassign ids) hu
    rwa [← Expr.castTo_reassign] at h

theorem AnalyzesKeys.reassign {left right : Resolver} {k r : Expr × Expr}
    (h : AnalyzesKeys left right k r) :
    AnalyzesKeys left right (k.1.reassign ids, k.2.reassign ids)
      (r.1.reassign ids, r.2.reassign ids) := by
  obtain ⟨l', r', a, b, t, hl, hr, hul, hur, ht, rfl⟩ := h
  refine ⟨_, _, a, b, t, hl.reassign ids, hr.reassign ids,
    (Expr.isUntypedScalar_reassign ids _).trans hul,
    (Expr.isUntypedScalar_reassign ids _).trans hur, ht, ?_⟩
  rw [Expr.castTo_reassign, Expr.castTo_reassign]

theorem AnalyzesPlan.listed_node {scope : RelationScope} {n n' : Plan} {columns : Resolver}
    (h : AnalyzesPlan scope n n' columns) (hexprs : List.Forall₂ Becomes n.exprs n'.exprs) :
    AnalyzesPlan scope n.listed n'.listed columns := by
  rw [Plan.listed, Plan.listed, reads_eq_of_becomes hexprs]
  cases n.reads with
  | nil => exact h
  | cons id used => exact .sideInputs _ h

/-- Aliases with renumbered plans. -/
def Renumbers (scope scope' : RelationScope) (a : String) : Prop :=
  ∀ q schema, scope.compiled a = .ok q → scope.schema a = .ok schema →
    scope'.compiled a = .ok (q.reassign ids) ∧ scope'.schema a = .ok schema

theorem AnalyzesPlan.reassign {scope scope' : RelationScope} {p p' : Plan} {columns : Resolver}
    (h : AnalyzesPlan scope p p' columns)
    (hscope : ∀ a, Plan.Access.relation a ∈ p.accesses → Renumbers ids scope scope' a) :
    AnalyzesPlan scope' (p.reassign ids) (p'.reassign ids) columns := by
  have hchild : ∀ {n c : Plan}, c ∈ n.children →
      (∀ a, Plan.Access.relation a ∈ n.accesses → Renumbers ids scope scope' a) →
        ∀ a, Plan.Access.relation a ∈ c.accesses → Renumbers ids scope scope' a :=
    fun hc hn a ha => hn a (Plan.accesses_subset_of_child hc ha)
  -- Renumbering lists anew what a node reads, so what analysis gives is listed anew as well.
  induction h with
  | load source schema => exact .load source schema
  | relation hq hschema =>
      obtain ⟨hq', hschema'⟩ := hscope _ (List.mem_singleton.mpr rfl) _ _ hq hschema
      exact .relation hq' hschema'
  | filter _ he ih =>
      have hinput := ih (hchild (List.mem_singleton.mpr rfl) hscope)
      exact (AnalyzesPlan.filter hinput (he.reassign ids)).listed_node
        (.cons ⟨_, _, _, he.reassign ids, .refl⟩ .nil)
  | split branch _ he ih =>
      have hinput := ih (hchild (List.mem_singleton.mpr rfl) hscope)
      exact (AnalyzesPlan.split branch hinput (he.reassign ids)).listed_node
        (.cons ⟨_, _, _, he.reassign ids, .refl⟩ .nil)
  | @project p p' columns outputs results _ hresults ih =>
      have hinput := ih (hchild (List.mem_singleton.mpr rfl) hscope)
      have hrenumbered : List.Forall₂ (AnalyzesColumn columns)
          (outputs.map fun c => ⟨c.value.reassign ids, c.name⟩)
          (results.map fun r => (⟨r.1.value.reassign ids, r.1.name⟩, r.2)) := by
        rw [List.forall₂_map_left_iff, List.forall₂_map_right_iff]
        exact hresults.imp fun c r hr => ⟨hr.1.reassign ids, hr.2⟩
      have h := (AnalyzesPlan.project hinput hrenumbered).listed_node
        (becomes_columns hrenumbered)
      simpa only [Plan.reassign, Plan.mapExprs, Plan.relist, List.map_map,
        Function.comp_def] using h
  | @aggregate p p' columns keys aggregates ks gs _ hks hgs ih =>
      have hinput := ih (hchild (List.mem_singleton.mpr rfl) hscope)
      have hks' : List.Forall₂ (AnalyzesKey columns) (keys.map (·.reassign ids))
          (ks.map fun r => (r.1.reassign ids, r.2)) := by
        rw [List.forall₂_map_left_iff, List.forall₂_map_right_iff]
        refine hks.imp fun k r hr => ⟨hr.1.reassign ids, ?_, hr.2.2⟩
        rw [Expr.groupName_reassign]
        exact hr.2.1
      have hgs' : List.Forall₂ (AnalyzesMeasure columns)
          (aggregates.map fun a => ⟨⟨a.value.fn, a.value.arg.reassign ids⟩, a.name⟩)
          (gs.map fun r => (⟨⟨r.1.value.fn, r.1.value.arg.reassign ids⟩, r.1.name⟩, r.2)) := by
        rw [List.forall₂_map_left_iff, List.forall₂_map_right_iff]
        exact hgs.imp fun a r hr => ⟨hr.1.reassign ids, hr.2⟩
      have h := (AnalyzesPlan.aggregate hinput hks' hgs').listed_node
        (becomes_grouping hks' hgs')
      simpa only [Plan.reassign, Plan.mapExprs, Plan.relist, List.map_map,
        Function.comp_def] using h
  | @join l l' r r' lcolumns rcolumns on on' _ _ hon ihl ihr =>
      have hleft := ihl (hchild List.mem_cons_self hscope)
      have hright := ihr (hchild (List.mem_cons_of_mem _ List.mem_cons_self) hscope)
      have hon' : List.Forall₂ (AnalyzesKeys lcolumns rcolumns)
          (on.map fun k => (k.1.reassign ids, k.2.reassign ids))
          (on'.map fun k => (k.1.reassign ids, k.2.reassign ids)) := by
        rw [List.forall₂_map_left_iff, List.forall₂_map_right_iff]
        exact hon.imp fun k r hr => hr.reassign ids
      exact (AnalyzesPlan.join hleft hright hon').listed_node (becomes_keys hon')
  | limit count _ ih => exact .limit count (ih (hchild (List.mem_singleton.mpr rfl) hscope))
  | store target _ ih => exact .store target (ih (hchild (List.mem_singleton.mpr rfl) hscope))
  | sideInputs used _ ih => exact ih (hchild (List.mem_singleton.mpr rfl) hscope)

end RelationScope

end RelScript
