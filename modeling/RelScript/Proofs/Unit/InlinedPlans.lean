import RelScript.Proofs.Analysis.Positions
import RelScript.Proofs.Script.Unfolding
import RelScript.Proofs.Unit.Settling

/-!
What binding and analysis make of definitions whose relations are replaced by theirs. The plan of an
alias is a function of its inlined definition and of the positions of the columns in it, whatever
the relations are called. The names of the scalars stand in the plan as in the definition.
-/

namespace RelScript

namespace RelationScope

theorem scalarNames_castTo (e : Expr) (a t : DataType) :
    (TypedExpr.castTo (e, a) t).scalarNames = e.scalarNames := by
  unfold TypedExpr.castTo
  split <;> rfl

theorem Analyzes.scalarNames {input : Resolver} {e e' : Expr} {t : DataType}
    (h : Analyzes input e e' t) : e'.scalarNames = e.scalarNames := by
  induction h with
  | compare _ _ _ _ _ _ ihl ihr | arith _ _ _ _ _ _ ihl ihr | concat _ _ _ _ _ _ ihl ihr =>
      simp only [Expr.scalarNames, scalarNames_castTo, ihl, ihr]
  | junction _ _ _ ihl ihr => rw [Expr.scalarNames, Expr.scalarNames, ihl, ihr]
  | cast _ _ ih | not _ ih => exact ih
  | _ => rfl

theorem AnalyzesAggregate.scalarNames {input : Resolver} {a a' : Aggregate} {t : DataType}
    (h : AnalyzesAggregate input a a' t) : a'.arg.scalarNames = a.arg.scalarNames := by
  cases h with
  | count he => exact he.scalarNames
  | average he | gather _ _ he => simp only [scalarNames_castTo, he.scalarNames]

theorem AnalyzesKeys.scalarNames {left right : Resolver} {k k' : Expr × Expr}
    (h : AnalyzesKeys left right k k') :
    k'.1.scalarNames ++ k'.2.scalarNames = k.1.scalarNames ++ k.2.scalarNames := by
  obtain ⟨l, r, a, b, t, hl, hr, -, -, -, rfl⟩ := h
  simp only [scalarNames_castTo, hl.scalarNames, hr.scalarNames]

end RelationScope

namespace ScalarScope

open RelationScope

/-- A plan that reads no relations, the analyzed plan that binding and analysis make of it, and its
schema. -/
inductive CompilesTo (scope : ScalarScope Unit) : Plan → Plan → RelationSchema → Prop
  | load (source : String) (schema : RelationSchema) :
    CompilesTo scope (.load source schema) (.load source schema) (sourceColumns schema).schema
  | project {p p' : Plan} {columns : Resolver} {outputs bound : List (Named Expr)}
    {used : List SideInputId} {results : List (Named Expr × Field)} :
    CompilesTo scope p p' columns.schema →
      bindAll scope.bindColumn outputs () = .ok ((bound, used), ()) →
        List.Forall₂ (AnalyzesColumn columns) bound results →
          CompilesTo scope (.project outputs p) (wrap (.project (results.map (·.1)) p') used)
            (Resolver.anonymous (results.map (·.2))).schema
  | filter {p p' : Plan} {columns : Resolver} {e b e' : Expr} {used : List SideInputId} :
    CompilesTo scope p p' columns.schema → scope.bindExpr e () = .ok ((b, used), ()) →
      Analyzes columns b e' .boolean →
        CompilesTo scope (.filter e p) (wrap (.filter e' p') used) columns.schema
  | split {p p' : Plan} {columns : Resolver} {e b e' : Expr} {used : List SideInputId}
    (branch : String) :
    CompilesTo scope p p' columns.schema → scope.bindExpr e () = .ok ((b, used), ()) →
      Analyzes columns b e' .boolean →
        CompilesTo scope (.split branch e p) (wrap (.split branch e' p') used) columns.schema
  | aggregate {p p' : Plan} {columns : Resolver} {keys boundKeys : List Expr}
    {aggregates boundAggregates : List (Named Aggregate)} {us vs : List SideInputId}
    {ks : List (Expr × Field)} {gs : List (Named Aggregate × Field)} :
    CompilesTo scope p p' columns.schema →
      bindAll scope.bindExpr keys () = .ok ((boundKeys, us), ()) →
        bindAll scope.bindAggregate aggregates () = .ok ((boundAggregates, vs), ()) →
          List.Forall₂ (AnalyzesKey columns) boundKeys ks →
            List.Forall₂ (AnalyzesMeasure columns) boundAggregates gs →
              CompilesTo scope (.aggregate keys aggregates p)
                (wrap (.aggregate (ks.map (·.1)) (gs.map (·.1)) p') (us ++ vs))
                (Resolver.anonymous (ks.map (·.2) ++ gs.map (·.2))).schema
  | join {l l' r r' : Plan} {lcolumns rcolumns : Resolver} {on bound on' : List (Expr × Expr)}
    {used : List SideInputId} :
    CompilesTo scope l l' lcolumns.schema → CompilesTo scope r r' rcolumns.schema →
      bindAll scope.bindKeys on () = .ok ((bound, used), ()) →
        List.Forall₂ (AnalyzesKeys lcolumns rcolumns) bound on' →
          CompilesTo scope (.join l r on) (wrap (.join l' r' on') used)
            (lcolumns.join rcolumns).schema
  | limit {p p' : Plan} {schema : RelationSchema} (count : Nat) :
    CompilesTo scope p p' schema → CompilesTo scope (.limit count p) (.limit count p') schema
  | store {p p' : Plan} {schema : RelationSchema} (target : String) :
    CompilesTo scope p p' schema → CompilesTo scope (.store target p) (.store target p') schema
  | sideInputs {p p' : Plan} {schema : RelationSchema} (ids : List SideInputId) :
    CompilesTo scope p p' schema →
      CompilesTo scope (.sideInputs ids p) (.sideInputs ids p') schema

theorem of_analyzesPlan_wrap {scope : RelationScope} {q : Plan} {columns : Resolver} (node : Plan)
    (used : List SideInputId) (h : scope.AnalyzesPlan (wrap node used) q columns) :
    ∃ q', q = wrap q' used ∧ scope.AnalyzesPlan node q' columns := by
  cases used with
  | nil => exact ⟨q, rfl, h⟩
  | cons id used =>
      cases h with
      | sideInputs _ h => exact ⟨_, rfl, h⟩

/-- What stands in for the relations of a plan compiles to the plans that the relations have. -/
def StandsIn (scope : ScalarScope Unit) (relations : RelationScope) (f : String → Plan)
    (d : Plan) : Prop :=
  ∀ a, Plan.Access.relation a ∈ d.accesses → ∀ p schema, relations.compiled a = .ok p →
    relations.schema a = .ok schema → CompilesTo scope (f a) p schema

theorem StandsIn.child {scope : ScalarScope Unit} {relations : RelationScope} {f : String → Plan}
    {c d : Plan} (h : StandsIn scope relations f d) (hc : c ∈ d.children) :
    StandsIn scope relations f c :=
  fun a ha => h a (Plan.accesses_subset_of_child hc ha)

theorem compilesTo_inline {scope : ScalarScope Unit} {relations : RelationScope}
    {f : String → Plan} {d bound q : Plan} {columns : Resolver}
    (hrelations : StandsIn scope relations f d) (hbound : scope.bindPlan d () = .ok (bound, ()))
    (hplan : relations.AnalyzesPlan bound q columns) :
    CompilesTo scope (d.inline f) q columns.schema := by
  -- Binding has put the list of its side inputs over a node, and so the list is taken off first.
  induction d generalizing bound q columns with
  | load source schema =>
      cases hbound
      cases hplan
      exact .load source schema
  | relation a =>
      cases hbound
      cases hplan with
      | relation hp hschema =>
          rw [Resolver.schema_ofRelation]
          exact hrelations a (List.mem_singleton.mpr rfl) _ _ hp hschema
  | project outputs input ih =>
      obtain ⟨i, ⟨⟩, hi, hbound⟩ := stateBind_eq_ok.mp hbound
      obtain ⟨⟨outputs', used⟩, ⟨⟩, houtputs, hbound⟩ := stateBind_eq_ok.mp hbound
      cases hbound
      obtain ⟨q', rfl, hnode⟩ := of_analyzesPlan_wrap (.project outputs' i) used hplan
      cases hnode with
      | project hinput hresults =>
          exact .project (ih (hrelations.child List.mem_cons_self) hi hinput) houtputs hresults
  | filter predicate input ih =>
      obtain ⟨i, ⟨⟩, hi, hbound⟩ := stateBind_eq_ok.mp hbound
      obtain ⟨⟨b, used⟩, ⟨⟩, hb, hbound⟩ := stateBind_eq_ok.mp hbound
      cases hbound
      obtain ⟨q', rfl, hnode⟩ := of_analyzesPlan_wrap (.filter b i) used hplan
      cases hnode with
      | filter hinput he =>
          exact .filter (ih (hrelations.child List.mem_cons_self) hi hinput) hb he
  | split branch predicate input ih =>
      obtain ⟨i, ⟨⟩, hi, hbound⟩ := stateBind_eq_ok.mp hbound
      obtain ⟨⟨b, used⟩, ⟨⟩, hb, hbound⟩ := stateBind_eq_ok.mp hbound
      cases hbound
      obtain ⟨q', rfl, hnode⟩ := of_analyzesPlan_wrap (.split branch b i) used hplan
      cases hnode with
      | split _ hinput he =>
          exact .split branch (ih (hrelations.child List.mem_cons_self) hi hinput) hb he
  | aggregate keys aggregates input ih =>
      obtain ⟨i, ⟨⟩, hi, hbound⟩ := stateBind_eq_ok.mp hbound
      obtain ⟨⟨ks, us⟩, ⟨⟩, hks, hbound⟩ := stateBind_eq_ok.mp hbound
      obtain ⟨⟨gs, vs⟩, ⟨⟩, hgs, hbound⟩ := stateBind_eq_ok.mp hbound
      cases hbound
      obtain ⟨q', rfl, hnode⟩ := of_analyzesPlan_wrap (.aggregate ks gs i) (us ++ vs) hplan
      cases hnode with
      | aggregate hinput hkeys hmeasures =>
          exact .aggregate (ih (hrelations.child List.mem_cons_self) hi hinput) hks hgs hkeys
            hmeasures
  | join left right on ihl ihr =>
      obtain ⟨l, ⟨⟩, hl, hbound⟩ := stateBind_eq_ok.mp hbound
      obtain ⟨r, ⟨⟩, hr, hbound⟩ := stateBind_eq_ok.mp hbound
      obtain ⟨⟨on', used⟩, ⟨⟩, hon, hbound⟩ := stateBind_eq_ok.mp hbound
      cases hbound
      obtain ⟨q', rfl, hnode⟩ := of_analyzesPlan_wrap (.join l r on') used hplan
      cases hnode with
      | join hleft hright hkeys =>
          have hrelations' := hrelations.child (List.mem_cons_of_mem _ List.mem_cons_self)
          exact .join (ihl (hrelations.child List.mem_cons_self) hl hleft)
            (ihr hrelations' hr hright) hon hkeys
  | limit count input ih =>
      obtain ⟨i, ⟨⟩, hi, hbound⟩ := stateBind_eq_ok.mp hbound
      cases hbound
      cases hplan with
      | limit _ hinput =>
          exact .limit count (ih (hrelations.child List.mem_cons_self) hi hinput)
  | store target input ih =>
      obtain ⟨i, ⟨⟩, hi, hbound⟩ := stateBind_eq_ok.mp hbound
      cases hbound
      cases hplan with
      | store _ hinput =>
          exact .store target (ih (hrelations.child List.mem_cons_self) hi hinput)
  | sideInputs ids input ih =>
      obtain ⟨i, ⟨⟩, hi, hbound⟩ := stateBind_eq_ok.mp hbound
      cases hbound
      cases hplan with
      | sideInputs _ hinput =>
          exact .sideInputs ids (ih (hrelations.child List.mem_cons_self) hi hinput)

/-- The analyzed plan is determined by the plan and the positions of its columns. -/
theorem CompilesTo.determined {scope : ScalarScope Unit} {p q q' : Plan}
    {schema schema' : RelationSchema} (h : CompilesTo scope p q schema)
    (h' : CompilesTo scope p q' schema') {rest rest' : List Nat}
    (heq : q.columnIndices ++ rest = q'.columnIndices ++ rest') :
    q = q' ∧ schema = schema' ∧ rest = rest' := by
  -- The positions of a node follow those of its inputs, so what is left over tells them apart.
  induction h generalizing q' schema' rest rest' with
  | load source schema =>
      cases h'
      exact ⟨rfl, rfl, heq⟩
  | project _ hbound hresults ih =>
      cases h' with
      | project hinput hbound' hresults' =>
          cases hbound.symm.trans hbound'
          simp only [Plan.columnIndices_wrap, Plan.columnIndices, List.flatMap_map,
            List.append_assoc] at heq
          obtain ⟨rfl, hschema, hown⟩ := ih hinput heq
          obtain ⟨rfl, rfl⟩ :=
            (decodes_column hschema).forall₂ _ _ _ _ _ hresults hresults' hown
          exact ⟨rfl, rfl, rfl⟩
  | filter _ hb he ih =>
      cases h' with
      | filter hinput hb' he' =>
          cases hb.symm.trans hb'
          simp only [Plan.columnIndices_wrap, Plan.columnIndices, List.append_assoc] at heq
          obtain ⟨rfl, hschema, hown⟩ := ih hinput heq
          obtain ⟨rfl, -, rfl⟩ := he.determined hschema he' hown
          exact ⟨rfl, hschema, rfl⟩
  | split branch _ hb he ih =>
      cases h' with
      | split _ hinput hb' he' =>
          cases hb.symm.trans hb'
          simp only [Plan.columnIndices_wrap, Plan.columnIndices, List.append_assoc] at heq
          obtain ⟨rfl, hschema, hown⟩ := ih hinput heq
          obtain ⟨rfl, -, rfl⟩ := he.determined hschema he' hown
          exact ⟨rfl, hschema, rfl⟩
  | aggregate _ hks hgs hkeys hmeasures ih =>
      cases h' with
      | aggregate hinput hks' hgs' hkeys' hmeasures' =>
          cases hks.symm.trans hks'
          cases hgs.symm.trans hgs'
          simp only [Plan.columnIndices_wrap, Plan.columnIndices, List.flatMap_map,
            List.append_assoc] at heq
          obtain ⟨rfl, hschema, hown⟩ := ih hinput heq
          obtain ⟨rfl, hlast⟩ := (decodes_key hschema).forall₂ _ _ _ _ _ hkeys hkeys' hown
          obtain ⟨rfl, rfl⟩ :=
            (decodes_measure hschema).forall₂ _ _ _ _ _ hmeasures hmeasures' hlast
          exact ⟨rfl, rfl, rfl⟩
  | join _ _ hon hkeys ihl ihr =>
      cases h' with
      | join hleft hright hon' hkeys' =>
          cases hon.symm.trans hon'
          simp only [Plan.columnIndices_wrap, Plan.columnIndices, List.append_assoc] at heq
          obtain ⟨rfl, hl, hlater⟩ := ihl hleft heq
          obtain ⟨rfl, hr, hown⟩ := ihr hright hlater
          obtain ⟨rfl, rfl⟩ := (decodes_keys hl hr).forall₂ _ _ _ _ _ hkeys hkeys' hown
          rw [Resolver.schema_join, Resolver.schema_join, hl, hr]
          exact ⟨rfl, rfl, rfl⟩
  | limit count _ ih =>
      cases h' with
      | limit _ hinput =>
          obtain ⟨rfl, hschema, rfl⟩ := ih hinput heq
          exact ⟨rfl, hschema, rfl⟩
  | store target _ ih =>
      cases h' with
      | store _ hinput =>
          obtain ⟨rfl, hschema, rfl⟩ := ih hinput heq
          exact ⟨rfl, hschema, rfl⟩
  | sideInputs ids _ ih =>
      cases h' with
      | sideInputs _ hinput =>
          obtain ⟨rfl, hschema, rfl⟩ := ih hinput heq
          exact ⟨rfl, hschema, rfl⟩

theorem scalarNames_of_bindExpr {σ : Type} {scope : ScalarScope σ} {e e' : Expr}
    {used : List SideInputId} {s s' : σ} (h : scope.bindExpr e s = .ok ((e', used), s')) :
    e'.scalarNames = e.scalarNames := by
  induction e generalizing e' used s s' with
  | scalarRef a field =>
      obtain ⟨p, t, hp, h⟩ := stateBind_eq_ok.mp h
      obtain ⟨_, _, _, _, -, -, -, rfl⟩ := placeholder_eq_ok.mp hp
      cases h
      rfl
  | relationRef a => cases h
  | binary l op r ihl ihr | junction j l r ihl ihr =>
      obtain ⟨⟨l', us⟩, t, hl, h⟩ := stateBind_eq_ok.mp h
      obtain ⟨⟨r', vs⟩, t', hr, h⟩ := stateBind_eq_ok.mp h
      cases h
      rw [Expr.scalarNames, Expr.scalarNames, ihl hl, ihr hr]
  | cast e t ih | not e ih =>
      obtain ⟨⟨b, us⟩, t, he, h⟩ := stateBind_eq_ok.mp h
      cases h
      simpa only [Expr.scalarNames] using ih he
  | _ =>
      cases h
      rfl

theorem scalarNames_of_bindAll {σ α : Type} {step : α → StateT σ Outcome (α × List SideInputId)}
    {names : α → List String}
    (hstep : ∀ a b used s s', step a s = .ok ((b, used), s') → names b = names a)
    {items results : List α} {used : List SideInputId} {s s' : σ}
    (h : bindAll step items s = .ok ((results, used), s')) :
    results.flatMap names = items.flatMap names := by
  induction items generalizing results used s s' with
  | nil =>
      cases h
      rfl
  | cons a items ih =>
      obtain ⟨⟨b, us⟩, t, ha, h⟩ := stateBind_eq_ok.mp h
      obtain ⟨⟨rest, vs⟩, t', hrest, h⟩ := stateBind_eq_ok.mp h
      cases h
      rw [List.flatMap_cons, List.flatMap_cons, hstep _ _ _ _ _ ha, ih hrest]

theorem scalarNames_of_bindColumn {σ : Type} {scope : ScalarScope σ} {c c' : Named Expr}
    {used : List SideInputId} {s s' : σ} (h : scope.bindColumn c s = .ok ((c', used), s')) :
    c'.value.scalarNames = c.value.scalarNames := by
  obtain ⟨⟨e, us⟩, t, he, h⟩ := stateBind_eq_ok.mp h
  cases h
  exact scalarNames_of_bindExpr he

theorem scalarNames_of_bindAggregate {σ : Type} {scope : ScalarScope σ} {g g' : Named Aggregate}
    {used : List SideInputId} {s s' : σ} (h : scope.bindAggregate g s = .ok ((g', used), s')) :
    g'.value.arg.scalarNames = g.value.arg.scalarNames := by
  obtain ⟨⟨e, us⟩, t, he, h⟩ := stateBind_eq_ok.mp h
  cases h
  exact scalarNames_of_bindExpr he

theorem scalarNames_of_bindKeys {σ : Type} {scope : ScalarScope σ} {k k' : Expr × Expr}
    {used : List SideInputId} {s s' : σ} (h : scope.bindKeys k s = .ok ((k', used), s')) :
    k'.1.scalarNames ++ k'.2.scalarNames = k.1.scalarNames ++ k.2.scalarNames := by
  obtain ⟨⟨l, us⟩, t, hl, h⟩ := stateBind_eq_ok.mp h
  obtain ⟨⟨r, vs⟩, t', hr, h⟩ := stateBind_eq_ok.mp h
  cases h
  rw [scalarNames_of_bindExpr hl, scalarNames_of_bindExpr hr]

theorem CompilesTo.scalarNames {scope : ScalarScope Unit} {p q : Plan} {schema : RelationSchema}
    (h : CompilesTo scope p q schema) : q.scalarNames = p.scalarNames := by
  induction h with
  | load source schema => rfl
  | project _ hbound hresults ih =>
      rw [Plan.scalarNames_wrap, Plan.scalarNames_project, Plan.scalarNames_project, ih,
        List.flatMap_map, flatMap_eq_of_forall₂ (fun _ _ h => h.1.scalarNames) hresults,
        scalarNames_of_bindAll (fun _ _ _ _ _ => scalarNames_of_bindColumn) hbound]
  | filter _ hb he ih =>
      rw [Plan.scalarNames_wrap, Plan.scalarNames_filter, Plan.scalarNames_filter, ih,
        he.scalarNames, scalarNames_of_bindExpr hb]
  | split branch _ hb he ih =>
      rw [Plan.scalarNames_wrap, Plan.scalarNames_split, Plan.scalarNames_split, ih,
        he.scalarNames, scalarNames_of_bindExpr hb]
  | aggregate _ hks hgs hkeys hmeasures ih =>
      rw [Plan.scalarNames_wrap, Plan.scalarNames_aggregate, Plan.scalarNames_aggregate, ih,
        List.flatMap_map, List.flatMap_map,
        flatMap_eq_of_forall₂ (fun _ _ h => h.1.scalarNames) hkeys,
        flatMap_eq_of_forall₂ (fun _ _ h => h.1.scalarNames) hmeasures,
        scalarNames_of_bindAll (fun _ _ _ _ _ => scalarNames_of_bindExpr) hks,
        scalarNames_of_bindAll (fun _ _ _ _ _ => scalarNames_of_bindAggregate) hgs]
  | join _ _ hon hkeys ihl ihr =>
      rw [Plan.scalarNames_wrap, Plan.scalarNames_join, Plan.scalarNames_join, ihl, ihr,
        flatMap_eq_of_forall₂ (fun _ _ h => h.scalarNames) hkeys,
        scalarNames_of_bindAll (fun _ _ _ _ _ => scalarNames_of_bindKeys) hon]
  | limit _ _ ih | store _ _ ih | sideInputs _ _ ih => exact ih

end ScalarScope

namespace Compilation

variable {script : Script} {roots : List String}

/-- The plan of a compiled alias is what binding and analysis make of its inlined definition. -/
theorem Built.compilesTo {c : Compilation} (h : Built script roots c) {a : String} {p : Plan}
    (hp : script.Inlined a p) {x : CompiledAlias} (hx : c.get? a = some x) :
    c.settledScope.CompilesTo p x.plan x.schema := by
  induction hp generalizing x with
  | intro f hd _ ih =>
      obtain ⟨d', bound, columns, hd', hbound, hplan, hschema⟩ := h.settled hx
      cases hd.symm.trans hd'
      rw [← hschema]
      refine ScalarScope.compilesTo_inline (fun b hb q schema hq hs => ?_) hbound hplan
      obtain ⟨y, hy, rfl, rfl⟩ := relationScope_eq_ok.mp ⟨hq, hs⟩
      exact ih b hb hy

end Compilation

end RelScript
