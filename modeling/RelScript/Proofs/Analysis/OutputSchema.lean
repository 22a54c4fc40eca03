import RelScript.Proofs.Analysis.Resolver
import RelScript.Proofs.Analysis.Rules

/-!
The type that analysis finds for an expression, and the schema that it finds for a plan, are those
of the analyzed expression and plan.
-/

namespace RelScript

namespace Resolver

theorem schema_anonymous (s : Schema) : (anonymous s).schema = some s := by
  simp [anonymous, schema, columns, Function.comp_def]

theorem schema_ofRelation (a : String) (s : RelationSchema) : (ofRelation a s).schema = s := by
  cases s <;> simp [ofRelation, schema, columns, Function.comp_def]

theorem schema_join (l r : Resolver) :
    (l.join r).schema = match l.schema, r.schema with
      | some s, some t => some (s ++ t)
      | _, _ => none := by
  cases l <;> cases r <;> simp [join, schema, columns]

theorem getElem?_of_resolve {name : String} {input : Resolver} {i : Nat} {t : DataType}
    (h : input.resolve name = .ok (i, t)) :
    ∃ s f, input.schema = some s ∧ s[i]? = some f ∧ f.type = t := by
  cases input with
  | unknown => cases h
  | known parts =>
      rw [resolve] at h
      split at h
      · cases h
      · rename_i found hcandidates
        cases h
        have hmem : (i, t) ∈ candidates parts name := by
          rw [hcandidates]
          exact List.mem_singleton.mpr rfl
        rw [candidates_eq] at hmem
        obtain ⟨⟨column, k⟩, hc, heq⟩ := List.mem_map.mp hmem
        cases heq
        have hk := List.mem_zipIdx_iff_getElem?.mp (List.mem_filter.mp hc).1
        exact ⟨_, column.2, rfl, by rw [List.getElem?_map, hk]; rfl, rfl⟩
      · cases h

theorem getElem?_of_position {input : Resolver} {i : Nat} {name : String} {t : DataType}
    (h : input.position i = .ok (name, t)) :
    input.schema = none ∧ t = .binary ∨
      ∃ s f, input.schema = some s ∧ s[i]? = some f ∧ f.type = t := by
  cases input with
  | unknown =>
      cases h
      exact Or.inl ⟨rfl, rfl⟩
  | known parts =>
      rw [position_known] at h
      split at h
      · rename_i column hcolumn
        cases h
        exact Or.inr ⟨_, column.2, rfl, by rw [List.getElem?_map, hcolumn]; rfl, rfl⟩
      · cases h

theorem fieldType?_of_getElem? {s : Schema} {i : Nat} {f : Field} (h : s[i]? = some f) :
    RelationSchema.fieldType? (some s) i = some f.type := by
  simp [RelationSchema.fieldType?, h]

theorem columnType_of_position {input : Resolver} {i : Nat} {name : String} {t : DataType}
    (h : input.position i = .ok (name, t)) :
    (input.schema.fieldType? i).getD .binary = t := by
  rcases getElem?_of_position h with ⟨hnone, rfl⟩ | ⟨s, f, hs, hf, rfl⟩
  · rw [hnone]
    rfl
  · rw [hs, fieldType?_of_getElem? hf, Option.getD_some]

end Resolver

theorem Expr.type_castTo {input : RelationSchema} {e : Expr} {a : DataType}
    (he : e.type input = .ok a) (t : DataType) :
    (TypedExpr.castTo (e, a) t).type input = .ok t := by
  unfold TypedExpr.castTo
  split
  · rename_i hat
    dsimp only at hat
    rw [← hat]
    exact he
  · rfl

namespace RelationScope

theorem Analyzes.type {input : Resolver} {e e' : Expr} {t : DataType}
    (h : Analyzes input e e' t) : e'.type input.schema = .ok t := by
  induction h with
  | column hi =>
      obtain ⟨s, f, hs, hf, rfl⟩ := Resolver.getElem?_of_resolve hi
      rw [Expr.type, hs, Resolver.fieldType?_of_getElem? hf, Option.getD_some]
  | position hi => rw [Expr.type, Resolver.columnType_of_position hi]
  | columnRef hi => rw [Expr.type, Resolver.columnType_of_position hi]
  | literal v => rfl
  | placeholder p => rfl
  | cast t _ _ => rfl
  | junction j _ _ _ _ => rfl
  | not _ _ => rfl
  | compare c _ _ _ _ _ _ _ => rfl
  | arith op _ _ _ _ _ ihl _ => exact Expr.type_castTo ihl _
  | concat _ _ _ _ _ _ _ _ => rfl

theorem AnalyzesAggregate.type {input : Resolver} {a a' : Aggregate} {t : DataType}
    (h : AnalyzesAggregate input a a' t) : a'.type input.schema = .ok t := by
  cases h with
  | count _ => rfl
  | average _ _ => rfl
  | @gather fn e e' b _ hcount havg he _ =>
      have hgather : Aggregate.type input.schema ⟨fn, TypedExpr.castTo (e', b) t⟩ =
          (TypedExpr.castTo (e', b) t).type input.schema := by
        cases fn with
        | count => exact absurd rfl hcount
        | avg => exact absurd rfl havg
        | sum | min | max => rfl
      rw [hgather]
      exact Expr.type_castTo he.type t

theorem mapM_map_eq_ok {α β γ : Type} {f : β → Outcome γ} {items : List α} {g : α → β}
    {h : α → γ} (hfg : ∀ a ∈ items, f (g a) = .ok (h a)) :
    (items.map g).mapM f = .ok (items.map h) := by
  rw [mapM_eq_ok, List.forall₂_map_left_iff, List.forall₂_map_right_iff, List.forall₂_same]
  exact hfg

theorem fields_of_columns {columns : Resolver} {outputs : List (Named Expr)}
    {results : List (Named Expr × Field)}
    (h : List.Forall₂ (AnalyzesColumn columns) outputs results) :
    (results.map (·.1)).mapM (fun c => do
      return Field.mk c.name (← c.value.type columns.schema) true) =
        (.ok (results.map (·.2)) : Outcome (List Field)) := by
  refine mapM_map_eq_ok fun r hr => ?_
  obtain ⟨c, -, he, hname, hfield, hnullable⟩ := forall_right_of_forall₂ h r hr
  refine bind_eq_ok.mpr ⟨_, he.type, ?_⟩
  rw [hname, ← hfield, ← hnullable]
  rfl

theorem fields_of_keys {columns : Resolver} {keys : List Expr} {ks : List (Expr × Field)}
    (h : List.Forall₂ (AnalyzesKey columns) keys ks) :
    (ks.map (·.1)).mapM (fun k => do
      return Field.mk k.groupName (← k.type columns.schema) true) =
        (.ok (ks.map (·.2)) : Outcome (List Field)) := by
  refine mapM_map_eq_ok fun r hr => ?_
  obtain ⟨k, -, he, hname, hnullable⟩ := forall_right_of_forall₂ h r hr
  refine bind_eq_ok.mpr ⟨_, he.type, ?_⟩
  rw [← hname, ← hnullable]
  rfl

theorem fields_of_measures {columns : Resolver} {aggregates : List (Named Aggregate)}
    {gs : List (Named Aggregate × Field)}
    (h : List.Forall₂ (AnalyzesMeasure columns) aggregates gs) :
    (gs.map (·.1)).mapM (fun a => do
      return Field.mk a.name (← a.value.type columns.schema) true) =
        (.ok (gs.map (·.2)) : Outcome (List Field)) := by
  refine mapM_map_eq_ok fun r hr => ?_
  obtain ⟨a, -, hg, hname, hfield, hnullable⟩ := forall_right_of_forall₂ h r hr
  refine bind_eq_ok.mpr ⟨_, hg.type, ?_⟩
  rw [hname, ← hfield, ← hnullable]
  rfl

/-- An analyzed plan produces the columns that analysis found, if those of its aliases do. -/
theorem AnalyzesPlan.schema_eq {scope : RelationScope} {p p' : Plan} {columns : Resolver}
    (h : AnalyzesPlan scope p p' columns)
    (hcompiled : ∀ a q s, scope.compiled a = .ok q → scope.schema a = .ok s → q.schema = .ok s) :
    p'.schema = .ok columns.schema := by
  induction h with
  | load source schema =>
      rw [Plan.schema]
      cases schema with
      | none => rfl
      | some s => rw [sourceColumns, Resolver.schema_anonymous]
  | relation hq hs => rw [hcompiled _ _ _ hq hs, Resolver.schema_ofRelation]
  | filter _ _ ih => exact ih
  | split branch _ _ ih => exact ih
  | project _ hresults ih =>
      rw [Resolver.schema_anonymous]
      exact bind_eq_ok.mpr ⟨_, ih, bind_eq_ok.mpr ⟨_, fields_of_columns hresults, rfl⟩⟩
  | aggregate _ hks hgs ih =>
      rw [Resolver.schema_anonymous]
      exact bind_eq_ok.mpr ⟨_, ih, bind_eq_ok.mpr ⟨_, fields_of_keys hks,
        bind_eq_ok.mpr ⟨_, fields_of_measures hgs, rfl⟩⟩⟩
  | join _ _ _ ihl ihr =>
      rw [Resolver.schema_join]
      exact bind_eq_ok.mpr ⟨_, ihl, bind_eq_ok.mpr ⟨_, ihr, rfl⟩⟩
  | limit count _ ih => exact ih
  | store target _ ih => exact ih
  | sideInputs ids _ ih => exact ih

/-- The schema that analysis reports is the one that is derived from the analyzed plan, if that is
so for the plans of the aliases. -/
theorem schema_of_analyze {scope : RelationScope}
    (hscope : ∀ a q s, scope.compiled a = .ok q → scope.schema a = .ok s → q.schema = .ok s)
    {p q : Plan} {s : RelationSchema} (h : scope.analyze p = .ok (q, s)) : q.schema = .ok s := by
  obtain ⟨columns, hplan, rfl⟩ := analyze_eq_ok.mp h
  exact hplan.schema_eq hscope

section Orders

/-- A number and an untyped amount. -/
def orderFields : Schema := [⟨"id", .integer .int32, true⟩, ⟨"amount", .binary, true⟩]

/-- One alias, which loads its rows. -/
def ordersScope : RelationScope where
  compiled a := if a = "orders" then .ok (.load "orders" (some orderFields))
    else .error (.planning (.unknownAlias a))
  schema a := if a = "orders" then .ok (some orderFields) else .error (.planning (.unknownAlias a))
  defines a := a = "orders"

theorem ordersScope_eq {a : String} {q : Plan} {s : RelationSchema}
    (hq : ordersScope.compiled a = .ok q) (hs : ordersScope.schema a = .ok s) :
    q = .load "orders" (some orderFields) ∧ s = some orderFields := by
  by_cases ha : a = "orders"
  · subst ha
    cases hq
    cases hs
    exact ⟨rfl, rfl⟩
  · have hnone : ordersScope.compiled a = .error (.planning (.unknownAlias a)) := if_neg ha
    rw [hnone] at hq
    cases hq

/-- The average number and the greatest amount of each group of orders above an amount. -/
def orderTotals : Plan :=
  .aggregate [.column "orders::id"]
    [⟨⟨.avg, .column "id"⟩, "mean"⟩, ⟨⟨.max, .column "amount"⟩, "top"⟩]
    (.filter (.binary (.column "amount") (.compare .gt) (.literal (.int ⟨100, by decide⟩)))
      (.relation "orders"))

/-- The same with positions for names and with its casts. -/
def analyzedOrderTotals : Plan :=
  .aggregate [.columnRef "orders::id" 0]
    [⟨⟨.avg, .cast (.cast (.columnRef "id" 0) .int64) .float64⟩, "mean"⟩,
      ⟨⟨.max, .cast (.columnRef "amount" 1) .float64⟩, "top"⟩]
    (.filter (.binary (.cast (.columnRef "amount" 1) .int64) (.compare .gt)
      (.literal (.int ⟨100, by decide⟩))) (.load "orders" (some orderFields)))

def orderTotalFields : Schema :=
  [⟨"orders::id", .integer .int32, true⟩, ⟨"mean", .float64, true⟩, ⟨"top", .float64, true⟩]

theorem analyze_orderTotals :
    ordersScope.analyze orderTotals = .ok (analyzedOrderTotals, some orderTotalFields) :=
  rfl

theorem schema_of_analyze_orderTotals :
    ordersScope.analyze orderTotals = .ok (analyzedOrderTotals, some orderTotalFields) ∧
      analyzedOrderTotals.schema = .ok (some orderTotalFields) := by
  refine ⟨analyze_orderTotals, schema_of_analyze (fun a q s hq hs => ?_) analyze_orderTotals⟩
  obtain ⟨rfl, rfl⟩ := ordersScope_eq hq hs
  rfl

end Orders

end RelationScope

end RelScript
