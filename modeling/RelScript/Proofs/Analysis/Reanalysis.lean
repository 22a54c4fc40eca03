import RelScript.Proofs.Analysis.Typing

/-!
Analysis of plans that are analyzed already. Implicit casts bring operands to a type that needs no
further cast, and a position finds the column that a name has found, also where the alias of its
relation is forgotten. So an analyzed plan is analyzed to itself, whatever the other aliases are.
-/

namespace RelScript

section Casts

theorem TypedExpr.castTo_self (e : Expr) (t : DataType) : TypedExpr.castTo (e, t) t = e :=
  if_pos rfl

theorem isUntypedScalar_castTo {e : Expr} (he : e.isUntypedScalar = false) (a t : DataType) :
    (TypedExpr.castTo (e, a) t).isUntypedScalar = false := by
  unfold TypedExpr.castTo
  split
  · exact he
  · rfl

theorem wider?_self {t : DataType} (ht : t.isNumeric = true) : t.wider? t = some t := by
  cases t with
  | integer k => exact congrArg some (if_pos le_rfl)
  | float k => cases k <;> rfl
  | _ => cases ht

theorem comparisonType?_self (t : DataType) : comparisonType? t t = some t := by
  cases t with
  | integer k => exact wider?_self (t := .integer k) rfl
  | float k => exact wider?_self (t := .float k) rfl
  | text e => cases e <;> rfl
  | bytes e => cases e <;> rfl
  | date k => cases k <;> rfl
  | duration k => cases k <;> rfl
  | null | boolean => rfl

theorem arithmeticType?_self {t : DataType} (ht : t.isNumeric = true) :
    arithmeticType? t t = some t := by
  cases t with
  | integer k => exact wider?_self ht
  | float k => exact wider?_self ht
  | _ => cases ht

theorem accumulatorType?_accumulator {fn : AggregateFn} {a t : DataType}
    (h : accumulatorType? fn a = some t) : accumulatorType? fn t = some t := by
  rcases accumulatorType?_eq_some h with rfl | rfl | ⟨rfl | rfl, rfl⟩ <;> rfl

end Casts

namespace Resolver

theorem position_eq (input : Resolver) (i : Nat) :
    input.position i = match input.schema with
      | none => .ok ("$" ++ toString i, .binary)
      | some s => match s[i]? with
        | some f => .ok (f.name, f.type)
        | none => .error (.planning (.positionOutOfRange i s.length)) := by
  cases input with
  | unknown => rfl
  | known parts =>
      simp only [position_known, schema, List.getElem?_map, List.length_map]
      cases (columns parts)[i]? <;> rfl

theorem position_congr {input input' : Resolver} (h : input'.schema = input.schema) (i : Nat) :
    input'.position i = input.position i := by
  rw [position_eq, position_eq, h]

theorem exists_position_of_resolve {name : String} {input : Resolver} {i : Nat} {t : DataType}
    (h : input.resolve name = .ok (i, t)) : ∃ found, input.position i = .ok (found, t) := by
  obtain ⟨s, f, hs, hf, rfl⟩ := getElem?_of_resolve h
  refine ⟨f.name, ?_⟩
  rw [position_eq, hs]
  dsimp only
  rw [hf]

end Resolver

namespace RelationScope

section Expressions

variable {input input' : Resolver}

theorem Analyzes.castTo {e e' : Expr} {a : DataType} (h : Analyzes input e e' a) (t : DataType) :
    Analyzes input (TypedExpr.castTo (e, a) t) (TypedExpr.castTo (e', a) t) t := by
  by_cases hat : a = t
  · subst hat
    rw [TypedExpr.castTo_self, TypedExpr.castTo_self]
    exact h
  · unfold TypedExpr.castTo
    rw [if_neg hat, if_neg hat]
    exact .cast t h

theorem Analyzes.again (hinput : input'.schema = input.schema) {e e' : Expr} {t : DataType}
    (h : Analyzes input e e' t) : Analyzes input' e' e' t := by
  induction h with
  | column hi =>
      obtain ⟨found, hfound⟩ := Resolver.exists_position_of_resolve hi
      exact .columnRef ((Resolver.position_congr hinput _).trans hfound)
  | position hi | columnRef hi =>
      exact .columnRef ((Resolver.position_congr hinput _).trans hi)
  | literal v => exact .literal v
  | placeholder p => exact .placeholder p
  | cast t _ ih => exact .cast t ih
  | junction j _ _ ihl ihr => exact .junction j ihl ihr
  | not _ ih => exact .not ih
  | @compare _ l' _ r' a b t c _ _ hul hur ht ihl ihr =>
      have hcast := Analyzes.compare c (ihl.castTo t) (ihr.castTo t)
        (isUntypedScalar_castTo hul a t) (isUntypedScalar_castTo hur b t) (comparisonType?_self t)
      rwa [TypedExpr.castTo_self, TypedExpr.castTo_self] at hcast
  | @arith _ l' _ r' a b t op _ _ hul hur ht ihl ihr =>
      have hcast := Analyzes.arith op (ihl.castTo t) (ihr.castTo t)
        (isUntypedScalar_castTo hul a t) (isUntypedScalar_castTo hur b t)
        (arithmeticType?_self (isNumeric_of_arithmeticType? ht))
      rwa [TypedExpr.castTo_self, TypedExpr.castTo_self] at hcast
  | @concat _ l' _ r' a b _ _ hul hur _ _ ihl ihr =>
      have hcast := Analyzes.concat (ihl.castTo .utf8) (ihr.castTo .utf8)
        (isUntypedScalar_castTo hul a .utf8) (isUntypedScalar_castTo hur b .utf8) rfl rfl
      rwa [TypedExpr.castTo_self, TypedExpr.castTo_self] at hcast

theorem AnalyzesAggregate.again (hinput : input'.schema = input.schema) {a a' : Aggregate}
    {t : DataType} (h : AnalyzesAggregate input a a' t) : AnalyzesAggregate input' a' a' t := by
  cases h with
  | count he => exact .count (he.again hinput)
  | @average e e' a t he hu =>
      -- The argument has two casts by now, to the accumulator of its type and to a double.
      have hdouble := AnalyzesAggregate.average (((he.again hinput).castTo t).castTo .float64)
        (a := .float64) (t := .float64) rfl
      rwa [TypedExpr.castTo_self, TypedExpr.castTo_self] at hdouble
  | @gather fn e e' a t hcount havg he hu =>
      have hgather := AnalyzesAggregate.gather hcount havg ((he.again hinput).castTo t)
        (accumulatorType?_accumulator hu)
      rwa [TypedExpr.castTo_self] at hgather

theorem AnalyzesKeys.again {left right left' right' : Resolver} (hleft : left'.schema = left.schema)
    (hright : right'.schema = right.schema) {k r : Expr × Expr} (h : AnalyzesKeys left right k r) :
    AnalyzesKeys left' right' r r := by
  obtain ⟨l', r', a, b, t, hl, hr, hul, hur, -, rfl⟩ := h
  refine ⟨_, _, t, t, t, (hl.again hleft).castTo t, (hr.again hright).castTo t,
    isUntypedScalar_castTo hul a t, isUntypedScalar_castTo hur b t, comparisonType?_self t, ?_⟩
  rw [TypedExpr.castTo_self, TypedExpr.castTo_self]

end Expressions

section Plans

/-- A plan as analysis leaves it, with its schema: the result for some plan over aliases whose
compiled plans are left by analysis as well. Without that condition on the aliases every plan would
be one, as the result for a reference to an alias that stands for it. -/
inductive Analyzed : Plan → RelationSchema → Prop
  | analyze {scope : RelationScope} {p q : Plan} {s : RelationSchema} :
    (∀ a q s, scope.compiled a = .ok q → scope.schema a = .ok s → Analyzed q s) →
      scope.analyze p = .ok (q, s) → Analyzed q s

/-- Every alias that can be read was analyzed, to the plan and the schema that it has. -/
def IsAnalyzed (scope : RelationScope) : Prop :=
  ∀ a q s, scope.compiled a = .ok q → scope.schema a = .ok s → Analyzed q s

theorem forall₂_fst_of_again {α β γ : Type} {R : α → β × γ → Prop} {R' : β → β × γ → Prop}
    (hR : ∀ a r, R a r → R' r.1 r) {items : List α} {results : List (β × γ)}
    (h : List.Forall₂ R items results) : List.Forall₂ R' (results.map (·.1)) results := by
  rw [List.forall₂_map_left_iff, List.forall₂_same]
  intro r hr
  obtain ⟨a, -, har⟩ := forall_right_of_forall₂ h r hr
  exact hR a r har

/-- An analyzed plan is analyzed to itself, if the plans of the aliases that it was made of are. -/
theorem AnalyzesPlan.again {scope scope' : RelationScope} {p p' : Plan} {columns : Resolver}
    (h : AnalyzesPlan scope p p' columns)
    (hcompiled : ∀ a q s, scope.compiled a = .ok q → scope.schema a = .ok s →
      ∃ columns', AnalyzesPlan scope' q q columns' ∧ columns'.schema = s) :
    ∃ columns', AnalyzesPlan scope' p' p' columns' ∧ columns'.schema = columns.schema := by
  induction h with
  | load source schema => exact ⟨_, .load source schema, rfl⟩
  | relation hq hs =>
      obtain ⟨columns', hcolumns, hschema⟩ := hcompiled _ _ _ hq hs
      exact ⟨columns', hcolumns, hschema.trans (Resolver.schema_ofRelation _ _).symm⟩
  | filter _ he ih =>
      obtain ⟨columns', hcolumns, hschema⟩ := ih
      exact ⟨columns', .filter hcolumns (he.again hschema), hschema⟩
  | split branch _ he ih =>
      obtain ⟨columns', hcolumns, hschema⟩ := ih
      exact ⟨columns', .split branch hcolumns (he.again hschema), hschema⟩
  | project _ hresults ih =>
      obtain ⟨columns', hcolumns, hschema⟩ := ih
      refine ⟨_, .project hcolumns (forall₂_fst_of_again (fun c r hr => ?_) hresults), rfl⟩
      obtain ⟨he, hname, hfield, hnullable⟩ := hr
      exact ⟨he.again hschema, rfl, hfield.trans hname.symm, hnullable⟩
  | aggregate _ hks hgs ih =>
      obtain ⟨columns', hcolumns, hschema⟩ := ih
      refine ⟨_, .aggregate hcolumns (forall₂_fst_of_again (fun k r hr => ?_) hks)
        (forall₂_fst_of_again (fun a r hr => ?_) hgs), rfl⟩
      · exact ⟨hr.1.again hschema, hr.2⟩
      · obtain ⟨hg, hname, hfield, hnullable⟩ := hr
        exact ⟨hg.again hschema, rfl, hfield.trans hname.symm, hnullable⟩
  | join _ _ hon ihl ihr =>
      obtain ⟨lcolumns, hl, hlschema⟩ := ihl
      obtain ⟨rcolumns, hr, hrschema⟩ := ihr
      refine ⟨_, .join hl hr (List.forall₂_same.mpr fun k hk => ?_), ?_⟩
      · obtain ⟨k₀, -, hkeys⟩ := forall_right_of_forall₂ hon k hk
        exact hkeys.again hlschema hrschema
      · rw [Resolver.schema_join, Resolver.schema_join, hlschema, hrschema]
  | limit count _ ih =>
      obtain ⟨columns', hcolumns, hschema⟩ := ih
      exact ⟨columns', .limit count hcolumns, hschema⟩
  | store target _ ih =>
      obtain ⟨columns', hcolumns, hschema⟩ := ih
      exact ⟨columns', .store target hcolumns, hschema⟩
  | sideInputs ids _ ih =>
      obtain ⟨columns', hcolumns, hschema⟩ := ih
      exact ⟨columns', .sideInputs ids hcolumns, hschema⟩

theorem Analyzed.again {q : Plan} {s : RelationSchema} (h : Analyzed q s)
    (scope' : RelationScope) :
    ∃ columns, AnalyzesPlan scope' q q columns ∧ columns.schema = s := by
  induction h with
  | analyze _ hq ih =>
      obtain ⟨columns, hplan, rfl⟩ := analyze_eq_ok.mp hq
      exact hplan.again ih

/-- The scope of a script without aliases. -/
def noAliases : RelationScope where
  compiled a := .error (.planning (.unknownAlias a))
  schema a := .error (.planning (.unknownAlias a))
  defines _ := false

theorem isAnalyzed_noAliases : noAliases.IsAnalyzed := by
  intro a q s hq
  cases hq

theorem analyzed_iff {q : Plan} {s : RelationSchema} :
    Analyzed q s ↔ ∀ scope : RelationScope, scope.analyze q = .ok (q, s) := by
  constructor
  · exact fun h scope => analyze_eq_ok.mpr (h.again scope)
  · intro h
    exact .analyze isAnalyzed_noAliases (h noAliases)

/-- What analysis gives it gives again, with the same schema, whatever the other aliases are by
then. -/
theorem analyze_idempotent {scope : RelationScope} (hscope : scope.IsAnalyzed) {p q : Plan}
    {s : RelationSchema} (h : scope.analyze p = .ok (q, s)) (scope' : RelationScope) :
    scope'.analyze q = .ok (q, s) :=
  analyzed_iff.mp (.analyze hscope h) scope'

theorem analyze_idempotent_orderTotals :
    ordersScope.IsAnalyzed ∧
      ordersScope.analyze orderTotals = .ok (analyzedOrderTotals, some orderTotalFields) ∧
      noAliases.analyze analyzedOrderTotals =
        .ok (analyzedOrderTotals, some orderTotalFields) := by
  have hscope : ordersScope.IsAnalyzed := by
    intro a q s hq hs
    obtain ⟨rfl, rfl⟩ := ordersScope_eq hq hs
    exact analyzed_iff.mpr fun _ => rfl
  exact ⟨hscope, analyze_orderTotals, analyze_idempotent hscope analyze_orderTotals _⟩

end Plans

end RelationScope

end RelScript
