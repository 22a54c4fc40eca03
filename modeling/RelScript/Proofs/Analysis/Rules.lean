import RelScript.Analysis.Basic
import RelScript.Proofs.Outcome

/-!
The rules of analysis. Expressions and plans are analyzed exactly as the rules say.
-/

namespace RelScript

theorem rejectUntypedScalar_eq_ok {op : BinaryOp} {l r : TypedExpr} :
    rejectUntypedScalar op l r = .ok () ↔
      l.1.isUntypedScalar = false ∧ r.1.isUntypedScalar = false := by
  unfold rejectUntypedScalar
  cases l.1.isUntypedScalar <;> cases r.1.isUntypedScalar <;> simp

theorem coerceComparison_eq_ok {l r : TypedExpr} {p : Expr × Expr} :
    coerceComparison l r = .ok p ↔
      ∃ t, comparisonType? l.2 r.2 = some t ∧ (l.castTo t, r.castTo t) = p := by
  unfold coerceComparison
  cases comparisonType? l.2 r.2 <;> simp

theorem coerceArithmetic_eq_ok {op : Arithmetic} {l r : TypedExpr} {p : Expr × Expr × DataType} :
    coerceArithmetic op l r = .ok p ↔
      ∃ t, arithmeticType? l.2 r.2 = some t ∧ (l.castTo t, r.castTo t, t) = p := by
  unfold coerceArithmetic
  cases arithmeticType? l.2 r.2 <;> simp

/-- A type whose values are taken as text by a concatenation. -/
def DataType.concatenates (t : DataType) : Bool := t.isText || t.isUntyped

theorem coerceConcat_eq_ok {l r : TypedExpr} {p : Expr × Expr} :
    coerceConcat l r = .ok p ↔
      l.2.concatenates = true ∧ r.2.concatenates = true ∧
        (l.castTo .utf8, r.castTo .utf8) = p := by
  unfold coerceConcat DataType.concatenates
  split
  · rename_i h
    rw [Bool.and_eq_true] at h
    simp [h]
  · rename_i h
    rw [Bool.and_eq_true] at h
    simp only [reduceCtorEq, false_iff]
    exact fun h' => h ⟨h'.1, h'.2.1⟩

theorem coerceArgument_eq_ok {fn : AggregateFn} {e r : TypedExpr} :
    coerceArgument fn e = .ok r ↔ ∃ t, accumulatorType? fn e.2 = some t ∧ (e.castTo t, t) = r := by
  unfold coerceArgument
  cases accumulatorType? fn e.2 <;> simp

namespace RelationScope

/-- An expression, what it becomes over an input, and its type. -/
inductive Analyzes (input : Resolver) : Expr → Expr → DataType → Prop
  | column {name : String} {i : Nat} {t : DataType} :
    input.resolve name = .ok (i, t) → Analyzes input (.column name) (.columnRef name i) t
  | position {i : Nat} {name : String} {t : DataType} :
    input.position i = .ok (name, t) → Analyzes input (.position i) (.columnRef name i) t
  | columnRef {name found : String} {i : Nat} {t : DataType} :
    input.position i = .ok (found, t) → Analyzes input (.columnRef name i) (.columnRef name i) t
  | literal (v : Literal) : Analyzes input (.literal v) (.literal v) v.type
  | placeholder (p : Placeholder) : Analyzes input (.placeholder p) (.placeholder p) p.type
  | cast {e e' : Expr} {s : DataType} (t : DataType) :
    Analyzes input e e' s → Analyzes input (.cast e t) (.cast e' t) t
  | junction {l l' r r' : Expr} (j : Junction) :
    Analyzes input l l' .boolean → Analyzes input r r' .boolean →
      Analyzes input (.junction j l r) (.junction j l' r') .boolean
  | not {e e' : Expr} :
    Analyzes input e e' .boolean → Analyzes input (.not e) (.not e') .boolean
  | compare {l l' r r' : Expr} {a b t : DataType} (c : Comparison) :
    Analyzes input l l' a → Analyzes input r r' b → l'.isUntypedScalar = false →
      r'.isUntypedScalar = false → comparisonType? a b = some t →
        Analyzes input (.binary l (.compare c) r)
          (.binary (TypedExpr.castTo (l', a) t) (.compare c) (TypedExpr.castTo (r', b) t)) .boolean
  | arith {l l' r r' : Expr} {a b t : DataType} (op : Arithmetic) :
    Analyzes input l l' a → Analyzes input r r' b → l'.isUntypedScalar = false →
      r'.isUntypedScalar = false → arithmeticType? a b = some t →
        Analyzes input (.binary l (.arith op) r)
          (.binary (TypedExpr.castTo (l', a) t) (.arith op) (TypedExpr.castTo (r', b) t)) t
  | concat {l l' r r' : Expr} {a b : DataType} :
    Analyzes input l l' a → Analyzes input r r' b → l'.isUntypedScalar = false →
      r'.isUntypedScalar = false → a.concatenates = true → b.concatenates = true →
        Analyzes input (.binary l .concat r)
          (.binary (TypedExpr.castTo (l', a) .utf8) .concat (TypedExpr.castTo (r', b) .utf8)) .utf8

theorem analyzes_of_analyzeExpr {scope : RelationScope} {input : Resolver} {e e' : Expr}
    {t : DataType} (h : scope.analyzeExpr input e = .ok (e', t)) : Analyzes input e e' t := by
  induction e generalizing e' t with
  | column name =>
      rw [analyzeExpr] at h
      split at h
      · rename_i i s hi
        cases h
        exact .column hi
      · split at h <;> cases h
  | position i =>
      obtain ⟨⟨name, s⟩, hi, h⟩ := bind_eq_ok.mp h
      cases h
      exact .position hi
  | columnRef name i =>
      obtain ⟨⟨found, s⟩, hi, h⟩ := bind_eq_ok.mp h
      cases h
      exact .columnRef hi
  | literal v =>
      cases h
      exact .literal v
  | cast e s ih =>
      obtain ⟨⟨e₁, s₁⟩, he, h⟩ := bind_eq_ok.mp h
      cases h
      exact .cast s (ih he)
  | junction j l r ihl ihr =>
      obtain ⟨⟨l', a⟩, hl, h⟩ := bind_eq_ok.mp h
      obtain ⟨⟨r', b⟩, hr, h⟩ := bind_eq_ok.mp h
      dsimp only at h
      split at h
      · rename_i hab
        cases h
        exact .junction j (hab.1 ▸ ihl hl) (hab.2 ▸ ihr hr)
      · cases h
  | not e ih =>
      obtain ⟨⟨e₁, s⟩, he, h⟩ := bind_eq_ok.mp h
      dsimp only at h
      split at h
      · rename_i hs
        cases h
        exact .not (hs ▸ ih he)
      · cases h
  | binary l op r ihl ihr =>
      obtain ⟨⟨l', a⟩, hl, h⟩ := bind_eq_ok.mp h
      obtain ⟨⟨r', b⟩, hr, h⟩ := bind_eq_ok.mp h
      -- Untyped scalars are refused before the operator is looked at.
      obtain ⟨⟨⟩, huntyped, h⟩ := bind_eq_ok.mp h
      obtain ⟨hul, hur⟩ := rejectUntypedScalar_eq_ok.mp huntyped
      cases op with
      | compare c =>
          obtain ⟨p, hp, h⟩ := bind_eq_ok.mp h
          obtain ⟨s, hs, rfl⟩ := coerceComparison_eq_ok.mp hp
          cases h
          exact .compare c (ihl hl) (ihr hr) hul hur hs
      | arith op =>
          obtain ⟨p, hp, h⟩ := bind_eq_ok.mp h
          obtain ⟨s, hs, rfl⟩ := coerceArithmetic_eq_ok.mp hp
          cases h
          exact .arith op (ihl hl) (ihr hr) hul hur hs
      | concat =>
          obtain ⟨p, hp, h⟩ := bind_eq_ok.mp h
          obtain ⟨ha, hb, rfl⟩ := coerceConcat_eq_ok.mp hp
          cases h
          exact .concat (ihl hl) (ihr hr) hul hur ha hb
  | placeholder p =>
      cases h
      exact .placeholder p
  | scalarRef aliasName field => cases h
  | relationRef aliasName => cases h

theorem Analyzes.analyzeExpr_eq_ok (scope : RelationScope) {input : Resolver} {e e' : Expr}
    {t : DataType} (h : Analyzes input e e' t) : scope.analyzeExpr input e = .ok (e', t) := by
  induction h with
  | column hi => rw [analyzeExpr, hi]
  | position hi => exact bind_eq_ok.mpr ⟨_, hi, rfl⟩
  | columnRef hi => exact bind_eq_ok.mpr ⟨_, hi, rfl⟩
  | literal v => rfl
  | placeholder p => rfl
  | cast t _ ih => exact bind_eq_ok.mpr ⟨_, ih, rfl⟩
  | junction j _ _ ihl ihr => exact bind_eq_ok.mpr ⟨_, ihl, bind_eq_ok.mpr ⟨_, ihr, rfl⟩⟩
  | not _ ih => exact bind_eq_ok.mpr ⟨_, ih, rfl⟩
  | compare c _ _ hul hur ht ihl ihr =>
      exact bind_eq_ok.mpr ⟨_, ihl, bind_eq_ok.mpr ⟨_, ihr, bind_eq_ok.mpr
        ⟨(), rejectUntypedScalar_eq_ok.mpr ⟨hul, hur⟩,
          bind_eq_ok.mpr ⟨_, coerceComparison_eq_ok.mpr ⟨_, ht, rfl⟩, rfl⟩⟩⟩⟩
  | arith op _ _ hul hur ht ihl ihr =>
      exact bind_eq_ok.mpr ⟨_, ihl, bind_eq_ok.mpr ⟨_, ihr, bind_eq_ok.mpr
        ⟨(), rejectUntypedScalar_eq_ok.mpr ⟨hul, hur⟩,
          bind_eq_ok.mpr ⟨_, coerceArithmetic_eq_ok.mpr ⟨_, ht, rfl⟩, rfl⟩⟩⟩⟩
  | concat _ _ hul hur ha hb ihl ihr =>
      exact bind_eq_ok.mpr ⟨_, ihl, bind_eq_ok.mpr ⟨_, ihr, bind_eq_ok.mpr
        ⟨(), rejectUntypedScalar_eq_ok.mpr ⟨hul, hur⟩,
          bind_eq_ok.mpr ⟨_, coerceConcat_eq_ok.mpr ⟨ha, hb, rfl⟩, rfl⟩⟩⟩⟩

theorem analyzeExpr_eq_ok {scope : RelationScope} {input : Resolver} {e e' : Expr}
    {t : DataType} : scope.analyzeExpr input e = .ok (e', t) ↔ Analyzes input e e' t :=
  ⟨analyzes_of_analyzeExpr, fun h => h.analyzeExpr_eq_ok scope⟩

theorem analyzeCondition_eq_ok {scope : RelationScope} {clause : Clause} {input : Resolver}
    {e e' : Expr} :
    scope.analyzeCondition clause input e = .ok e' ↔ Analyzes input e e' .boolean := by
  rw [analyzeCondition, bind_eq_ok]
  constructor
  · rintro ⟨⟨e₁, t⟩, he, h⟩
    dsimp only at h
    split at h
    · rename_i ht
      cases h
      exact ht ▸ analyzeExpr_eq_ok.mp he
    · cases h
  · exact fun h => ⟨_, analyzeExpr_eq_ok.mpr h, rfl⟩

/-- An aggregate, what it becomes over an input, and the type of its results. -/
inductive AnalyzesAggregate (input : Resolver) : Aggregate → Aggregate → DataType → Prop
  | count {e e' : Expr} {t : DataType} :
    Analyzes input e e' t → AnalyzesAggregate input ⟨.count, e⟩ ⟨.count, e'⟩ .int64
  | average {e e' : Expr} {a t : DataType} :
    Analyzes input e e' a → accumulatorType? .avg a = some t →
      AnalyzesAggregate input ⟨.avg, e⟩
        ⟨.avg, TypedExpr.castTo (TypedExpr.castTo (e', a) t, t) .float64⟩ .float64
  | gather {fn : AggregateFn} {e e' : Expr} {a t : DataType} :
    fn ≠ .count → fn ≠ .avg → Analyzes input e e' a → accumulatorType? fn a = some t →
      AnalyzesAggregate input ⟨fn, e⟩ ⟨fn, TypedExpr.castTo (e', a) t⟩ t

theorem analyzeAggregate_eq_ok {scope : RelationScope} {input : Resolver} {a a' : Aggregate}
    {t : DataType} :
    scope.analyzeAggregate input a = .ok (a', t) ↔ AnalyzesAggregate input a a' t := by
  obtain ⟨fn, e⟩ := a
  rw [analyzeAggregate, bind_eq_ok]
  constructor
  · rintro ⟨⟨e', s⟩, he, h⟩
    have hrule := analyzeExpr_eq_ok.mp he
    cases fn with
    | count =>
        cases h
        exact .count hrule
    | avg =>
        obtain ⟨r, hr, h⟩ := bind_eq_ok.mp h
        obtain ⟨u, hu, rfl⟩ := coerceArgument_eq_ok.mp hr
        cases h
        exact .average hrule hu
    | sum | min | max =>
        obtain ⟨r, hr, h⟩ := bind_eq_ok.mp h
        obtain ⟨u, hu, rfl⟩ := coerceArgument_eq_ok.mp hr
        cases h
        exact .gather (by decide) (by decide) hrule hu
  · rintro (⟨he⟩ | ⟨he, hu⟩ | ⟨hcount, havg, he, hu⟩)
    · exact ⟨_, analyzeExpr_eq_ok.mpr he, rfl⟩
    · exact ⟨_, analyzeExpr_eq_ok.mpr he,
        bind_eq_ok.mpr ⟨_, coerceArgument_eq_ok.mpr ⟨_, hu, rfl⟩, rfl⟩⟩
    · refine ⟨_, analyzeExpr_eq_ok.mpr he, ?_⟩
      cases fn with
      | count => exact absurd rfl hcount
      | avg => exact absurd rfl havg
      | sum | min | max =>
          exact bind_eq_ok.mpr ⟨_, coerceArgument_eq_ok.mpr ⟨_, hu, rfl⟩, rfl⟩

/-- An output column, what it becomes, and its field. -/
def AnalyzesColumn (input : Resolver) (c : Named Expr) (r : Named Expr × Field) : Prop :=
  Analyzes input c.value r.1.value r.2.type ∧ r.1.name = c.name ∧ r.2.name = c.name ∧
    r.2.nullable = true

/-- A grouping key, what it becomes, and its field. -/
def AnalyzesKey (input : Resolver) (k : Expr) (r : Expr × Field) : Prop :=
  Analyzes input k r.1 r.2.type ∧ r.2.name = r.1.groupName ∧ r.2.nullable = true

/-- A named aggregate, what it becomes, and its field. -/
def AnalyzesMeasure (input : Resolver) (a : Named Aggregate) (r : Named Aggregate × Field) :
    Prop :=
  AnalyzesAggregate input a.value r.1.value r.2.type ∧ r.1.name = a.name ∧ r.2.name = a.name ∧
    r.2.nullable = true

/-- A pair of join keys, and what it becomes. -/
def AnalyzesKeys (left right : Resolver) (k r : Expr × Expr) : Prop :=
  ∃ l' r' a b t, Analyzes left k.1 l' a ∧ Analyzes right k.2 r' b ∧
    l'.isUntypedScalar = false ∧ r'.isUntypedScalar = false ∧ comparisonType? a b = some t ∧
      r = (TypedExpr.castTo (l', a) t, TypedExpr.castTo (r', b) t)

theorem analyzeColumn_eq_ok {scope : RelationScope} {input : Resolver} {c : Named Expr}
    {r : Named Expr × Field} :
    scope.analyzeColumn input c = .ok r ↔ AnalyzesColumn input c r := by
  obtain ⟨⟨e, name⟩, ⟨fieldName, t, nullable⟩⟩ := r
  rw [analyzeColumn, bind_eq_ok]
  constructor
  · rintro ⟨⟨e', s⟩, he, h⟩
    cases h
    exact ⟨analyzeExpr_eq_ok.mp he, rfl, rfl, rfl⟩
  · rintro ⟨he, hname, hfield, hnullable⟩
    dsimp only at he hname hfield hnullable
    subst hname hfield hnullable
    exact ⟨_, analyzeExpr_eq_ok.mpr he, rfl⟩

theorem analyzeKey_eq_ok {scope : RelationScope} {input : Resolver} {k : Expr}
    {r : Expr × Field} : scope.analyzeKey input k = .ok r ↔ AnalyzesKey input k r := by
  obtain ⟨e, ⟨fieldName, t, nullable⟩⟩ := r
  rw [analyzeKey, bind_eq_ok]
  constructor
  · rintro ⟨⟨e', s⟩, he, h⟩
    cases h
    exact ⟨analyzeExpr_eq_ok.mp he, rfl, rfl⟩
  · rintro ⟨he, hname, hnullable⟩
    dsimp only at he hname hnullable
    subst hname hnullable
    exact ⟨_, analyzeExpr_eq_ok.mpr he, rfl⟩

theorem analyzeMeasure_eq_ok {scope : RelationScope} {input : Resolver} {a : Named Aggregate}
    {r : Named Aggregate × Field} :
    scope.analyzeMeasure input a = .ok r ↔ AnalyzesMeasure input a r := by
  obtain ⟨⟨g, name⟩, ⟨fieldName, t, nullable⟩⟩ := r
  rw [analyzeMeasure, bind_eq_ok]
  constructor
  · rintro ⟨⟨g', s⟩, hg, h⟩
    cases h
    exact ⟨analyzeAggregate_eq_ok.mp hg, rfl, rfl, rfl⟩
  · rintro ⟨hg, hname, hfield, hnullable⟩
    dsimp only at hg hname hfield hnullable
    subst hname hfield hnullable
    exact ⟨_, analyzeAggregate_eq_ok.mpr hg, rfl⟩

theorem analyzeKeys_eq_ok {scope : RelationScope} {left right : Resolver} {k r : Expr × Expr} :
    scope.analyzeKeys left right k = .ok r ↔ AnalyzesKeys left right k r := by
  rw [analyzeKeys, bind_eq_ok]
  constructor
  · rintro ⟨⟨l', a⟩, hl, h⟩
    obtain ⟨⟨r', b⟩, hr, h⟩ := bind_eq_ok.mp h
    obtain ⟨⟨⟩, huntyped, h⟩ := bind_eq_ok.mp h
    obtain ⟨hul, hur⟩ := rejectUntypedScalar_eq_ok.mp huntyped
    obtain ⟨t, ht, rfl⟩ := coerceComparison_eq_ok.mp h
    exact ⟨l', r', a, b, t, analyzeExpr_eq_ok.mp hl, analyzeExpr_eq_ok.mp hr, hul, hur, ht, rfl⟩
  · rintro ⟨l', r', a, b, t, hl, hr, hul, hur, ht, rfl⟩
    exact ⟨_, analyzeExpr_eq_ok.mpr hl, bind_eq_ok.mpr ⟨_, analyzeExpr_eq_ok.mpr hr,
      bind_eq_ok.mpr ⟨(), rejectUntypedScalar_eq_ok.mpr ⟨hul, hur⟩,
        coerceComparison_eq_ok.mpr ⟨t, ht, rfl⟩⟩⟩⟩

/-- The columns of a source. -/
def sourceColumns : RelationSchema → Resolver
  | some s => .anonymous s
  | none => .unknown

/-- A plan, what it becomes, and the columns that it offers. -/
inductive AnalyzesPlan (scope : RelationScope) : Plan → Plan → Resolver → Prop
  | load (source : String) (schema : RelationSchema) :
    AnalyzesPlan scope (.load source schema) (.load source schema) (sourceColumns schema)
  | relation {aliasName : String} {p : Plan} {schema : RelationSchema} :
    scope.compiled aliasName = .ok p → scope.schema aliasName = .ok schema →
      AnalyzesPlan scope (.relation aliasName) p (.ofRelation aliasName schema)
  | filter {p p' : Plan} {columns : Resolver} {e e' : Expr} :
    AnalyzesPlan scope p p' columns → Analyzes columns e e' .boolean →
      AnalyzesPlan scope (.filter e p) (.filter e' p') columns
  | split {p p' : Plan} {columns : Resolver} {e e' : Expr} (branch : String) :
    AnalyzesPlan scope p p' columns → Analyzes columns e e' .boolean →
      AnalyzesPlan scope (.split branch e p) (.split branch e' p') columns
  | project {p p' : Plan} {columns : Resolver} {outputs : List (Named Expr)}
    {results : List (Named Expr × Field)} :
    AnalyzesPlan scope p p' columns →
      List.Forall₂ (AnalyzesColumn columns) outputs results →
        AnalyzesPlan scope (.project outputs p) (.project (results.map (·.1)) p')
          (.anonymous (results.map (·.2)))
  | aggregate {p p' : Plan} {columns : Resolver} {keys : List Expr}
    {aggregates : List (Named Aggregate)} {ks : List (Expr × Field)}
    {gs : List (Named Aggregate × Field)} :
    AnalyzesPlan scope p p' columns → List.Forall₂ (AnalyzesKey columns) keys ks →
      List.Forall₂ (AnalyzesMeasure columns) aggregates gs →
        AnalyzesPlan scope (.aggregate keys aggregates p)
          (.aggregate (ks.map (·.1)) (gs.map (·.1)) p')
          (.anonymous (ks.map (·.2) ++ gs.map (·.2)))
  | join {l l' r r' : Plan} {lcolumns rcolumns : Resolver} {on on' : List (Expr × Expr)} :
    AnalyzesPlan scope l l' lcolumns → AnalyzesPlan scope r r' rcolumns →
      List.Forall₂ (AnalyzesKeys lcolumns rcolumns) on on' →
        AnalyzesPlan scope (.join l r on) (.join l' r' on') (lcolumns.join rcolumns)
  | limit {p p' : Plan} {columns : Resolver} (count : Nat) :
    AnalyzesPlan scope p p' columns →
      AnalyzesPlan scope (.limit count p) (.limit count p') columns
  | store {p p' : Plan} {columns : Resolver} (target : String) :
    AnalyzesPlan scope p p' columns →
      AnalyzesPlan scope (.store target p) (.store target p') columns
  | sideInputs {p p' : Plan} {columns : Resolver} (ids : List SideInputId) :
    AnalyzesPlan scope p p' columns →
      AnalyzesPlan scope (.sideInputs ids p) (.sideInputs ids p') columns

theorem mapM_eq_ok_of_iff {α β : Type} {f : α → Outcome β} {R : α → β → Prop}
    (hfR : ∀ {a b}, f a = .ok b ↔ R a b) {as : List α} {bs : List β} :
    as.mapM f = .ok bs ↔ List.Forall₂ R as bs := by
  rw [mapM_eq_ok]
  exact ⟨fun h => h.imp fun _ _ => hfR.mp, fun h => h.imp fun _ _ => hfR.mpr⟩

theorem analyzesPlan_of_analyzePlan {scope : RelationScope} {p p' : Plan} {columns : Resolver}
    (h : scope.analyzePlan p = .ok (p', columns)) : AnalyzesPlan scope p p' columns := by
  induction p generalizing p' columns with
  | load source schema =>
      cases h
      exact .load source schema
  | relation aliasName =>
      obtain ⟨plan, hplan, h⟩ := bind_eq_ok.mp h
      obtain ⟨schema, hschema, h⟩ := bind_eq_ok.mp h
      cases h
      exact .relation hplan hschema
  | project outputs input ih =>
      obtain ⟨⟨q, cs⟩, hinput, h⟩ := bind_eq_ok.mp h
      obtain ⟨results, hresults, h⟩ := bind_eq_ok.mp h
      cases h
      exact .project (ih hinput) ((mapM_eq_ok_of_iff analyzeColumn_eq_ok).mp hresults)
  | filter predicate input ih =>
      obtain ⟨⟨q, cs⟩, hinput, h⟩ := bind_eq_ok.mp h
      obtain ⟨e', he, h⟩ := bind_eq_ok.mp h
      cases h
      exact .filter (ih hinput) (analyzeCondition_eq_ok.mp he)
  | split branch predicate input ih =>
      obtain ⟨⟨q, cs⟩, hinput, h⟩ := bind_eq_ok.mp h
      obtain ⟨e', he, h⟩ := bind_eq_ok.mp h
      cases h
      exact .split branch (ih hinput) (analyzeCondition_eq_ok.mp he)
  | aggregate keys aggregates input ih =>
      obtain ⟨⟨q, cs⟩, hinput, h⟩ := bind_eq_ok.mp h
      obtain ⟨ks, hks, h⟩ := bind_eq_ok.mp h
      obtain ⟨gs, hgs, h⟩ := bind_eq_ok.mp h
      cases h
      exact .aggregate (ih hinput) ((mapM_eq_ok_of_iff analyzeKey_eq_ok).mp hks)
        ((mapM_eq_ok_of_iff analyzeMeasure_eq_ok).mp hgs)
  | join left right on ihl ihr =>
      obtain ⟨⟨l, lcs⟩, hl, h⟩ := bind_eq_ok.mp h
      obtain ⟨⟨r, rcs⟩, hr, h⟩ := bind_eq_ok.mp h
      obtain ⟨on', hon, h⟩ := bind_eq_ok.mp h
      cases h
      exact .join (ihl hl) (ihr hr) ((mapM_eq_ok_of_iff analyzeKeys_eq_ok).mp hon)
  | limit count input ih =>
      obtain ⟨⟨q, cs⟩, hinput, h⟩ := bind_eq_ok.mp h
      cases h
      exact .limit count (ih hinput)
  | store target input ih =>
      obtain ⟨⟨q, cs⟩, hinput, h⟩ := bind_eq_ok.mp h
      cases h
      exact .store target (ih hinput)
  | sideInputs ids input ih =>
      obtain ⟨⟨q, cs⟩, hinput, h⟩ := bind_eq_ok.mp h
      cases h
      exact .sideInputs ids (ih hinput)

theorem AnalyzesPlan.analyzePlan_eq_ok {scope : RelationScope} {p p' : Plan} {columns : Resolver}
    (h : AnalyzesPlan scope p p' columns) : scope.analyzePlan p = .ok (p', columns) := by
  induction h with
  | load source schema => cases schema <;> rfl
  | relation hplan hschema => exact bind_eq_ok.mpr ⟨_, hplan, bind_eq_ok.mpr ⟨_, hschema, rfl⟩⟩
  | filter _ he ih =>
      exact bind_eq_ok.mpr ⟨_, ih, bind_eq_ok.mpr ⟨_, analyzeCondition_eq_ok.mpr he, rfl⟩⟩
  | split branch _ he ih =>
      exact bind_eq_ok.mpr ⟨_, ih, bind_eq_ok.mpr ⟨_, analyzeCondition_eq_ok.mpr he, rfl⟩⟩
  | project _ hresults ih =>
      exact bind_eq_ok.mpr ⟨_, ih, bind_eq_ok.mpr
        ⟨_, (mapM_eq_ok_of_iff analyzeColumn_eq_ok).mpr hresults, rfl⟩⟩
  | aggregate _ hks hgs ih =>
      exact bind_eq_ok.mpr ⟨_, ih, bind_eq_ok.mpr
        ⟨_, (mapM_eq_ok_of_iff analyzeKey_eq_ok).mpr hks, bind_eq_ok.mpr
          ⟨_, (mapM_eq_ok_of_iff analyzeMeasure_eq_ok).mpr hgs, rfl⟩⟩⟩
  | join _ _ hon ihl ihr =>
      exact bind_eq_ok.mpr ⟨_, ihl, bind_eq_ok.mpr ⟨_, ihr, bind_eq_ok.mpr
        ⟨_, (mapM_eq_ok_of_iff analyzeKeys_eq_ok).mpr hon, rfl⟩⟩⟩
  | limit count _ ih => exact bind_eq_ok.mpr ⟨_, ih, rfl⟩
  | store target _ ih => exact bind_eq_ok.mpr ⟨_, ih, rfl⟩
  | sideInputs ids _ ih => exact bind_eq_ok.mpr ⟨_, ih, rfl⟩

theorem analyze_eq_ok {scope : RelationScope} {p p' : Plan} {schema : RelationSchema} :
    scope.analyze p = .ok (p', schema) ↔
      ∃ columns, AnalyzesPlan scope p p' columns ∧ columns.schema = schema := by
  rw [analyze, bind_eq_ok]
  constructor
  · rintro ⟨⟨q, columns⟩, hq, h⟩
    cases h
    exact ⟨columns, analyzesPlan_of_analyzePlan hq, rfl⟩
  · rintro ⟨columns, hq, rfl⟩
    exact ⟨_, hq.analyzePlan_eq_ok, rfl⟩

end RelationScope

end RelScript
