import RelScript.Proofs.Analysis.OutputSchema
import RelScript.Proofs.Execution.Alike
import RelScript.Proofs.Plan.Substitution

/-!
Queries that read the single row of another relation. A reference to a field of that row can be
written as a column of the join with the relation, behind the columns of the left side. Analysis
accepts both forms or neither, and what it makes of them differs in these references only.
-/

namespace RelScript

/-- A node over one input that treats the rows of the input one by one. -/
inductive RowQuery
  | project (columns : List (Named Expr))
  | filter (predicate : Expr)
  | split (branch : String) (predicate : Expr)

namespace RowQuery

/-- The query as a node over an input. -/
def node : RowQuery → Plan → Plan
  | project columns, input => .project columns input
  | filter predicate, input => .filter predicate input
  | split branch predicate, input => .split branch predicate input

/-- The expressions of a query. -/
def exprs : RowQuery → List Expr
  | project columns => columns.map (·.value)
  | filter predicate | split _ predicate => [predicate]

/-- The query with other expressions. -/
def mapExprs (f : Expr → Expr) : RowQuery → RowQuery
  | project columns => project (columns.map fun c => ⟨f c.value, c.name⟩)
  | filter predicate => filter (f predicate)
  | split branch predicate => split branch (f predicate)

@[simp] theorem exprs_node (q : RowQuery) (p : Plan) : (q.node p).exprs = q.exprs := by
  cases q <;> rfl

@[simp] theorem children_node (q : RowQuery) (p : Plan) : (q.node p).children = [p] := by
  cases q <;> rfl

@[simp] theorem exprs_mapExprs (f : Expr → Expr) (q : RowQuery) :
    (q.mapExprs f).exprs = q.exprs.map f := by
  cases q <;> simp [mapExprs, exprs, Function.comp_def]

theorem substitute_node (value : Placeholding) (q : RowQuery) (p : Plan) :
    (q.node p).substitute value =
      ((q.mapExprs (·.substitute value)).node (p.substitute value)).listed := by
  cases q <;> rfl

end RowQuery

/-- The place of the selected field among the fields of a scalar. -/
def FieldSelector.index (aliasName : String) (s : Schema) (field : FieldSelector) : Nat :=
  ((field.resolve aliasName (some s)).toOption.map (·.1)).getD 0

theorem FieldSelector.getElem?_of_resolve {aliasName : String} {s : Schema}
    {field : FieldSelector} {index : Nat} {type : DataType}
    (h : field.resolve aliasName (some s) = .ok (index, type)) :
    ∃ f, s[index]? = some f ∧ f.type = type := by
  have hfield : ∀ {i : Nat} {t : DataType}, RelationSchema.fieldType? (some s) i = some t →
      ∃ f, s[i]? = some f ∧ f.type = t := by
    intro i t ht
    exact Option.map_eq_some_iff.mp ht
  cases field with
  | name n =>
      rw [resolve] at h
      split at h
      · rename_i i hi
        obtain ⟨hlt, -⟩ := List.findIdx?_eq_some_iff_getElem.mp hi
        have htype := Resolver.fieldType?_of_getElem? (List.getElem?_eq_getElem hlt)
        rw [htype] at h
        cases h
        exact hfield htype
      · cases h
  | position p =>
      rw [resolve] at h
      split at h
      · rename_i t ht
        cases h
        exact hfield ht
      · cases h

namespace Expr

/-- The expression over a join: a reference to a scalar becomes a column of the right side, whose
columns begin at `width`. -/
def crossed (width : Nat) (s : Schema) (e : Expr) : Expr :=
  e.mapLeaves fun
    | scalarRef aliasName field => position (width + field.index aliasName s)
    | leaf => leaf

/-- An expression that reads columns before `width`, by position, and typed fields of one scalar of
a known schema. -/
inductive ReadsAcross (width : Nat) (scalar : String) (s : Schema) : Expr → Prop
  | position {i : Nat} : i < width → ReadsAcross width scalar s (.position i)
  | columnRef (name : String) {i : Nat} :
    i < width → ReadsAcross width scalar s (.columnRef name i)
  | scalarRef {field : FieldSelector} {index : Nat} {type : DataType} :
    field.resolve scalar (some s) = .ok (index, type) → type.isUntyped = false →
      ReadsAcross width scalar s (.scalarRef scalar field)
  | literal (v : Literal) : ReadsAcross width scalar s (.literal v)
  | binary {l r : Expr} (op : BinaryOp) : ReadsAcross width scalar s l →
    ReadsAcross width scalar s r → ReadsAcross width scalar s (.binary l op r)
  | cast {e : Expr} (t : DataType) :
    ReadsAcross width scalar s e → ReadsAcross width scalar s (.cast e t)
  | junction {l r : Expr} (j : Junction) : ReadsAcross width scalar s l →
    ReadsAcross width scalar s r → ReadsAcross width scalar s (.junction j l r)
  | not {e : Expr} : ReadsAcross width scalar s e → ReadsAcross width scalar s (.not e)

/-- Two analyzed expressions, over the left side of a join and over the whole join, that differ in
one thing: where the first one reads a field of a side input, the second one reads the column that
the right side has in the place of the field. -/
inductive Crosses (width : Nat) (scalar : String) (id : SideInputId) (s : Schema) :
    Expr → Expr → Prop
  | column (name name' : String) {i : Nat} :
    i < width → Crosses width scalar id s (.columnRef name i) (.columnRef name' i)
  | field (name : String) {i : Nat} {f : Field} :
    s[i]? = some f → f.type.isUntyped = false →
      Crosses width scalar id s (.placeholder ⟨id, scalar, i, f.type, true⟩)
        (.columnRef name (width + i))
  | literal (v : Literal) : Crosses width scalar id s (.literal v) (.literal v)
  | binary {l l' r r' : Expr} (op : BinaryOp) : Crosses width scalar id s l l' →
    Crosses width scalar id s r r' → Crosses width scalar id s (.binary l op r) (.binary l' op r')
  | cast {e e' : Expr} (t : DataType) :
    Crosses width scalar id s e e' → Crosses width scalar id s (.cast e t) (.cast e' t)
  | junction {l l' r r' : Expr} (j : Junction) : Crosses width scalar id s l l' →
    Crosses width scalar id s r r' → Crosses width scalar id s (.junction j l r) (.junction j l' r')
  | not {e e' : Expr} :
    Crosses width scalar id s e e' → Crosses width scalar id s (.not e) (.not e')

variable {width : Nat} {scalar : String} {id : SideInputId} {s : Schema}

theorem Crosses.castTo {e e' : Expr} (h : Crosses width scalar id s e e') (a t : DataType) :
    Crosses width scalar id s (TypedExpr.castTo (e, a) t) (TypedExpr.castTo (e', a) t) := by
  unfold TypedExpr.castTo
  split
  · exact h
  · exact .cast t h

theorem Crosses.isUntypedScalar {e e' : Expr} (h : Crosses width scalar id s e e') :
    e.isUntypedScalar = false ∧ e'.isUntypedScalar = false := by
  cases h <;> exact ⟨rfl, rfl⟩

theorem Crosses.sideInput {e e' : Expr} (h : Crosses width scalar id s e e') :
    (∀ p ∈ e.placeholders, p.aliasName = scalar ∧ p.sideInput = id) ∧ e'.placeholders = [] := by
  induction h with
  | binary op _ _ ihl ihr | junction j _ _ ihl ihr =>
      simp only [placeholders_binary, placeholders_junction, List.forall_mem_append, ihl.2, ihr.2]
      exact ⟨⟨ihl.1, ihr.1⟩, rfl⟩
  | cast t _ ih => simpa only [placeholders_cast] using ih
  | not _ ih => simpa only [placeholders_not] using ih
  | field name _ _ => exact ⟨List.forall_mem_singleton.mpr ⟨rfl, rfl⟩, rfl⟩
  | column | literal => exact ⟨List.forall_mem_nil _, rfl⟩

/-- A part that such expressions have: no tuple and no placeholder, and as a scalar reference one to
a field of the scalar. -/
def IsAcross (scalar : String) (s : Schema) : Expr → Prop
  | relationRef _ | placeholder _ => False
  | scalarRef aliasName field =>
    aliasName = scalar ∧ ∃ found, field.resolve scalar (some s) = .ok found
  | _ => True

theorem ReadsAcross.parts {e : Expr} (h : e.ReadsAcross width scalar s) :
    ∀ x ∈ e.parts, x.IsAcross scalar s := by
  induction h with
  | binary op _ _ ihl ihr | junction j _ _ ihl ihr =>
      exact List.forall_mem_cons.mpr ⟨trivial, List.forall_mem_append.mpr ⟨ihl, ihr⟩⟩
  | cast t _ ih | not _ ih => exact List.forall_mem_cons.mpr ⟨trivial, ih⟩
  | scalarRef hfield _ => exact List.forall_mem_singleton.mpr ⟨rfl, _, hfield⟩
  | position | columnRef | literal => exact List.forall_mem_singleton.mpr trivial

theorem ReadsAcross.scalarRefs {e : Expr} (h : e.ReadsAcross width scalar s) :
    ∀ ref ∈ e.scalarRefs, ref.1 = scalar ∧ ∃ found,
      ref.2.resolve scalar (some s) = .ok found :=
  fun _ href => h.parts _ (mem_scalarRefs.mp href)

theorem substitute_crossed (value : Placeholding) (e : Expr) :
    (e.crossed width s).substitute value = e.crossed width s := by
  unfold crossed substitute
  induction e with
  | binary l op r ihl ihr | junction j l r ihl ihr => simp only [mapLeaves, ihl, ihr]
  | cast e t ih | not e ih => simp only [mapLeaves, ih]
  | _ => rfl

theorem ReadsAcross.crossed {e : Expr} (h : e.ReadsAcross width scalar s) :
    (e.crossed width s).placeholders = [] ∧ (e.crossed width s).scalarRefs = [] ∧
      ∀ x ∈ (e.crossed width s).parts, x.IsAcross scalar s := by
  unfold Expr.crossed Expr.scalarRefs
  induction h with
  | binary op _ _ ihl ihr | junction j _ _ ihl ihr =>
      simp only [mapLeaves, placeholders_binary, placeholders_junction, ihl.1, ihr.1, Expr.parts,
        List.filterMap_cons, List.filterMap_append, ihl.2.1, ihr.2.1]
      refine ⟨rfl, rfl, ?_⟩
      exact List.forall_mem_cons.mpr ⟨trivial, List.forall_mem_append.mpr ⟨ihl.2.2, ihr.2.2⟩⟩
  | cast t _ ih | not _ ih =>
      simp only [mapLeaves, placeholders_cast, placeholders_not, ih.1, Expr.parts,
        List.filterMap_cons, ih.2.1]
      exact ⟨trivial, rfl, List.forall_mem_cons.mpr ⟨trivial, ih.2.2⟩⟩
  | position | columnRef | literal | scalarRef =>
      exact ⟨rfl, rfl, List.forall_mem_singleton.mpr trivial⟩

end Expr

/-- Two analyzed queries, over the left side of a join and over the whole join, of which the
expressions differ as `Expr.Crosses` says. -/
inductive RowQuery.Crosses (width : Nat) (scalar : String) (id : SideInputId) (s : Schema) :
    RowQuery → RowQuery → Prop
  | project {columns columns' : List (Named Expr)} :
    List.Forall₂ (fun o o' => Expr.Crosses width scalar id s o.value o'.value ∧ o'.name = o.name)
      columns columns' → Crosses width scalar id s (.project columns) (.project columns')
  | filter {predicate predicate' : Expr} : Expr.Crosses width scalar id s predicate predicate' →
    Crosses width scalar id s (.filter predicate) (.filter predicate')
  | split (branch : String) {predicate predicate' : Expr} :
    Expr.Crosses width scalar id s predicate predicate' →
      Crosses width scalar id s (.split branch predicate) (.split branch predicate')

theorem RowQuery.Crosses.sideInput {width : Nat} {scalar : String} {id : SideInputId} {s : Schema}
    {q q' : RowQuery} (h : RowQuery.Crosses width scalar id s q q') :
    ∀ e ∈ q.exprs, ∀ p ∈ e.placeholders, p.aliasName = scalar ∧ p.sideInput = id := by
  cases h with
  | project hcolumns =>
      refine List.forall_mem_map.mpr fun o ho => ?_
      obtain ⟨o', -, hcrosses, -⟩ := forall_right_of_forall₂ hcolumns.flip o ho
      exact hcrosses.sideInput.1
  | filter he | split _ he => exact List.forall_mem_singleton.mpr he.sideInput.1

namespace Resolver

theorem position_left {l r : InputPart} {i : Nat} (hi : i < l.fields.length) :
    ∃ name t, (known [l]).position i = .ok (name, t) ∧
      (known [l, r]).position i = .ok (name, t) := by
  have hcolumn : l.fields[i]? = some l.fields[i] := List.getElem?_eq_getElem hi
  refine ⟨l.fields[i].name, l.fields[i].type, ?_, ?_⟩
  · simp [position_known, columns, hcolumn]
  · simp [position_known, columns, List.getElem?_append_left, hi]

theorem position_right {l r : InputPart} {i : Nat} {f : Field} (hf : r.fields[i]? = some f) :
    (known [l, r]).position (l.fields.length + i) = .ok (f.name, f.type) := by
  simp [position_known, columns, List.getElem?_append_right, hf]

end Resolver

namespace RelationScope

variable {scope scope' : RelationScope} {a c : String} {sa sc : Schema} {id : SideInputId}
  {value : Placeholding}

/-- The placeholders of a scalar that is bound to a side input. -/
def BindsTo (c : String) (sc : Schema) (id : SideInputId) (value : Placeholding) : Prop :=
  ∀ field index type, field.resolve c (some sc) = .ok (index, type) →
    value c field = ⟨id, c, index, type, !type.isUntyped⟩

section Coercions

variable {width : Nat} {l l' r r' : Expr} (hl : Expr.Crosses width c id sc l l')
  (hr : Expr.Crosses width c id sc r r')

include hl hr

theorem coerceComparison_crossed (u v : DataType) :
    Alike (fun p p' => Expr.Crosses width c id sc p.1 p'.1 ∧ Expr.Crosses width c id sc p.2 p'.2)
      (coerceComparison (l, u) (r, v)) (coerceComparison (l', u) (r', v)) := by
  unfold coerceComparison
  cases comparisonType? u v with
  | none => trivial
  | some t => exact ⟨hl.castTo u t, hr.castTo v t⟩

theorem coerceArithmetic_crossed (op : Arithmetic) (u v : DataType) :
    Alike (fun p p' => p.2.2 = p'.2.2 ∧ Expr.Crosses width c id sc p.1 p'.1 ∧
        Expr.Crosses width c id sc p.2.1 p'.2.1)
      (coerceArithmetic op (l, u) (r, v)) (coerceArithmetic op (l', u) (r', v)) := by
  unfold coerceArithmetic
  cases arithmeticType? u v with
  | none => trivial
  | some t => exact ⟨rfl, hl.castTo u t, hr.castTo v t⟩

theorem coerceConcat_crossed (u v : DataType) :
    Alike (fun p p' => Expr.Crosses width c id sc p.1 p'.1 ∧ Expr.Crosses width c id sc p.2 p'.2)
      (coerceConcat (l, u) (r, v)) (coerceConcat (l', u) (r', v)) := by
  unfold coerceConcat
  dsimp only
  split
  · exact ⟨hl.castTo u .utf8, hr.castTo v .utf8⟩
  · trivial

end Coercions

theorem analyzeExpr_crossed (hvalue : BindsTo c sc id value) {e : Expr}
    (h : e.ReadsAcross sa.length c sc) :
    Alike (fun r r' => r.2 = r'.2 ∧ Expr.Crosses sa.length c id sc r.1 r'.1)
      (scope.analyzeExpr (.known [⟨a, sa⟩]) (e.substitute value))
      (scope'.analyzeExpr (.known [⟨a, sa⟩, ⟨c, sc⟩]) (e.crossed sa.length sc)) := by
  induction h with
  | position hi =>
      obtain ⟨name, t, hleft, hjoined⟩ := Resolver.position_left (l := ⟨a, sa⟩) (r := ⟨c, sc⟩) hi
      show Alike _ (scope.analyzeExpr _ (.position _)) (scope'.analyzeExpr _ (.position _))
      rw [analyzeExpr, analyzeExpr, hleft, hjoined]
      exact ⟨rfl, .column name name hi⟩
  | columnRef name hi =>
      obtain ⟨found, t, hleft, hjoined⟩ := Resolver.position_left (l := ⟨a, sa⟩) (r := ⟨c, sc⟩) hi
      show Alike _ (scope.analyzeExpr _ (.columnRef _ _)) (scope'.analyzeExpr _ (.columnRef _ _))
      rw [analyzeExpr, analyzeExpr, hleft, hjoined]
      exact ⟨rfl, .column name name hi⟩
  | @scalarRef field index type hfield htyped =>
      obtain ⟨f, hf, rfl⟩ := FieldSelector.getElem?_of_resolve hfield
      have hindex : field.index c sc = index := by
        rw [FieldSelector.index, hfield]
        rfl
      show Alike _ (scope.analyzeExpr _ (.placeholder (value c field)))
        (scope'.analyzeExpr _ (.position (sa.length + field.index c sc)))
      rw [hvalue field index f.type hfield, htyped, hindex, analyzeExpr, analyzeExpr,
        Resolver.position_right (l := ⟨a, sa⟩) hf]
      exact ⟨rfl, .field f.name hf htyped⟩
  | literal v => exact ⟨rfl, .literal v⟩
  | cast t _ ih =>
      refine ih.bind fun r r' hr => ?_
      exact ⟨rfl, .cast t hr.2⟩
  | not _ ih =>
      refine ih.bind fun r r' hr => ?_
      obtain ⟨r, u⟩ := r
      obtain ⟨r', u'⟩ := r'
      obtain ⟨rfl, hr⟩ := hr
      dsimp only
      split
      · exact ⟨rfl, .not hr⟩
      · trivial
  | junction j _ _ ihl ihr =>
      refine ihl.bind fun l l' hl => ihr.bind fun r r' hr => ?_
      obtain ⟨l, u⟩ := l
      obtain ⟨l', u'⟩ := l'
      obtain ⟨r, v⟩ := r
      obtain ⟨r', v'⟩ := r'
      obtain ⟨rfl, hl⟩ := hl
      obtain ⟨rfl, hr⟩ := hr
      dsimp only
      split
      · exact ⟨rfl, .junction j hl hr⟩
      · trivial
  | binary op _ _ ihl ihr =>
      refine ihl.bind fun l l' hl => ihr.bind fun r r' hr => ?_
      obtain ⟨l, u⟩ := l
      obtain ⟨l', u'⟩ := l'
      obtain ⟨r, v⟩ := r
      obtain ⟨r', v'⟩ := r'
      obtain ⟨rfl, hl⟩ := hl
      obtain ⟨rfl, hr⟩ := hr
      -- A field of a known schema has a type, so no operand is refused as an untyped scalar.
      rw [rejectUntypedScalar_eq_ok.mpr ⟨hl.isUntypedScalar.1, hr.isUntypedScalar.1⟩,
        rejectUntypedScalar_eq_ok.mpr ⟨hl.isUntypedScalar.2, hr.isUntypedScalar.2⟩]
      cases op with
      | compare op =>
          exact (coerceComparison_crossed hl hr u v).bind fun p p' hp =>
            ⟨rfl, .binary _ hp.1 hp.2⟩
      | arith op =>
          exact (coerceArithmetic_crossed hl hr op u v).bind fun p p' hp =>
            ⟨hp.1, .binary _ hp.2.1 hp.2.2⟩
      | concat =>
          exact (coerceConcat_crossed hl hr u v).bind fun p p' hp => ⟨rfl, .binary _ hp.1 hp.2⟩

/-- A query over an input, analyzed, with the columns that it offers. -/
def analyzeQuery (scope : RelationScope) (columns : Resolver) :
    RowQuery → Outcome (RowQuery × Resolver)
  | .project outputs => do
    let outputs ← outputs.mapM (scope.analyzeColumn columns)
    return (.project (outputs.map (·.1)), Resolver.anonymous (outputs.map (·.2)))
  | .filter predicate => do
    return (.filter (← scope.analyzeCondition .filter columns predicate), columns)
  | .split branch predicate => do
    return (.split branch (← scope.analyzeCondition .split columns predicate), columns)

theorem analyzePlan_node (q : RowQuery) (p : Plan) :
    scope.analyzePlan (q.node p) = (do
      let (p, columns) ← scope.analyzePlan p
      let (q, columns) ← scope.analyzeQuery columns q
      return (q.node p, columns)) := by
  cases q with
  | project outputs =>
      rw [RowQuery.node, analyzePlan]
      cases scope.analyzePlan p with
      | error e => rfl
      | ok r =>
          obtain ⟨p, columns⟩ := r
          show (outputs.mapM (scope.analyzeColumn columns) >>= _) =
            ((outputs.mapM (scope.analyzeColumn columns) >>= _) >>= _)
          cases outputs.mapM (scope.analyzeColumn columns) <;> rfl
  | filter predicate =>
      rw [RowQuery.node, analyzePlan]
      cases scope.analyzePlan p with
      | error e => rfl
      | ok r =>
          obtain ⟨p, columns⟩ := r
          show (scope.analyzeCondition .filter columns predicate >>= _) =
            ((scope.analyzeCondition .filter columns predicate >>= _) >>= _)
          cases scope.analyzeCondition .filter columns predicate <;> rfl
  | split branch predicate =>
      rw [RowQuery.node, analyzePlan]
      cases scope.analyzePlan p with
      | error e => rfl
      | ok r =>
          obtain ⟨p, columns⟩ := r
          show (scope.analyzeCondition .split columns predicate >>= _) =
            ((scope.analyzeCondition .split columns predicate >>= _) >>= _)
          cases scope.analyzeCondition .split columns predicate <;> rfl

theorem analyzePlan_wrap (node : Plan) (used : List SideInputId) :
    scope.analyzePlan (ScalarScope.wrap node used) =
      (scope.analyzePlan node).map fun r => (ScalarScope.wrap r.1 used, r.2) := by
  cases used with
  | nil =>
      show scope.analyzePlan node = _
      cases scope.analyzePlan node <;> rfl
  | cons id used =>
      show scope.analyzePlan (.sideInputs _ node) = _
      rw [analyzePlan]
      cases scope.analyzePlan node <;> rfl

/-- A query with scalar references over a relation, and the same query over the join, are both
accepted or both refused. -/
theorem analyzeQuery_crossed (scope scope' : RelationScope) (hvalue : BindsTo c sc id value)
    {q : RowQuery}
    (h : ∀ e ∈ q.exprs, e.ReadsAcross sa.length c sc) :
    Alike (fun r r' => RowQuery.Crosses sa.length c id sc r.1 r'.1)
      (scope.analyzeQuery (.known [⟨a, sa⟩]) (q.mapExprs (·.substitute value)))
      (scope'.analyzeQuery (.known [⟨a, sa⟩, ⟨c, sc⟩])
        (q.mapExprs (·.crossed sa.length sc))) := by
  have hcondition : ∀ (clause : Clause) (e : Expr), e.ReadsAcross sa.length c sc →
      Alike (Expr.Crosses sa.length c id sc)
        (scope.analyzeCondition clause (.known [⟨a, sa⟩]) (e.substitute value))
        (scope'.analyzeCondition clause (.known [⟨a, sa⟩, ⟨c, sc⟩])
          (e.crossed sa.length sc)) := by
    intro clause e he
    refine (analyzeExpr_crossed hvalue he).bind fun r r' hr => ?_
    obtain ⟨r, t⟩ := r
    obtain ⟨r', t'⟩ := r'
    obtain ⟨rfl, hr⟩ := hr
    dsimp only
    split
    · exact hr
    · trivial
  cases q with
  | project columns =>
      have hcolumns : Alike (List.Forall₂ fun (r r' : Named Expr × Field) =>
            Expr.Crosses sa.length c id sc r.1.value r'.1.value ∧ r'.1.name = r.1.name)
          (columns.mapM fun o => scope.analyzeColumn (.known [⟨a, sa⟩])
            ⟨o.value.substitute value, o.name⟩)
          (columns.mapM fun o => scope'.analyzeColumn (.known [⟨a, sa⟩, ⟨c, sc⟩])
            ⟨o.value.crossed sa.length sc, o.name⟩) := by
        refine Alike.mapM fun o ho => ?_
        refine (analyzeExpr_crossed hvalue (h _ (List.mem_map_of_mem ho))).bind fun r r' hr => ?_
        exact ⟨hr.2, rfl⟩
      rw [RowQuery.mapExprs, RowQuery.mapExprs, analyzeQuery, analyzeQuery, List.mapM_map,
        List.mapM_map]
      refine hcolumns.bind fun rs rs' hrs => ?_
      refine .project ?_
      rw [List.forall₂_map_left_iff, List.forall₂_map_right_iff]
      exact hrs
  | filter predicate =>
      exact (hcondition .filter predicate (h _ (List.mem_singleton.mpr rfl))).bind
        fun r r' hr => .filter hr
  | split branch predicate =>
      exact (hcondition .split predicate (h _ (List.mem_singleton.mpr rfl))).bind
        fun r r' hr => .split branch hr

theorem analyze_over_relation (value : Placeholding) (q : RowQuery) {p : Plan}
    (hp : scope.compiled a = .ok p) (hs : scope.schema a = .ok (some sa)) :
    scope.analyze ((q.node (.relation a)).substitute value) =
      (scope.analyzeQuery (.known [⟨a, sa⟩]) (q.mapExprs (·.substitute value))).map fun r =>
        (ScalarScope.wrap (r.1.node p)
          ((q.mapExprs (·.substitute value)).node (.relation a)).reads, r.2.schema) := by
  have hrelation : scope.analyzePlan (.relation a) = .ok (p, .known [⟨a, sa⟩]) := by
    rw [analyzePlan, hp, hs]
    rfl
  rw [RowQuery.substitute_node]
  show scope.analyze ((q.mapExprs (·.substitute value)).node (.relation a)).listed = _
  rw [analyze, Plan.listed, analyzePlan_wrap, analyzePlan_node, hrelation]
  dsimp only [Bind.bind, Except.bind]
  cases scope.analyzeQuery (.known [⟨a, sa⟩]) (q.mapExprs (·.substitute value)) <;> rfl

theorem analyze_over_join (value : Placeholding) {q : RowQuery} {p p' : Plan}
    (h : ∀ e ∈ q.exprs, e.ReadsAcross sa.length c sc)
    (hp : scope.compiled a = .ok p) (hs : scope.schema a = .ok (some sa))
    (hp' : scope.compiled c = .ok p') (hs' : scope.schema c = .ok (some sc)) :
    scope.analyze (((q.mapExprs (·.crossed sa.length sc)).node
        (.join (.relation a) (.relation c) [])).substitute value) =
      (scope.analyzeQuery (.known [⟨a, sa⟩, ⟨c, sc⟩])
        (q.mapExprs (·.crossed sa.length sc))).map fun r =>
          (r.1.node (.join p p' []), r.2.schema) := by
  have hjoin : scope.analyzePlan (.join (.relation a) (.relation c) []) =
      .ok (.join p p' [], .known [⟨a, sa⟩, ⟨c, sc⟩]) := by
    rw [analyzePlan, analyzePlan, analyzePlan, hp, hs, hp', hs']
    rfl
  have hsame : (q.mapExprs (·.crossed sa.length sc)).mapExprs (·.substitute value) =
      q.mapExprs (·.crossed sa.length sc) := by
    cases q <;> simp [RowQuery.mapExprs, Function.comp_def, Expr.substitute_crossed]
  have hreads : ((q.mapExprs (·.crossed sa.length sc)).node
      (.join (.relation a) (.relation c) [])).reads = [] := by
    rw [Plan.reads, RowQuery.exprs_node, RowQuery.exprs_mapExprs, List.map_eq_nil_iff,
      List.flatMap_eq_nil_iff, List.forall_mem_map]
    exact fun e he => (h e he).crossed.1
  rw [RowQuery.substitute_node, hsame]
  show scope.analyze ((q.mapExprs (·.crossed sa.length sc)).node
    (.join (.relation a) (.relation c) [])).listed = _
  rw [analyze, Plan.listed, hreads, analyzePlan_wrap, analyzePlan_node, hjoin]
  dsimp only [Bind.bind, Except.bind]
  cases scope.analyzeQuery (.known [⟨a, sa⟩, ⟨c, sc⟩])
    (q.mapExprs (·.crossed sa.length sc)) <;> rfl

end RelationScope

end RelScript
