import RelScript.Analysis.Coercion
import RelScript.Analysis.Resolver
import RelScript.Plan.Basic

/-!
Analysis of plans whose scalar references are bound. Relation nodes are replaced by the compiled
plans of their aliases, column references become positions, types are checked and implicit casts
written out. The result is the analyzed plan together with the columns that it offers to the node
above.
-/

namespace RelScript

/-- What analysis needs to know of the other aliases: their compiled plans, their schemas, and which
names are aliases at all. -/
structure RelationScope where
  compiled : String → Outcome Plan
  schema : String → Outcome RelationSchema
  defines : String → Bool

namespace RelationScope

variable (scope : RelationScope)

/-- An expression over an input, analyzed. -/
def analyzeExpr (input : Resolver) : Expr → Outcome TypedExpr
  | .column name =>
    match input.resolve name with
    | .ok (i, t) => .ok (.columnRef name i, t)
    | .error e =>
      if scope.defines name then .error (.resolution (.projectionOnly name)) else .error e
  | .position i => do
    let (name, t) ← input.position i
    return (.columnRef name i, t)
  | .columnRef name i => do
    let (_, t) ← input.position i
    return (.columnRef name i, t)
  | .literal v => return (.literal v, v.type)
  | .cast e t => do
    let (e, _) ← analyzeExpr input e
    return (.cast e t, t)
  | .junction j l r => do
    let (l, lt) ← analyzeExpr input l
    let (r, rt) ← analyzeExpr input r
    if lt = .boolean ∧ rt = .boolean then return (.junction j l r, .boolean)
    else throw (.typeCheck (.junction j))
  | .not e => do
    let (e, t) ← analyzeExpr input e
    if t = .boolean then return (.not e, .boolean) else throw (.typeCheck .negation)
  | .binary l op r => do
    let l ← analyzeExpr input l
    let r ← analyzeExpr input r
    rejectUntypedScalar op l r
    match op with
    | .compare _ =>
      let (l, r) ← coerceComparison l r
      return (.binary l op r, .boolean)
    | .arith a =>
      let (l, r, t) ← coerceArithmetic a l r
      return (.binary l op r, t)
    | .concat =>
      let (l, r) ← coerceConcat l r
      return (.binary l op r, .utf8)
  | .placeholder p => return (.placeholder p, p.type)
  | .scalarRef aliasName field => throw (.planning (.scalarInAnalysis aliasName field))
  | .relationRef aliasName => throw (.resolution (.projectionOnly aliasName))

/-- The condition of a clause, analyzed. -/
def analyzeCondition (clause : Clause) (input : Resolver) (e : Expr) : Outcome Expr := do
  let (e, t) ← scope.analyzeExpr input e
  if t = .boolean then return e else throw (.typeCheck (.condition clause t))

/-- An aggregate over an input, analyzed. An average is taken of doubles. -/
def analyzeAggregate (input : Resolver) (a : Aggregate) : Outcome (Aggregate × DataType) := do
  let e ← scope.analyzeExpr input a.arg
  match a.fn with
  | .count => return (⟨.count, e.1⟩, .int64)
  | .avg =>
    let e ← coerceArgument .avg e
    return (⟨.avg, e.castTo .float64⟩, .float64)
  | fn =>
    let e ← coerceArgument fn e
    return (⟨fn, e.1⟩, e.2)

/-- A pair of join keys, each over its own side, in a common type. -/
def analyzeKeys (left right : Resolver) (k : Expr × Expr) : Outcome (Expr × Expr) := do
  let l ← scope.analyzeExpr left k.1
  let r ← scope.analyzeExpr right k.2
  rejectUntypedScalar (.compare .eq) l r
  coerceComparison l r

/-- An output column, analyzed, with its field. -/
def analyzeColumn (input : Resolver) (c : Named Expr) : Outcome (Named Expr × Field) := do
  let (e, t) ← scope.analyzeExpr input c.value
  return (⟨e, c.name⟩, ⟨c.name, t, true⟩)

/-- A grouping key, analyzed, with its field. -/
def analyzeKey (input : Resolver) (k : Expr) : Outcome (Expr × Field) := do
  let (e, t) ← scope.analyzeExpr input k
  return (e, ⟨e.groupName, t, true⟩)

/-- A named aggregate, analyzed, with its field. -/
def analyzeMeasure (input : Resolver) (a : Named Aggregate) :
    Outcome (Named Aggregate × Field) := do
  let (g, t) ← scope.analyzeAggregate input a.value
  return (⟨g, a.name⟩, ⟨a.name, t, true⟩)

/-- A plan, analyzed, with the columns that it offers. -/
def analyzePlan : Plan → Outcome (Plan × Resolver)
  | .load source schema =>
    let columns := match schema with
      | some s => Resolver.anonymous s
      | none => .unknown
    return (.load source schema, columns)
  | .relation aliasName => do
    let plan ← scope.compiled aliasName
    let schema ← scope.schema aliasName
    return (plan, Resolver.ofRelation aliasName schema)
  | .filter predicate input => do
    let (input, columns) ← analyzePlan input
    return (.filter (← scope.analyzeCondition .filter columns predicate) input, columns)
  | .split branch predicate input => do
    let (input, columns) ← analyzePlan input
    return (.split branch (← scope.analyzeCondition .split columns predicate) input, columns)
  | .project outputs input => do
    let (input, columns) ← analyzePlan input
    let outputs ← outputs.mapM (scope.analyzeColumn columns)
    return (.project (outputs.map (·.1)) input, Resolver.anonymous (outputs.map (·.2)))
  | .aggregate keys aggregates input => do
    let (input, columns) ← analyzePlan input
    let keys ← keys.mapM (scope.analyzeKey columns)
    let aggregates ← aggregates.mapM (scope.analyzeMeasure columns)
    return (.aggregate (keys.map (·.1)) (aggregates.map (·.1)) input,
      Resolver.anonymous (keys.map (·.2) ++ aggregates.map (·.2)))
  | .join left right on => do
    let (left, lcolumns) ← analyzePlan left
    let (right, rcolumns) ← analyzePlan right
    let on ← on.mapM (scope.analyzeKeys lcolumns rcolumns)
    return (.join left right on, lcolumns.join rcolumns)
  | .limit count input => do
    let (input, columns) ← analyzePlan input
    return (.limit count input, columns)
  | .store target input => do
    let (input, columns) ← analyzePlan input
    return (.store target input, columns)
  | .sideInputs ids input => do
    let (input, columns) ← analyzePlan input
    return (.sideInputs ids input, columns)

/-- A plan, analyzed, with the schema that it produces. -/
def analyze (p : Plan) : Outcome (Plan × RelationSchema) := do
  let (p, columns) ← scope.analyzePlan p
  return (p, columns.schema)

end RelationScope

end RelScript
