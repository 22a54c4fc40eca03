import RelScript.Plan.Basic

/-!
Binding of scalar references. Every reference to a field of a scalar relation becomes a placeholder
for that field in the relation's side input, and every node whose expressions gained placeholders is
wrapped in a node that lists their side inputs.
-/

namespace RelScript

/-- What binding needs to know: the schema of an alias, and the side input of an alias. -/
structure ScalarScope (σ : Type) where
  schema : String → Outcome RelationSchema
  sideInput : String → StateT σ Outcome SideInputId

/-- Inserts a number into an ascending list that has no number twice. -/
def insertAscending (n : Nat) : List Nat → List Nat
  | [] => [n]
  | m :: rest =>
    if n < m then n :: m :: rest
    else if n = m then m :: rest
    else m :: insertAscending n rest

/-- The numbers in ascending order, each once. -/
def ascending (ids : List Nat) : List Nat := ids.foldr insertAscending []

/-- The position and the type of the selected field of a scalar relation. -/
def FieldSelector.resolve (aliasName : String) : FieldSelector → RelationSchema →
    Outcome (Nat × DataType)
  | name n, none => .error (.resolution (.undeclaredScalar n aliasName))
  | name n, some s =>
    match Schema.indexOf? s n with
    | some i => .ok (i, (RelationSchema.fieldType? (some s) i).getD .binary)
    | none => .error (.resolution (.noSuchField aliasName n))
  | position p, some s =>
    match RelationSchema.fieldType? (some s) p with
    | some t => .ok (p, t)
    | none => .error (.resolution (.fieldOutOfRange p aliasName s.length))
  | position p, none => .ok (p, .binary)

namespace ScalarScope

variable {σ : Type} (scope : ScalarScope σ)

/-- The placeholder of a scalar reference. Fields of raw bytes are untyped. -/
def placeholder (aliasName : String) (field : FieldSelector) : StateT σ Outcome Placeholder := do
  let schema ← scope.schema aliasName
  let (index, type) ← field.resolve aliasName schema
  let id ← scope.sideInput aliasName
  return ⟨id, aliasName, index, type, !type.isUntyped⟩

/-- An expression with its scalar references bound, and the side inputs bound in it. -/
def bindExpr : Expr → StateT σ Outcome (Expr × List SideInputId)
  | .scalarRef aliasName field => do
    let p ← scope.placeholder aliasName field
    return (.placeholder p, [p.sideInput])
  | .relationRef aliasName => throw (.resolution (.projectionOnly aliasName))
  | .binary l op r => do
    let (l, us) ← bindExpr l
    let (r, vs) ← bindExpr r
    return (.binary l op r, us ++ vs)
  | .cast e t => do
    let (e, us) ← bindExpr e
    return (.cast e t, us)
  | .junction j l r => do
    let (l, us) ← bindExpr l
    let (r, vs) ← bindExpr r
    return (.junction j l r, us ++ vs)
  | .not e => do
    let (e, us) ← bindExpr e
    return (.not e, us)
  | e => return (e, [])

/-- Applies a binding step to every item, in order, and gathers the side inputs. -/
def bindAll {α : Type} (step : α → StateT σ Outcome (α × List SideInputId)) :
    List α → StateT σ Outcome (List α × List SideInputId)
  | [] => return ([], [])
  | item :: rest => do
    let (item, us) ← step item
    let (rest, vs) ← bindAll step rest
    return (item :: rest, us ++ vs)

/-- Binds a named expression. -/
def bindColumn (c : Named Expr) : StateT σ Outcome (Named Expr × List SideInputId) := do
  let (e, us) ← scope.bindExpr c.value
  return (⟨e, c.name⟩, us)

/-- Binds the argument of a named aggregate. -/
def bindAggregate (a : Named Aggregate) :
    StateT σ Outcome (Named Aggregate × List SideInputId) := do
  let (e, us) ← scope.bindExpr a.value.arg
  return (⟨⟨a.value.fn, e⟩, a.name⟩, us)

/-- Binds a pair of join keys. -/
def bindKeys (k : Expr × Expr) : StateT σ Outcome ((Expr × Expr) × List SideInputId) := do
  let (l, us) ← scope.bindExpr k.1
  let (r, vs) ← scope.bindExpr k.2
  return ((l, r), us ++ vs)

/-- A node under the list of the side inputs bound in it, if there are any. -/
def wrap (node : Plan) : List SideInputId → Plan
  | [] => node
  | used => .sideInputs (ascending used) node

/-- A plan with its scalar references bound: the inputs of a node first, then its expressions. -/
def bindPlan : Plan → StateT σ Outcome Plan
  | .load source schema => return .load source schema
  | .relation aliasName => return .relation aliasName
  | .project columns input => do
    let input ← bindPlan input
    let (columns, used) ← bindAll scope.bindColumn columns
    return wrap (.project columns input) used
  | .filter predicate input => do
    let input ← bindPlan input
    let (predicate, used) ← scope.bindExpr predicate
    return wrap (.filter predicate input) used
  | .split branch predicate input => do
    let input ← bindPlan input
    let (predicate, used) ← scope.bindExpr predicate
    return wrap (.split branch predicate input) used
  | .aggregate keys aggregates input => do
    let input ← bindPlan input
    let (keys, us) ← bindAll scope.bindExpr keys
    let (aggregates, vs) ← bindAll scope.bindAggregate aggregates
    return wrap (.aggregate keys aggregates input) (us ++ vs)
  | .join left right on => do
    let left ← bindPlan left
    let right ← bindPlan right
    let (on, used) ← bindAll scope.bindKeys on
    return wrap (.join left right on) used
  | .limit count input => return .limit count (← bindPlan input)
  | .store target input => return .store target (← bindPlan input)
  | .sideInputs ids input => return .sideInputs ids (← bindPlan input)

end ScalarScope

end RelScript
