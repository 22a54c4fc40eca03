import RelScript.Error
import RelScript.Expr.Basic

/-!
Relational plans, the aliases that they read and the schema that they produce. An alias is read as a
relation, by a node of its own, or as a scalar, inside an expression.
-/

namespace RelScript

/-- Plans. -/
inductive Plan
  | load (source : String) (schema : RelationSchema)
  | relation (aliasName : String)
  | project (columns : List (Named Expr)) (input : Plan)
  | filter (predicate : Expr) (input : Plan)
  | split (branch : String) (predicate : Expr) (input : Plan)
  | aggregate (keys : List Expr) (aggregates : List (Named Aggregate)) (input : Plan)
  | join (left right : Plan) (on : List (Expr × Expr))
  | limit (count : Nat) (input : Plan)
  | store (target : String) (input : Plan)
  | sideInputs (ids : List SideInputId) (input : Plan)
  deriving DecidableEq

namespace Plan

/-- The inputs of a node. -/
def children : Plan → List Plan
  | load _ _ | relation _ => []
  | project _ input | filter _ input | split _ _ input | aggregate _ _ input | limit _ input
  | store _ input | sideInputs _ input => [input]
  | join left right _ => [left, right]

/-- The expressions of a node itself, in order. -/
def exprs : Plan → List Expr
  | project columns _ => columns.map (·.value)
  | filter predicate _ | split _ predicate _ => [predicate]
  | aggregate keys aggregates _ => keys ++ aggregates.map (·.value.arg)
  | join _ _ on => on.flatMap fun (l, r) => [l, r]
  | load _ _ | relation _ | limit _ _ | store _ _ | sideInputs _ _ => []

/-- The alias that a node reads as a relation. -/
def relationAlias? : Plan → Option String
  | relation aliasName => some aliasName
  | _ => none

/-- The plan and all the plans below it, every node before its inputs. -/
def nodes : Plan → List Plan
  | load s c => [load s c]
  | relation a => [relation a]
  | project cs p => project cs p :: p.nodes
  | filter e p => filter e p :: p.nodes
  | split b e p => split b e p :: p.nodes
  | aggregate ks as p => aggregate ks as p :: p.nodes
  | join l r on => join l r on :: (l.nodes ++ r.nodes)
  | limit n p => limit n p :: p.nodes
  | store t p => store t p :: p.nodes
  | sideInputs ids p => sideInputs ids p :: p.nodes

/-- The aliases read as relations, once each, in order of appearance. -/
def relationAliases (p : Plan) : List String := (p.nodes.filterMap relationAlias?).eraseDups

/-- The aliases read as scalars, once each, in order of appearance. -/
def scalarAliases (p : Plan) : List String :=
  ((p.nodes.flatMap exprs).flatMap (·.parts.filterMap Expr.scalarAlias?)).eraseDups

/-- Every alias that the plan reads: the relations first, then the scalars. -/
def dependencies (p : Plan) : List String := (p.relationAliases ++ p.scalarAliases).eraseDups

end Plan

/-- The type of an expression over an input, without any check of its operands. -/
def Expr.type (input : RelationSchema) : Expr → Outcome DataType
  | columnRef _ index | position index => .ok ((input.fieldType? index).getD .binary)
  | column name =>
    match (input.fieldIndex? name).bind input.fieldType? with
    | some t => .ok t
    | none => .error (.planning (.unresolvedColumn name))
  | literal v => .ok v.type
  | cast _ t => .ok t
  | junction _ _ _ | not _ => .ok .boolean
  | binary _ (.compare _) _ => .ok .boolean
  | binary _ .concat _ => .ok .utf8
  | binary l (.arith _) _ => l.type input
  | placeholder p => .ok p.type
  | scalarRef aliasName field => .error (.planning (.unboundScalar aliasName field))
  | relationRef aliasName => .error (.resolution (.projectionOnly aliasName))

/-- The type of an aggregate over an input. -/
def Aggregate.type (input : RelationSchema) (a : Aggregate) : Outcome DataType :=
  match a.fn with
  | .count => .ok .int64
  | .avg => .ok .float64
  | .sum | .min | .max => a.arg.type input

/-- The schema that a plan produces. -/
def Plan.schema : Plan → Outcome RelationSchema
  | load _ schema => .ok schema
  | relation aliasName => .error (.planning (.notInlined aliasName))
  | filter _ input | split _ _ input | limit _ input | store _ input | sideInputs _ input =>
    input.schema
  | project columns input => do
    let s ← input.schema
    let fields ← columns.mapM fun c => do return Field.mk c.name (← c.value.type s) true
    return some fields
  | aggregate keys aggregates input => do
    let s ← input.schema
    let keyFields ← keys.mapM fun k => do return Field.mk k.groupName (← k.type s) true
    let fields ← aggregates.mapM fun a => do return Field.mk a.name (← a.value.type s) true
    return some (keyFields ++ fields)
  | join left right _ => do
    let l ← left.schema
    let r ← right.schema
    return match l, r with
      | some l, some r => some (l ++ r)
      | _, _ => none

end RelScript
