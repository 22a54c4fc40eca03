import RelScript.Unit.Compile

/-!
Operator trees and their units. Lowering keeps the shape of an analyzed plan: a split becomes a
filter, and a list of side inputs becomes a broadcast, which binds them before its input runs.
-/

namespace RelScript

/-- Operator trees. -/
inductive Operator
  | scan (source : String) (schema : RelationSchema) (batchSize : Nat)
  | filter (predicate : Expr) (input : Operator)
  | project (columns : List (Named Expr)) (input : Operator)
  | hashAggregate (keys : List Expr) (aggregates : List (Named Aggregate)) (input : Operator)
  | hashJoin (left right : Operator) (on : List (Expr × Expr))
  | limit (count : Nat) (input : Operator)
  | store (target : String) (input : Operator)
  | broadcast (ids : List SideInputId) (input : Operator)
  deriving DecidableEq

namespace Operator

/-- The inputs of an operator. -/
def children : Operator → List Operator
  | scan _ _ _ => []
  | filter _ input | project _ input | hashAggregate _ _ input | limit _ input | store _ input
  | broadcast _ input => [input]
  | hashJoin left right _ => [left, right]

/-- Name of the operator in plan texts, stages and metrics. -/
def name : Operator → String
  | scan _ _ _ => "Scan"
  | filter _ _ => "Filter"
  | project _ _ => "Project"
  | hashAggregate _ _ _ => "HashAggregate"
  | hashJoin _ _ _ => "HashJoin"
  | limit _ _ => "Limit"
  | store _ _ => "Store"
  | broadcast _ _ => "ScalarBroadcast"

/-- The side inputs that an operator binds itself. -/
def ownSideInputs : Operator → List SideInputId
  | broadcast ids _ => ids
  | _ => []

/-- The operator and all operators below it, every operator before its inputs. -/
def nodes : Operator → List Operator
  | scan s c b => [scan s c b]
  | filter e i => filter e i :: i.nodes
  | project cs i => project cs i :: i.nodes
  | hashAggregate ks as i => hashAggregate ks as i :: i.nodes
  | hashJoin l r on => hashJoin l r on :: (l.nodes ++ r.nodes)
  | limit n i => limit n i :: i.nodes
  | store t i => store t i :: i.nodes
  | broadcast ids i => broadcast ids i :: i.nodes

/-- The side inputs that the tree waits for, in ascending order. -/
def sideInputs (o : Operator) : List SideInputId := ascending (o.nodes.flatMap ownSideInputs)

end Operator

/-- The operator tree of a plan. -/
def Plan.lower (batchSize : Nat) : Plan → Outcome Operator
  | load source schema => .ok (.scan source schema batchSize)
  | relation aliasName => .error (.planning (.notLowered aliasName))
  | filter predicate input | split _ predicate input => do
    return .filter predicate (← input.lower batchSize)
  | project columns input => do return .project columns (← input.lower batchSize)
  | aggregate keys aggregates input => do
    return .hashAggregate keys aggregates (← input.lower batchSize)
  | join left right on => do
    let left ← left.lower batchSize
    let right ← right.lower batchSize
    return .hashJoin left right on
  | limit count input => do return .limit count (← input.lower batchSize)
  | store target input => do return .store target (← input.lower batchSize)
  | sideInputs ids input => do return .broadcast ids (← input.lower batchSize)

/-- The operator tree of a side input. -/
structure SideInputPlan where
  id : SideInputId
  aliasName : String
  plan : Operator
  schema : RelationSchema
  consumers : List String

/-- The operator tree of a statement. -/
structure OutputPlan where
  aliasName : String
  target : OutputTarget
  plan : Operator
  schema : RelationSchema

/-- The executable form of a unit: side inputs in dependency order, then outputs. -/
structure PhysicalUnit where
  sideInputs : List SideInputPlan
  outputs : List OutputPlan

/-- Lowers a side input, which may wait only for side inputs registered before it. -/
def SideInput.lower (batchSize : Nat) (s : SideInput) : Outcome SideInputPlan := do
  let plan ← s.plan.lower batchSize
  match plan.sideInputs.find? (s.id ≤ ·) with
  | some dependency => throw (.planning (.sideInputOrder s.id dependency))
  | none => return ⟨s.id, s.aliasName, plan, s.schema, s.consumers⟩

/-- Lowers a statement. -/
def CompiledStatement.lower (batchSize : Nat) (s : CompiledStatement) : Outcome OutputPlan := do
  return ⟨s.aliasName, s.target, ← s.plan.lower batchSize, s.schema⟩

/-- Lowers a unit: its side inputs first, then its statements. -/
def CompiledUnit.lower (batchSize : Nat) (u : CompiledUnit) : Outcome PhysicalUnit := do
  let sideInputs ← u.sideInputs.mapM (SideInput.lower batchSize)
  let outputs ← u.statements.mapM (CompiledStatement.lower batchSize)
  return ⟨sideInputs, outputs⟩

end RelScript
