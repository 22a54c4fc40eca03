import RelScript.Encoding.Plan
import RelScript.Physical.Stage

/-!
Encodings of compiled units, operator trees and stages as JSON documents.
-/

namespace RelScript.Encoding

open Text (Json)

/-- A target. -/
def ofTarget : OutputTarget → Json
  | .store name => .tagged "Store" (.string name)
  | .collect => .string "Collect"

/-- A compiled statement. -/
def ofStatement (s : CompiledStatement) : Json :=
  .object [("alias", .string s.aliasName), ("target", ofTarget s.target), ("plan", ofPlan s.plan),
    ("schema", ofRelationSchema s.schema)]

/-- A registered side input. -/
def ofSideInput (s : SideInput) : Json :=
  .object [("id", .int s.id), ("aliases", .strings s.aliases), ("plan", ofPlan s.plan),
    ("schema", ofRelationSchema s.schema), ("fingerprint", .string s.fingerprint),
    ("consumers", .strings s.consumers)]

/-- A compiled unit. -/
def ofUnit (u : CompiledUnit) : Json :=
  .object [("statements", .array (u.statements.map ofStatement)),
    ("side_inputs", .array (u.sideInputs.map ofSideInput))]

/-- An operator tree. -/
def ofOperator : Operator → Json
  | .scan source schema batchSize =>
    .tagged "Scan"
      (.object [("source", .string source), ("schema", ofDeclared schema),
        ("batch_size_rows", .int batchSize)])
  | .filter predicate input =>
    .tagged "Filter" (.object [("predicate", ofExpr predicate), ("input", ofOperator input)])
  | .project columns input =>
    .tagged "Project" (.object [("exprs", ofColumns columns), ("input", ofOperator input)])
  | .hashAggregate keys aggregates input =>
    .tagged "HashAggregate"
      (.object [("group_exprs", .array (keys.map ofExpr)), ("aggr_exprs", ofAggregates aggregates),
        ("input", ofOperator input)])
  | .hashJoin left right on =>
    .tagged "HashJoin"
      (.object [("left", ofOperator left), ("right", ofOperator right), ("on", ofKeys on)])
  | .limit count input => .tagged "Limit" (.object [("n", .int count), ("input", ofOperator input)])
  | .store target input =>
    .tagged "Store" (.object [("target", .string target), ("input", ofOperator input)])
  | .broadcast ids input =>
    .tagged "ScalarBroadcast"
      (.object [("side_inputs", .naturals ids), ("input", ofOperator input)])

/-- The operator tree of a side input. -/
def ofSideInputPlan (s : SideInputPlan) : Json :=
  .object [("id", .int s.id), ("alias", .string s.aliasName), ("plan", ofOperator s.plan),
    ("schema", ofRelationSchema s.schema), ("consumers", .strings s.consumers)]

/-- The operator tree of a statement. -/
def ofOutputPlan (o : OutputPlan) : Json :=
  .object [("alias", .string o.aliasName), ("target", ofTarget o.target),
    ("plan", ofOperator o.plan),
    ("schema", ofRelationSchema o.schema)]

/-- An executable unit. -/
def ofPhysicalUnit (u : PhysicalUnit) : Json :=
  .object [("side_inputs", .array (u.sideInputs.map ofSideInputPlan)),
    ("outputs", .array (u.outputs.map ofOutputPlan))]

/-- What a stage produces. -/
def ofStageKind : StageKind → Json
  | .sideInput id => .tagged "SideInput" (.int id)
  | .output aliasName => .tagged "Output" (.string aliasName)

/-- A stage. -/
def ofStage (s : Stage) : Json :=
  .object [("id", .int s.id), ("kind", ofStageKind s.kind), ("operators", .strings s.operators),
    ("parents", .naturals s.parents), ("children", .naturals s.children)]

/-- The stages of a unit. -/
def ofStages (stages : List Stage) : Json := .object [("stages", .array (stages.map ofStage))]

end RelScript.Encoding
