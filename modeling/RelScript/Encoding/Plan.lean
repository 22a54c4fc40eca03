import RelScript.Plan.Basic
import RelScript.Text.Json

/-!
The canonical encoding of plans as JSON documents. A constructor becomes an object with its tag as
the only key, or the bare tag if it has no content. The compact text of a plan's document is its
fingerprint: plans with one fingerprint are taken for one plan.
-/

namespace RelScript.Encoding

open Text (Json)

/-- A type. A duration is tagged and tells its unit; every other type is its name. -/
def ofType : DataType → Json
  | .duration .days => .tagged "Duration" (.string "Second")
  | .duration .millis => .tagged "Duration" (.string "Millisecond")
  | t => .string t.name

/-- A field. It has no metadata and is never dictionary-encoded, so these parts are constant. -/
def ofField (f : Field) : Json :=
  .object [("name", .string f.name), ("data_type", ofType f.type),
    ("nullable", .bool f.nullable), ("dict_id", .int 0), ("dict_is_ordered", .bool false),
    ("metadata", .object [])]

/-- A schema. It has no metadata: that part is the empty object. -/
def ofSchema (s : Schema) : Json :=
  .object [("fields", .array (s.map ofField)), ("metadata", .object [])]

/-- The declared columns of a source; `null` if there are none. -/
def ofDeclared : RelationSchema → Json
  | some s => ofSchema s
  | none => .null

/-- A constant. -/
def ofLiteral : Literal → Json
  | .int n => .tagged "Int64" (.int n.val)
  | .float x => .tagged "Float64" (.float x)
  | .text s => .tagged "Utf8" (.string s)
  | .boolean b => .tagged "Boolean" (.bool b)
  | .null => .string "Null"

/-- A selector. -/
def ofSelector : FieldSelector → Json
  | .name n => .tagged "Name" (.string n)
  | .position p => .tagged "Position" (.int p)

/-- A placeholder. -/
def ofPlaceholder (p : Placeholder) : Json :=
  .object [("side_input", .int p.sideInput), ("alias", .string p.aliasName),
    ("index", .int p.index),
    ("data_type", ofType p.type), ("typed", .bool p.typed)]

/-- An expression. -/
def ofExpr : Expr → Json
  | .column name => .tagged "Column" (.string name)
  | .position i => .tagged "Position" (.int i)
  | .columnRef name i =>
    .tagged "ColumnRef" (.object [("name", .string name), ("index", .int i)])
  | .literal v => .tagged "Literal" (ofLiteral v)
  | .binary l op r =>
    .tagged "BinaryOp"
      (.object [("left", ofExpr l), ("op", .string op.tag), ("right", ofExpr r)])
  | .cast e t => .tagged "Cast" (.object [("expr", ofExpr e), ("to_type", ofType t)])
  | .junction .and l r => .tagged "And" (.array [ofExpr l, ofExpr r])
  | .junction .or l r => .tagged "Or" (.array [ofExpr l, ofExpr r])
  | .not e => .tagged "Not" (ofExpr e)
  | .scalarRef aliasName field =>
    .tagged "ScalarRef" (.object [("alias", .string aliasName), ("field", ofSelector field)])
  | .relationRef aliasName => .tagged "RelationRef" (.string aliasName)
  | .placeholder p => .tagged "Placeholder" (ofPlaceholder p)

/-- An aggregate. -/
def ofAggregate (a : Aggregate) : Json := .tagged a.fn.tag (ofExpr a.arg)

/-- Named expressions, as pairs. -/
def ofColumns (columns : List (Named Expr)) : Json :=
  .array (columns.map fun c => .array [ofExpr c.value, .string c.name])

/-- Named aggregates, as pairs. -/
def ofAggregates (aggregates : List (Named Aggregate)) : Json :=
  .array (aggregates.map fun a => .array [ofAggregate a.value, .string a.name])

/-- Join keys, as pairs. -/
def ofKeys (on : List (Expr × Expr)) : Json :=
  .array (on.map fun (l, r) => .array [ofExpr l, ofExpr r])

/-- A plan. -/
def ofPlan : Plan → Json
  | .load source schema =>
    .tagged "Load" (.object [("source", .string source), ("schema", ofDeclared schema)])
  | .relation aliasName => .tagged "Relation" (.object [("alias", .string aliasName)])
  | .project columns input =>
    .tagged "Projection" (.object [("exprs", ofColumns columns), ("input", ofPlan input)])
  | .filter predicate input =>
    .tagged "Filter" (.object [("predicate", ofExpr predicate), ("input", ofPlan input)])
  | .split branch predicate input =>
    .tagged "Split"
      (.object [("branch", .string branch), ("predicate", ofExpr predicate),
        ("input", ofPlan input)])
  | .aggregate keys aggregates input =>
    .tagged "Aggregate"
      (.object [("group_exprs", .array (keys.map ofExpr)), ("aggr_exprs", ofAggregates aggregates),
        ("input", ofPlan input)])
  | .join left right on =>
    .tagged "Join" (.object [("left", ofPlan left), ("right", ofPlan right), ("on", ofKeys on)])
  | .limit count input => .tagged "Limit" (.object [("n", .int count), ("input", ofPlan input)])
  | .store target input =>
    .tagged "Store" (.object [("target", .string target), ("input", ofPlan input)])
  | .sideInputs ids input =>
    .tagged "SideInputs" (.object [("side_inputs", .naturals ids), ("input", ofPlan input)])

/-- The schema of a relation: a bare tag if it was never declared. -/
def ofRelationSchema : RelationSchema → Json
  | some s => .tagged "Known" (ofSchema s)
  | none => .string "Unknown"

end RelScript.Encoding

namespace RelScript

/-- The text that identifies a plan. -/
def Plan.fingerprint (p : Plan) : String := (Encoding.ofPlan p).render

end RelScript
