import RelScript.Expr.Basic
import RelScript.Ieee.Layout
import RelScript.Schema

/-!
Two texts of an expression: `explain`, the operator form shown in plans, and `describe`, the full
constructor form in which plans show aggregates.
-/

namespace RelScript

/-- The full form of a constant. -/
def Literal.describe : Literal → String
  | int n => "Int64(" ++ toString n.val ++ ")"
  | float x => "Float64(" ++ x.write .field ++ ")"
  | text s => "Utf8(" ++ RelScript.Text.quote s ++ ")"
  | boolean b => "Boolean(" ++ Bool.text b ++ ")"
  | null => "Null"

/-- A constant in a plan; text stands in single quotes, everything else in its full form. -/
def Literal.explain : Literal → String
  | text s => "'" ++ s ++ "'"
  | v => v.describe

/-- The full form of a selector. -/
def FieldSelector.describe : FieldSelector → String
  | name n => "Name(" ++ Text.quote n ++ ")"
  | position p => "Position(" ++ toString p ++ ")"

/-- A placeholder in a plan. -/
def Placeholder.explain (p : Placeholder) : String :=
  "scalar(" ++ p.aliasName ++ ".$" ++ toString p.index ++ " via " ++ sideInputText p.sideInput ++
    ": " ++
    p.type.word ++ ")"

/-- The full form of a placeholder. -/
def Placeholder.describe (p : Placeholder) : String :=
  "PlaceholderBinding \x7b side_input: SideInputId(" ++ toString p.sideInput ++ "), alias: " ++
    Text.quote p.aliasName ++ ", index: " ++ toString p.index ++ ", data_type: " ++ p.type.name ++
    ", typed: " ++ Bool.text p.typed ++ " \x7d"

namespace Expr

/-- The operator form. -/
def explain : Expr → String
  | column name => name
  | position i => "$" ++ toString i
  | columnRef name i => name ++ "#" ++ toString i
  | literal v => v.explain
  | binary l op r => "(" ++ l.explain ++ ") " ++ op.symbol ++ " (" ++ r.explain ++ ")"
  | cast e t => "(" ++ t.word ++ ")" ++ e.explain
  | junction j l r => "(" ++ l.explain ++ ") " ++ j.word ++ " (" ++ r.explain ++ ")"
  | not e => "NOT (" ++ e.explain ++ ")"
  | scalarRef aliasName field => aliasName ++ "." ++ field.text
  | relationRef aliasName => aliasName
  | placeholder p => p.explain

/-- The full form. -/
def describe : Expr → String
  | column name => "Column(" ++ Text.quote name ++ ")"
  | position i => "Position(" ++ toString i ++ ")"
  | columnRef name i =>
    "ColumnRef \x7b name: " ++ Text.quote name ++ ", index: " ++ toString i ++ " \x7d"
  | literal v => "Literal(" ++ v.describe ++ ")"
  | binary l op r =>
    "BinaryOp \x7b left: " ++ l.describe ++ ", op: " ++ op.tag ++ ", right: " ++ r.describe ++
      " \x7d"
  | cast e t => "Cast \x7b expr: " ++ e.describe ++ ", to_type: " ++ t.name ++ " \x7d"
  | junction .and l r => "And(" ++ l.describe ++ ", " ++ r.describe ++ ")"
  | junction .or l r => "Or(" ++ l.describe ++ ", " ++ r.describe ++ ")"
  | not e => "Not(" ++ e.describe ++ ")"
  | scalarRef aliasName field =>
    "ScalarRef \x7b alias: " ++ Text.quote aliasName ++ ", field: " ++ field.describe ++ " \x7d"
  | relationRef aliasName => "RelationRef(" ++ Text.quote aliasName ++ ")"
  | placeholder p => "Placeholder(" ++ p.describe ++ ")"

end Expr

/-- The full form of an aggregate. -/
def Aggregate.describe (a : Aggregate) : String := a.fn.tag ++ "(" ++ a.arg.describe ++ ")"

end RelScript
