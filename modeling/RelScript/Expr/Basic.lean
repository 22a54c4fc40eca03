import RelScript.Operator
import RelScript.DataType

/-!
Expressions over the columns of an input and over the fields of scalar relations. A scripted
expression names its columns and scalars; a compiled one refers to columns by position and to
scalars by placeholders.
-/

namespace RelScript

/-- A constant. -/
inductive Literal
  | int (n : Whole .int64)
  | float (x : Ieee.Bits .double)
  | text (s : String)
  | boolean (b : Bool)
  | null
  deriving DecidableEq

/-- The type of a constant. -/
def Literal.type : Literal → DataType
  | int _ => .int64
  | float _ => .float64
  | text _ => .utf8
  | boolean _ => .boolean
  | null => .null

/-- The constant as an entry of its type. -/
def Literal.entry : (v : Literal) → v.type.Entry
  | int n => some n
  | float x => some x
  | text s => some s
  | boolean b => some b
  | null => none

/-- A scalar reference that is bound to a side input: the field at `index` of the scalar's row. -/
structure Placeholder where
  sideInput : SideInputId
  aliasName : String
  index : Nat
  type : DataType
  typed : Bool
  deriving DecidableEq

/-- Expressions. -/
inductive Expr
  | column (name : String)
  | position (index : Nat)
  | columnRef (name : String) (index : Nat)
  | literal (v : Literal)
  | binary (left : Expr) (op : BinaryOp) (right : Expr)
  | cast (e : Expr) (target : DataType)
  | junction (j : Junction) (left right : Expr)
  | not (e : Expr)
  | scalarRef (aliasName : String) (field : FieldSelector)
  | relationRef (aliasName : String)
  | placeholder (p : Placeholder)
  deriving DecidableEq

namespace Expr

/-- The expression and all its parts, every expression before its own parts. -/
def parts : Expr → List Expr
  | binary l op r => binary l op r :: (l.parts ++ r.parts)
  | cast e t => cast e t :: e.parts
  | junction j l r => junction j l r :: (l.parts ++ r.parts)
  | not e => not e :: e.parts
  | leaf => [leaf]

/-- The alias that a part reads as a scalar. -/
def scalarAlias? : Expr → Option String
  | scalarRef aliasName _ => some aliasName
  | _ => none

/-- The side input that a part reads. -/
def sideInput? : Expr → Option SideInputId
  | placeholder p => some p.sideInput
  | _ => none

/-- The aliases read as scalars, once each, in order of appearance. -/
def scalarAliases (e : Expr) : List String := (e.parts.filterMap scalarAlias?).eraseDups

/-- The side inputs read, once each, in order of appearance. -/
def sideInputs (e : Expr) : List SideInputId := (e.parts.filterMap sideInput?).eraseDups

/-- The name that a grouping expression gives to its column. -/
def groupName : Expr → String
  | column name => name
  | columnRef name _ => name
  | position i => "$" ++ toString i
  | _ => "group"

end Expr

/-- An aggregate function with its argument. -/
structure Aggregate where
  fn : AggregateFn
  arg : Expr
  deriving DecidableEq

/-- An expression with the name of its output column. -/
structure Named (α : Type) where
  value : α
  name : String
  deriving DecidableEq

end RelScript
