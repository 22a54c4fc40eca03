import RelScript.Error
import RelScript.Expr.Basic

/-!
Implicit casts. Operands of one operator are brought to a common type: raw bytes take the type of
the other side, numbers widen, and a missing constant takes any type.
-/

namespace RelScript

/-- An expression with its type. -/
abbrev TypedExpr := Expr × DataType

/-- The expression, cast unless it has the type already. -/
def TypedExpr.castTo (e : TypedExpr) (target : DataType) : Expr :=
  if e.2 = target then e.1 else .cast e.1 target

/-- Whether an expression is an untyped scalar field. -/
def Expr.isUntypedScalar : Expr → Bool
  | placeholder p => !p.typed
  | _ => false

/-- An untyped scalar field is no operand: it has to be cast in the script. -/
def rejectUntypedScalar (op : BinaryOp) (l r : TypedExpr) : Outcome Unit :=
  if l.1.isUntypedScalar || r.1.isUntypedScalar then
    .error (.typeCheck (.untypedScalar op.displayName l.2.word r.2.word))
  else .ok ()

/-- The common type of two compared operands, if they can be compared. -/
def comparisonType? (a b : DataType) : Option DataType :=
  if a = .null then some b
  else if b = .null then some a
  else if a.isUntyped && !b.isUntyped then some b
  else if b.isUntyped && !a.isUntyped then some a
  else if a.isNumeric && b.isNumeric then a.wider? b
  else if a.isText && b.isText then
    some (if a = .largeUtf8 || b = .largeUtf8 then .largeUtf8 else .utf8)
  else if a = b then some a
  else none

/-- Two compared operands in their common type. -/
def coerceComparison (l r : TypedExpr) : Outcome (Expr × Expr) :=
  match comparisonType? l.2 r.2 with
  | some t => .ok (l.castTo t, r.castTo t)
  | none => .error (.typeCheck (.comparison l.2 r.2))

/-- The common type of two arithmetic operands, if there is one. Two operands of raw bytes are taken
as doubles. -/
def arithmeticType? (a b : DataType) : Option DataType :=
  if a.isUntyped then
    if b.isUntyped then some .float64 else if b.isNumeric then some b else none
  else if b.isUntyped then if a.isNumeric then some a else none
  else a.wider? b

/-- Two arithmetic operands in their common type, and that type. -/
def coerceArithmetic (op : Arithmetic) (l r : TypedExpr) : Outcome (Expr × Expr × DataType) :=
  match arithmeticType? l.2 r.2 with
  | some t => .ok (l.castTo t, r.castTo t, t)
  | none => .error (.typeCheck (.operands (.arith op) l.2 r.2))

/-- Two operands of a concatenation as text. -/
def coerceConcat (l r : TypedExpr) : Outcome (Expr × Expr) :=
  if (l.2.isText || l.2.isUntyped) && (r.2.isText || r.2.isUntyped) then
    .ok (l.castTo .utf8, r.castTo .utf8)
  else .error (.typeCheck (.operands .concat l.2 r.2))

/-- The type in which a function accumulates its argument: integers as the widest integer type,
floats and raw bytes as doubles, and text for the functions that only compare. -/
def accumulatorType? (fn : AggregateFn) (t : DataType) : Option DataType :=
  if t.isUntyped then some .float64
  else if t.isInteger then some .int64
  else if t.isNumeric then some .float64
  else if (fn = .min || fn = .max) && t.isText then some .utf8
  else none

/-- The argument of an aggregate function in its accumulator type, and that type. -/
def coerceArgument (fn : AggregateFn) (e : TypedExpr) : Outcome TypedExpr :=
  match accumulatorType? fn e.2 with
  | some t => .ok (e.castTo t, t)
  | none => .error (.typeCheck (.aggregate fn e.2))

end RelScript
