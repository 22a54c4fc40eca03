import RelScript.Ieee.Arithmetic
import RelScript.Value.Cast

/-!
Arithmetic on columns. Both operands have one type, except below a difference of dates: integers are
checked for overflow, floats are rounded once in their own format, and a division by zero is
missing. Dates can only be subtracted, which gives durations, and durations can be added and
subtracted.
-/

namespace RelScript

namespace Arithmetic

/-- The exact result on integers; a quotient is cut off towards zero. -/
def onInt : Arithmetic → Int → Int → Int
  | plus, a, b => a + b
  | minus, a, b => a - b
  | multiply, a, b => a * b
  | divide, a, b => a.tdiv b

/-- The rounded result on floats. -/
def onFloat {f : Ieee.Format} : Arithmetic → Ieee.Bits f → Ieee.Bits f → Ieee.Bits f
  | plus, a, b => a.add b
  | minus, a, b => a.sub b
  | multiply, a, b => a.mul b
  | divide, a, b => a.div b

/-- The type of the results: a duration for a difference of dates of one kind, else the type of the
left operand. -/
def resultType (op : Arithmetic) (a b : DataType) : DataType :=
  match a, b, op with
  | .date .days, .date .days, minus => .duration .days
  | .date .millis, .date .millis, minus => .duration .millis
  | a, _, _ => a

/-- The result if it is in range. -/
def checked {k : IntKind} (op : Arithmetic) (left right : Int) :
    Option (Whole k) → Except ArithmeticFault (Whole k)
  | some n => .ok n
  | none => .error (.overflow op left right)

/-- The operation on values of two types, if these types have it. -/
def onValues? (op : Arithmetic) :
    (a b : DataType) →
      Option (a.Carrier → b.Carrier → Except ArithmeticFault (op.resultType a b).Carrier)
  | .integer k, .integer l =>
    if k = l then some fun a b => op.checked a.val b.val (Whole.ofInt? k (op.onInt a.val b.val))
    else none
  | .float .single, .float .single => some fun a b => .ok (op.onFloat a b)
  | .float .double, .float .double => some fun a b => .ok (op.onFloat a b)
  | .date .days, .date .days =>
    match op with
    | minus => some fun a b => checked minus a.val b.val (DateKind.between .days a b)
    | _ => none
  | .date .millis, .date .millis =>
    match op with
    | minus => some fun a b => checked minus a.val b.val (DateKind.between .millis a b)
    | _ => none
  | .duration j, .duration k =>
    if j = k ∧ (op = plus ∨ op = minus) then
      some fun a b => op.checked a.val b.val (Whole.ofInt? .int64 (op.onInt a.val b.val))
    else none
  | _, _ => none

/-- Why two types do not have the operation. A sum is refused as that of its date, whichever operand
the date is. -/
def refusal (op : Arithmetic) (a b : DataType) : ArithmeticFault :=
  match a, b with
  | .date _, _ => .unsupportedDate op a b
  | .duration _, .date _ => if op = plus then .unsupportedDate op b a else .unsupported op a b
  | .duration j, .duration k =>
    if j = k then .unsupportedDuration op a b else .unsupported op a b
  | _, _ => .unsupported op a b

/-- The operation on entries: missing if an operand is. -/
def onEntries {a b c : DataType} (f : a.Carrier → b.Carrier → Except ArithmeticFault c.Carrier) :
    a.Entry → b.Entry → Except ArithmeticFault c.Entry
  | some x, some y => (f x y).map some
  | _, _ => .ok none

/-- The divisors of a column: entries that equal zero are taken as missing. -/
def divisors (t : DataType) (c : Column t) : Except CastFault (Column t) := do
  let ints : Column .int64 := [some (Whole.zero .int64)]
  let zero ← ints.convert t
  .ok (c.map fun entry => if zero.contains entry then none else entry)

/-- The operation on two columns, row by row. -/
def onColumns (op : Arithmetic) {a b : DataType} (l : Column a) (r : Column b) :
    Except ArithmeticFault (Column (op.resultType a b)) :=
  match op.onValues? a b with
  | none => .error (op.refusal a b)
  | some f => (List.zip l r).mapM fun (x, y) => onEntries f x y

/-- The operation on two columns, where a divisor of zero counts as missing. -/
def column (op : Arithmetic) {a b : DataType} (l : Column a) (r : Column b) :
    Outcome (Column (op.resultType a b)) := do
  let right ← match op with
    | .divide => (divisors b r).mapError (.execution <| .zeroDivisor ·)
    | _ => .ok r
  (op.onColumns l right).mapError (.execution <| .arithmetic ·)

end Arithmetic

end RelScript
