/-!
Operators of two operands and selectors of a scalar's field, with their names in messages, in plan
texts and in plan encodings.
-/

namespace RelScript

/-- The comparisons. -/
inductive Comparison
  | eq
  | notEq
  | lt
  | ltEq
  | gt
  | gtEq
  deriving DecidableEq

/-- Whether the comparison accepts an order between its operands. -/
def Comparison.accepts : Comparison → Ordering → Bool
  | eq, o => o == .eq
  | notEq, o => o != .eq
  | lt, o => o == .lt
  | ltEq, o => o != .gt
  | gt, o => o == .gt
  | gtEq, o => o != .lt

/-- The arithmetic operations. -/
inductive Arithmetic
  | plus
  | minus
  | multiply
  | divide
  deriving DecidableEq

/-- Symbol of the operation. -/
def Arithmetic.symbol : Arithmetic → String
  | plus => "+"
  | minus => "-"
  | multiply => "*"
  | divide => "/"

/-- The operators of two operands other than the logical ones. -/
inductive BinaryOp
  | compare (c : Comparison)
  | arith (a : Arithmetic)
  | concat
  deriving DecidableEq

namespace BinaryOp

/-- The name in messages. -/
def displayName : BinaryOp → String
  | compare .eq => "Equal"
  | compare .notEq => "NotEqual"
  | compare .lt => "LessThan"
  | compare .ltEq => "LessThanEqual"
  | compare .gt => "GreaterThan"
  | compare .gtEq => "GreaterThanEqual"
  | arith .plus => "Add"
  | arith .minus => "Subtract"
  | arith .multiply => "Multiply"
  | arith .divide => "Division"
  | concat => "Concat"

/-- The symbol in plan texts. -/
def symbol : BinaryOp → String
  | compare .eq => "=="
  | compare .notEq => "!="
  | compare .lt => "<"
  | compare .ltEq => "<="
  | compare .gt => ">"
  | compare .gtEq => ">="
  | arith a => a.symbol
  | concat => "CONCAT"

/-- The tag in plan encodings. -/
def tag : BinaryOp → String
  | compare .eq => "Eq"
  | compare .notEq => "NotEq"
  | compare .lt => "Lt"
  | compare .ltEq => "LtEq"
  | compare .gt => "Gt"
  | compare .gtEq => "GtEq"
  | arith .plus => "Plus"
  | arith .minus => "Minus"
  | arith .multiply => "Multiply"
  | arith .divide => "Divide"
  | concat => "Concat"

end BinaryOp

/-- The two logical connectives. -/
inductive Junction
  | and
  | or
  deriving DecidableEq

/-- The word of a connective. -/
def Junction.word : Junction → String
  | and => "AND"
  | or => "OR"

/-- How a scalar reference picks a field of the scalar relation. -/
inductive FieldSelector
  | name (n : String)
  | position (p : Nat)
  deriving DecidableEq

/-- The selector as it is written in a script. -/
def FieldSelector.text : FieldSelector → String
  | name n => n
  | position p => "$" ++ toString p

/-- Number of a side input within its unit. -/
abbrev SideInputId := Nat

/-- The written form of a side input's number. -/
def sideInputText (id : SideInputId) : String := "si" ++ toString id

/-- The aggregate functions. -/
inductive AggregateFn
  | count
  | sum
  | min
  | max
  | avg
  deriving DecidableEq

/-- The function's word in messages. -/
def AggregateFn.word : AggregateFn → String
  | count => "COUNT"
  | sum => "SUM"
  | min => "MIN"
  | max => "MAX"
  | avg => "AVG"

/-- The function's tag in plan encodings. -/
def AggregateFn.tag : AggregateFn → String
  | count => "Count"
  | sum => "Sum"
  | min => "Min"
  | max => "Max"
  | avg => "Avg"

end RelScript
