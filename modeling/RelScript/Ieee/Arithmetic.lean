import RelScript.Ieee.Format

/-!
Arithmetic and order of binary numbers. Every operation is the exact result, rounded once. A NaN
operand is handed on with its quiet bit set, the first one before the second, and an operation
without a meaningful result gives the negative quiet NaN.
-/

namespace RelScript.Ieee

variable {f : Format}

/-- A NaN operand as a result. -/
def Bits.quieted (x : Bits f) : Bits f :=
  ⟨x.word ||| BitVec.ofNat f.width f.quietBit⟩

/-- The result of an operation that has none. -/
def invalid (f : Format) : Bits f := quietNaN f true

/-- Runs `operate` on two numbers and hands a NaN operand on. -/
def withNumbers (operate : Number → Number → Bits f) (x y : Bits f) : Bits f :=
  if x.isNaN then x.quieted else if y.isNaN then y.quieted else operate x.number y.number

/-- The signed units of a finite number. -/
def signed (negative : Bool) (units : Nat) : Int := if negative then -Int.ofNat units else units

/-- The sum of two numbers. Zeros of one sign keep it, every other zero sum is positive. -/
def sum : Number → Number → Bits f
  | .nan, _ => invalid f
  | _, .nan => invalid f
  | .infinite s, .infinite t => if s = t then infinity f s else invalid f
  | .infinite s, .finite _ _ => infinity f s
  | .finite _ _, .infinite t => infinity f t
  | .finite s m, .finite t n =>
    let total := signed s m + signed t n
    if total = 0 then zero f (s && t) else round f (total < 0) total.natAbs 1

/-- The product of two numbers. -/
def product : Number → Number → Bits f
  | .nan, _ => invalid f
  | _, .nan => invalid f
  | .infinite s, .infinite t => infinity f (s != t)
  | .infinite s, .finite t n => if n = 0 then invalid f else infinity f (s != t)
  | .finite s m, .infinite t => if m = 0 then invalid f else infinity f (s != t)
  | .finite s m, .finite t n => round f (s != t) (m * n) f.one

/-- The quotient of two numbers. -/
def quotient : Number → Number → Bits f
  | .nan, _ => invalid f
  | _, .nan => invalid f
  | .infinite _, .infinite _ => invalid f
  | .infinite s, .finite t _ => infinity f (s != t)
  | .finite s _, .infinite t => zero f (s != t)
  | .finite s m, .finite t n =>
    if n = 0 then if m = 0 then invalid f else infinity f (s != t)
    else round f (s != t) (m * f.one) n

namespace Bits

/-- The number with its sign flipped. -/
def negate (x : Bits f) : Bits f :=
  ⟨x.word ^^^ BitVec.ofNat f.width f.signBit⟩

/-- Addition. -/
def add (x y : Bits f) : Bits f := withNumbers sum x y

/-- Subtraction: the sum with the second number negated, a NaN operand keeping its sign. -/
def sub (x y : Bits f) : Bits f :=
  if x.isNaN then x.quieted else if y.isNaN then y.quieted else sum x.number y.negate.number

/-- Multiplication. -/
def mul (x y : Bits f) : Bits f := withNumbers product x y

/-- Division. -/
def div (x y : Bits f) : Bits f := withNumbers quotient x y

/--
The place of a pattern in the total order: negative NaNs, the negative numbers, minus zero, zero,
the positive numbers, positive NaNs.
-/
def rank (x : Bits f) : Int :=
  if x.negative then -Int.ofNat x.magnitude - 1 else x.magnitude

/-- Total order of bit patterns. -/
def compare (x y : Bits f) : Ordering := Ord.compare x.rank y.rank

/-- Whether the pattern is a zero of either sign. -/
def isZero (x : Bits f) : Bool := x.magnitude = 0

end Bits

end RelScript.Ieee
