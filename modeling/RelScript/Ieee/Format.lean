/-!
Binary interchange formats. A finite number is a whole multiple of the least positive number of its
format, so exact arithmetic on finite numbers is arithmetic on natural numbers of such units, and
rounding (`round`) is the one place where a result is brought back to a bit pattern.
-/

namespace RelScript.Ieee

/-- A binary format, given by the number of stored significand bits and of exponent bits. -/
structure Format where
  fraction : Nat
  exponent : Nat
  deriving DecidableEq

namespace Format

/-- The 32-bit format. -/
def single : Format := ⟨23, 8⟩

/-- The 64-bit format. -/
def double : Format := ⟨52, 11⟩

/-- Number of bits of a pattern: sign, exponent and significand. -/
def width (f : Format) : Nat := f.exponent + f.fraction + 1

/-- One, counted in units of the least positive number of the format. -/
def one (f : Format) : Nat := Nat.pow 2 (Nat.pow 2 (f.exponent - 1) - 2 + f.fraction)

/-- The pattern of positive infinity: every exponent bit set, no significand bit. -/
def infinity (f : Format) : Nat := (Nat.pow 2 f.exponent - 1) * Nat.pow 2 f.fraction

/-- The pattern bit that holds the sign. -/
def signBit (f : Format) : Nat := Nat.pow 2 (f.exponent + f.fraction)

/-- The significand bit that tells a quiet NaN from a signalling one. -/
def quietBit (f : Format) : Nat := Nat.pow 2 (f.fraction - 1)

end Format

/-- A bit pattern of the format. -/
structure Bits (f : Format) where
  word : BitVec f.width
  deriving DecidableEq, Hashable

/-- What a bit pattern stands for; a finite number is given by its sign and its units. -/
inductive Number
  | nan
  | infinite (negative : Bool)
  | finite (negative : Bool) (units : Nat)
  deriving DecidableEq

/-- The units of a finite pattern without its sign: the significand, shifted by the exponent. -/
def unitsOf (f : Format) (magnitude : Nat) : Nat :=
  let field := magnitude / Nat.pow 2 f.fraction
  if field = 0 then magnitude
  else (Nat.pow 2 f.fraction + magnitude % Nat.pow 2 f.fraction) * Nat.pow 2 (field - 1)

namespace Bits

variable {f : Format}

/-- Whether the sign bit is set. -/
def negative (x : Bits f) : Bool := f.signBit ≤ x.word.toNat

/-- The pattern without its sign bit. -/
def magnitude (x : Bits f) : Nat := x.word.toNat % f.signBit

/-- Whether the pattern is no number. -/
def isNaN (x : Bits f) : Bool := f.infinity < x.magnitude

/-- The number that a pattern stands for. -/
def number (x : Bits f) : Number :=
  if x.isNaN then .nan
  else if x.magnitude = f.infinity then .infinite x.negative
  else .finite x.negative (unitsOf f x.magnitude)

end Bits

/-- The pattern with the given sign and magnitude. -/
def pattern (f : Format) (negative : Bool) (magnitude : Nat) : Bits f :=
  ⟨BitVec.ofNat f.width (magnitude + if negative then f.signBit else 0)⟩

/-- Zero with the given sign. -/
def zero (f : Format) (negative : Bool) : Bits f := pattern f negative 0

/-- Infinity with the given sign. -/
def infinity (f : Format) (negative : Bool) : Bits f := pattern f negative f.infinity

/-- The quiet NaN without payload, with the given sign. -/
def quietNaN (f : Format) (negative : Bool) : Bits f :=
  pattern f negative (f.infinity + f.quietBit)

/-- The quotient rounded to the nearest natural number, a half to the even neighbour. -/
def roundQuotient (num den : Nat) : Nat :=
  let low := num / den
  let twice := 2 * (num % den)
  if twice < den then low
  else if den < twice then low + 1
  else if low % 2 = 0 then low else low + 1

/--
The magnitude nearest to `num / den` units. The bits that do not fit the significand are rounded
away; a significand that overflows carries into the exponent, and past the largest finite number the
result is infinity.
-/
def roundMagnitude (f : Format) (num den : Nat) : Nat :=
  let dropped := (num / den).log2 - f.fraction
  min (dropped * Nat.pow 2 f.fraction + roundQuotient num (den * Nat.pow 2 dropped)) f.infinity

/-- The pattern nearest to `num / den` units, with the given sign. -/
def round (f : Format) (negative : Bool) (num den : Nat) : Bits f :=
  pattern f negative (roundMagnitude f num den)

/-- The pattern nearest to an integer. -/
def ofInt (f : Format) (n : Int) : Bits f :=
  round f (n < 0) (n.natAbs * f.one) 1

/-- The pattern nearest to `digits * 10 ^ exponent`. -/
def ofDecimal (f : Format) (negative : Bool) (digits : Nat) (exponent : Int) : Bits f :=
  round f negative (digits * Nat.pow 10 exponent.toNat * f.one) (Nat.pow 10 (-exponent).toNat)

/-- The integer part of a finite number: its value with the fraction cut off. -/
def Bits.truncate? {f : Format} (x : Bits f) : Option Int :=
  match x.number with
  | .finite negative units =>
    let whole : Int := Int.ofNat (units / f.one)
    some (if negative then -whole else whole)
  | _ => none

/-- The nearest number of another format. A NaN keeps its sign and the leading bits of its payload,
and becomes quiet. A pattern of the very format is handed on. -/
def Bits.convert {f : Format} (g : Format) (x : Bits f) : Bits g :=
  if h : f = g then h ▸ x
  else match x.number with
  | .nan =>
    let payload := x.magnitude % Nat.pow 2 f.fraction * Nat.pow 2 g.fraction / Nat.pow 2 f.fraction
    pattern g x.negative
      (g.infinity + if payload < g.quietBit then payload + g.quietBit else payload)
  | .infinite negative => infinity g negative
  | .finite negative units => round g negative (units * g.one) f.one

end RelScript.Ieee
