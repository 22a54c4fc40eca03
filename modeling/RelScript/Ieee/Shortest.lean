import RelScript.Ieee.Format

/-!
The fewest decimal digits that read back as a given binary number. The reals that round to a number
form an interval around it; on the grid of `n`-digit decimals only the two neighbours of the number
itself need to be tested, and the first grid with a neighbour inside the interval wins.
-/

namespace RelScript.Ieee

/-- A decimal number `digits * 10 ^ exponent`. -/
structure Decimal where
  digits : Nat
  exponent : Int
  deriving DecidableEq

/-- Number of decimal digits of a natural number; zero has one. -/
def digitCount (n : Nat) : Nat := (Nat.toDigits 10 n).length

/--
The reals that round to a positive number, as bounds in quarters of a unit. The lower gap is half as
wide where the exponent steps down, and the bounds belong to the interval when the significand is
even.
-/
structure Interval where
  lower : Nat
  upper : Nat
  closed : Bool

/-- The rounding interval of a positive finite magnitude. -/
def intervalOf (f : Format) (magnitude : Nat) : Interval :=
  let step := Nat.pow 2 (magnitude / Nat.pow 2 f.fraction - 1)
  let units := unitsOf f magnitude
  let narrow := magnitude % Nat.pow 2 f.fraction = 0 ∧ Nat.pow 2 f.fraction < magnitude
  { lower := 4 * units - if narrow then step else 2 * step
    upper := 4 * units + 2 * step
    closed := magnitude % 2 = 0 }

/-- Whether the decimal lies in the interval. -/
def Interval.holds (f : Format) (i : Interval) (d : Decimal) : Bool :=
  let value := 4 * d.digits * Nat.pow 10 d.exponent.toNat * f.one
  let scale := Nat.pow 10 (-d.exponent).toNat
  if i.closed then i.lower * scale ≤ value && value ≤ i.upper * scale
  else i.lower * scale < value && value < i.upper * scale

/-- The exponent `k` with `10 ^ (k - 1) ≤ units < 10 ^ k`, for a positive number of units. -/
def decimalPlace (f : Format) (units : Nat) : Int :=
  if f.one ≤ units then digitCount (units / f.one)
  else 1 - (digitCount ((f.one - 1) / units) : Int)

/-- Which of two neighbours is taken where the number lies halfway between them. -/
inductive Tie
  /-- The neighbour whose last digit is even. -/
  | even
  /-- The neighbour farther from zero. -/
  | away
  deriving DecidableEq

/-- The natural number nearest to a quotient. -/
def Tie.nearest (tie : Tie) (num den : Nat) : Nat :=
  match tie with
  | .even => roundQuotient num den
  | .away => (2 * num + den) / (2 * den)

/-- The neighbours of the number on the grid of multiples of `10 ^ exponent`, the nearer one first;
of two at the same distance, the one that `tie` takes. -/
def neighbours (f : Format) (tie : Tie) (units : Nat) (exponent : Int) : List Decimal :=
  let num := units * Nat.pow 10 (-exponent).toNat
  let den := f.one * Nat.pow 10 exponent.toNat
  let low := num / den
  let below : Decimal := ⟨low, exponent⟩
  let above : Decimal := ⟨low + 1, exponent⟩
  if tie.nearest num den = low then [below, above] else [above, below]

/-- Tries the grids of `count`, `count + 1`, … digits, `tries` of them. -/
def searchGrids (f : Format) (tie : Tie) (units : Nat) (i : Interval) (place : Int) :
    (tries count : Nat) → Decimal
  | 0, count => ⟨tie.nearest (units * Nat.pow 10 (count - place).toNat)
      (f.one * Nat.pow 10 (place - count).toNat), place - count⟩
  | tries + 1, count =>
    match (neighbours f tie units (place - count)).find? (i.holds f) with
    | some d => d
    | none => searchGrids f tie units i place tries (count + 1)

/-- The digits without trailing zeros, which move into the exponent. -/
def Decimal.strip (d : Decimal) : Decimal :=
  if d.digits = 0 then d
  else if d.digits % 10 = 0 then Decimal.strip ⟨d.digits / 10, d.exponent + 1⟩ else d
  termination_by d.digits

/-- The fewest digits that read back as the positive finite magnitude, and of these the nearest. -/
def shortest (f : Format) (tie : Tie) (magnitude : Nat) : Decimal :=
  let units := unitsOf f magnitude
  (searchGrids f tie units (intervalOf f magnitude) (decimalPlace f units) 17 1).strip

end RelScript.Ieee
