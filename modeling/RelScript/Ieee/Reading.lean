import RelScript.Ieee.Shortest

/-!
Reading decimal text. A number is an optional sign, digits with an optional point on either side of
them or between them, and an optional exponent; `nan`, `inf` and `infinity` are read in any case.
-/

namespace RelScript.Ieee

/-- Splits an optional sign off; the flag says whether it was a minus. -/
def splitSign : List Char → Bool × List Char
  | '-' :: rest => (true, rest)
  | '+' :: rest => (false, rest)
  | text => (false, text)

/-- The number that a run of decimal digits stands for. -/
def digitsValue (digits : List Char) : Nat :=
  digits.foldl (fun n c => n * 10 + (c.toNat - '0'.toNat)) 0

/-- The exponent part: nothing, or an `e` with an optional sign and at least one digit. -/
def readExponent? : List Char → Option Int
  | [] => some 0
  | c :: rest =>
    let (negative, digits) := splitSign rest
    if (c = 'e' ∨ c = 'E') ∧ digits ≠ [] ∧ digits.all Char.isDigit then
      some (if negative then -digitsValue digits else digitsValue digits)
    else none

/-- Digits, an optional point with digits, and an exponent; at least one digit is required. -/
def readDecimal? (text : List Char) : Option Decimal :=
  let whole := text.takeWhile Char.isDigit
  let rest := text.dropWhile Char.isDigit
  let (fraction, rest) := match rest with
    | '.' :: tail => (tail.takeWhile Char.isDigit, tail.dropWhile Char.isDigit)
    | other => ([], other)
  if whole = [] ∧ fraction = [] then none
  else (readExponent? rest).map fun e => ⟨digitsValue (whole ++ fraction), e - fraction.length⟩

/-- The nearest number to a decimal; far outside the range of the format no power is computed. -/
def ofDecimalClamped (f : Format) (negative : Bool) (d : Decimal) : Bits f :=
  let place := d.exponent + digitCount d.digits
  if d.digits = 0 ∨ place < -400 then zero f negative
  else if 400 < place then infinity f negative
  else ofDecimal f negative d.digits d.exponent

/-- The number written by the text. -/
def read? (f : Format) (text : List Char) : Option (Bits f) :=
  let (negative, rest) := splitSign text
  let word := rest.map Char.toLower
  if word = "nan".toList then some (quietNaN f negative)
  else if word = "inf".toList ∨ word = "infinity".toList then some (infinity f negative)
  else (readDecimal? rest).map (ofDecimalClamped f negative)

end RelScript.Ieee
