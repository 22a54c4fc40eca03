import RelScript.Ieee.Shortest

/-!
Written forms of binary numbers. All of them write the fewest digits that read back; a `Layout` says
when the digits are written positionally, how an exponent looks, and which way a tie goes.
-/

namespace RelScript.Ieee

/-- How a number is written. -/
structure Layout where
  /-- Numbers below `10 ^ least` are written with an exponent. -/
  least : Int
  /-- Numbers from `10 ^ most` on are written with an exponent. -/
  most : Int
  /-- A whole number written positionally ends in `.0`. -/
  pointZero : Bool
  /-- A positive exponent carries its sign. -/
  plus : Bool
  /-- Which of two equally near decimals is written. -/
  tie : Tie

namespace Layout

/-- Tuple fields and plan texts: positional from `0.0001` up to `10 ^ 16`. -/
def field : Layout := ⟨-4, 16, true, false, .away⟩

/-- Canonical plan encodings: positional from `0.00001` up to `10 ^ 16`. -/
def document : Layout := ⟨-5, 16, true, true, .even⟩

/-- Doubles cast to text: positional from `0.00001` up to `10 ^ 16`. -/
def castDouble : Layout := ⟨-5, 16, true, false, .even⟩

/-- Singles cast to text: positional from `0.000001` up to `10 ^ 13`. -/
def castSingle : Layout := ⟨-6, 13, true, false, .even⟩

/-- Sample values: always positional, whole numbers without a point. -/
def sample : Layout := ⟨-400, 400, false, false, .away⟩

end Layout

/-- A run of zeros. -/
def zeros (n : Nat) : String := String.ofList (List.replicate n '0')

/-- Digits with a point after the first `place` of them, zeros filling the gaps. -/
def positional (layout : Layout) (digits : String) (place : Int) : String :=
  let count : Int := digits.length
  if place ≤ 0 then "0." ++ zeros (-place).toNat ++ digits
  else if place < count then
    String.ofList (digits.toList.take place.toNat) ++ "." ++
      String.ofList (digits.toList.drop place.toNat)
  else digits ++ zeros (place - count).toNat ++ if layout.pointZero then ".0" else ""

/-- One digit, the others after a point, and the exponent of the first digit. -/
def scientific (layout : Layout) (digits : String) (exponent : Int) : String :=
  let head := String.ofList (digits.toList.take 1)
  let tail := String.ofList (digits.toList.drop 1)
  let point := if tail.isEmpty then "" else "." ++ tail
  let plus := if layout.plus && 0 ≤ exponent then "+" else ""
  head ++ point ++ "e" ++ plus ++ toString exponent

/-- A finite magnitude in the given layout. -/
def writeMagnitude (layout : Layout) (f : Format) (magnitude : Nat) : String :=
  if magnitude = 0 then if layout.pointZero then "0.0" else "0"
  else
    let d := shortest f layout.tie magnitude
    let digits := toString d.digits
    let place := d.exponent + digits.length
    if layout.least < place && place ≤ layout.most then positional layout digits place
    else scientific layout digits (place - 1)

/-- A number in the given layout; NaN has no sign. -/
def Bits.write {f : Format} (layout : Layout) (x : Bits f) : String :=
  let sign := if x.negative then "-" else ""
  match x.number with
  | .nan => "NaN"
  | .infinite _ => sign ++ "inf"
  | .finite _ _ => sign ++ writeMagnitude layout f x.magnitude

end RelScript.Ieee
