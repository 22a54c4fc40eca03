import RelScript.DataType
import RelScript.Ieee.Arithmetic
import RelScript.Operator

/-!
The order of values. Floats follow the total order of bit patterns, text and bytes compare bytewise,
and false comes before true. A comparison with a missing value is missing.
-/

namespace RelScript

/-- Order of byte strings, byte by byte. -/
def compareBytes (a b : ByteArray) : Ordering := compareOfLessAndEq a.toList b.toList

/-- Order of truth values. -/
def compareBool (a b : Bool) : Ordering := Ord.compare a.toNat b.toNat

/-- Order of the values of a type. -/
def DataType.compare : (t : DataType) → t.Carrier → t.Carrier → Ordering
  | .null, a, _ => nomatch a
  | .boolean, a, b => compareBool a b
  | .integer _, a, b => Ord.compare a.val b.val
  | .float _, a, b => Ieee.Bits.compare a b
  | .text _, a, b => Ord.compare (α := String) a b
  | .bytes _, a, b => compareBytes a b
  | .date _, a, b => Ord.compare a.val b.val
  | .duration _, a, b => Ord.compare a.val b.val

/-- Whether a comparison holds between two entries. -/
def Comparison.holds (c : Comparison) (t : DataType) : t.Entry → t.Entry → DataType.boolean.Entry
  | some a, some b => some (c.accepts (t.compare a b))
  | _, _ => none

/-- A comparison of two columns, row by row. -/
def Comparison.column (c : Comparison) (t : DataType) (l r : Column t) : Column .boolean :=
  List.zipWith (c.holds t) l r

/-- A connective of two truth values of which one may be missing: it is known as soon as one operand
decides it. -/
def Junction.holds : Junction → DataType.boolean.Entry → DataType.boolean.Entry →
    DataType.boolean.Entry
  | .and, some false, _ => some false
  | .and, _, some false => some false
  | .and, some true, some true => some true
  | .or, some true, _ => some true
  | .or, _, some true => some true
  | .or, some false, some false => some false
  | _, _, _ => none

end RelScript
