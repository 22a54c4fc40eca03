import RelScript.Error
import RelScript.Ieee.Layout
import RelScript.Row
import RelScript.Text.Utf8
import RelScript.Value.Order

/-!
Cells: values in the widest type of their kind, the form in which rows are grouped, joined,
aggregated and written as text. Reading a column's entry widens it; building a column narrows the
cells again.
-/

namespace RelScript

/-- One value, widened, or none. -/
inductive Cell
  | int (n : Whole .int64)
  | float (x : Ieee.Bits .double)
  | text (s : String)
  | bytes (b : ByteArray)
  | boolean (b : Bool)
  | missing
  deriving DecidableEq, Hashable

namespace Cell

/-- The value as a double, for numbers. -/
def toDouble? : Cell → Option (Ieee.Bits .double)
  | int n => some (Ieee.ofInt .double n)
  | float x => some x
  | _ => none

/-- Whether there is no value. -/
def isMissing : Cell → Bool
  | missing => true
  | _ => false

/-- Number of bytes of the value's content. -/
def size : Cell → Nat
  | int _ | float _ => 8
  | text s => s.utf8ByteSize
  | bytes b => b.size
  | boolean _ => 1
  | missing => 0

/-- Order of two values of one kind. -/
def compare : Cell → Cell → Outcome Ordering
  | int a, int b => .ok (Ord.compare a.val b.val)
  | float a, float b => .ok (Ieee.Bits.compare a b)
  | text a, text b => .ok (Ord.compare a b)
  | bytes a, bytes b => .ok (compareBytes a b)
  | boolean a, boolean b => .ok (compareBool a b)
  | _, _ => .error (.execution .incomparable)

/-- The cell's text in a tuple or in a stored table; a missing value has none. -/
def display : Cell → String
  | int n => toString n.val
  | float x => x.write .field
  | text s => s
  | bytes b => Text.decodeLossy b
  | boolean b => Bool.text b
  | missing => ""

/-- A value, widened. An unsigned integer past the signed range reads as zero. -/
def ofValue : (t : DataType) → t.Carrier → Outcome Cell
  | .null, v => nomatch v
  | .boolean, b => .ok (boolean b)
  | .integer _, n => .ok (int ((Whole.ofInt? .int64 n.val).getD (Whole.zero _)))
  | .float _, x => .ok (float (Ieee.Bits.convert .double x))
  | .text _, s => .ok (text s)
  | .bytes _, b => .ok (bytes b)
  | .date k, _ => .error (.unsupported (.reading (.date k)))
  | .duration k, _ => .error (.unsupported (.reading (.duration k)))

/-- An entry of a column, widened. -/
def read {t : DataType} : t.Entry → Outcome Cell
  | none => .ok missing
  | some v => ofValue t v

/-- A cell as an entry of a column of the given type. Integers out of range become missing, numbers
become floats, and bytes take the text of anything. -/
def narrow : (t : DataType) → Cell → Outcome t.Entry
  | .null, _ => .ok none
  | _, missing => .ok none
  | .boolean, boolean b => .ok (some b)
  | .boolean, _ => .error (.execution (.mixedValues "Boolean"))
  | .integer k, int n => .ok (Whole.ofInt? k n.val)
  | .integer _, _ => .error (.execution (.mixedValues "Int64"))
  | .float k, int n => .ok (some (Ieee.Bits.convert k.format (Ieee.ofInt .double n.val)))
  | .float k, float x => .ok (some (x.convert k.format))
  | .float _, _ => .error (.execution (.mixedValues "Float64"))
  | .text _, text s => .ok (some s)
  | .text _, _ => .error (.execution (.mixedValues "Utf8"))
  | .bytes _, bytes b => .ok (some b)
  | .bytes _, other => .ok (some other.display.toUTF8)
  | .date k, _ => .error (.unsupported (.building (.date k)))
  | .duration k, _ => .error (.unsupported (.building (.duration k)))

/-- A column of the given type from cells. -/
def build : (t : DataType) → List Cell → Outcome (Column t)
  | .date k, _ => .error (.unsupported (.building (.date k)))
  | .duration k, _ => .error (.unsupported (.building (.duration k)))
  | t, cells => cells.mapM (narrow t)

end Cell

/-- The cells of a row, in order. -/
def Row.cells : {s : Schema} → Row s → List (Outcome Cell)
  | [], .nil => []
  | _ :: _, .cons entry rest => Cell.read entry :: rest.cells

/-- The texts of a row's cells, in order. -/
def Row.displays {s : Schema} (r : Row s) : Outcome (List String) :=
  (r.cells.mapM id).map (·.map Cell.display)

end RelScript
