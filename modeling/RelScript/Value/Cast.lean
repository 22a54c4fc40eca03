import RelScript.Calendar
import RelScript.Error
import RelScript.Ieee.Arithmetic
import RelScript.Ieee.Layout
import RelScript.Text.Blank
import RelScript.Value.Duration

/-!
Casts between column types. A conversion exists for a pair of types or it does not; where it exists,
a value that does not fit the target becomes missing.
-/

namespace RelScript

/-- An integer in decimal: an optional sign and at least one digit. -/
def readInteger? (text : List Char) : Option Int :=
  let (negative, digits) := Ieee.splitSign text
  if digits ≠ [] ∧ digits.all Char.isDigit then
    some (if negative then -Int.ofNat (Ieee.digitsValue digits) else Ieee.digitsValue digits)
  else none

/-- The words for true. -/
def trueWords : List String := ["t", "tr", "tru", "true", "y", "ye", "yes", "on", "1"]

/-- The words for false. -/
def falseWords : List String := ["f", "fa", "fal", "fals", "false", "n", "no", "of", "off", "0"]

/-- A truth value: one of its words, in any case, with white space around it. -/
def readBool? (text : String) : Option Bool :=
  let word := String.ofList (Text.trim (text.toList.map Char.toLower))
  if word ∈ trueWords then some true else if word ∈ falseWords then some false else none

/-- The lowest `count` bytes of an integer, the least significant first. -/
def littleEndian : (count : Nat) → Int → List UInt8
  | 0, _ => []
  | count + 1, n => UInt8.ofNat (n % 256).toNat :: littleEndian count (n / 256)

/-- The layout of floats cast to text. -/
def FloatKind.castLayout : FloatKind → Ieee.Layout
  | single => .castSingle
  | double => .castDouble

/-- The day number or moment that an integer stands for, for the integer types that dates take. -/
def dateOfInteger? : (k : IntKind) → (d : DateKind) → Option (Whole k → DataType.Entry (.date d))
  | .int32, .days => some some
  | .int32, .millis => some fun n => Whole.ofInt? .int64 (n.val * Calendar.dayMillis)
  | .int64, .millis => some some
  | .int64, .days => some fun n => Whole.ofInt? .int32 n.val
  | _, _ => none

/-- The integer that a date stands for, for the integer types that dates go to. -/
def integerOfDate? : (d : DateKind) → (k : IntKind) →
    Option (Whole d.store → DataType.Entry (.integer k))
  | _, .int32 => some fun n => Whole.ofInt? .int32 n.val
  | _, .int64 => some fun n => Whole.ofInt? .int64 n.val
  | _, _ => none

/-- A date in the other counting; millisecond dates drop the time and wrap around. -/
def dateOfDate : (a b : DateKind) → Whole a.store → DataType.Entry (.date b)
  | .days, .days, n => some n
  | .millis, .millis, n => some n
  | .days, .millis, n => Whole.ofInt? .int64 (n.val * Calendar.dayMillis)
  | .millis, .days, n => Whole.ofInt? .int32 ((n.val.tdiv Calendar.dayMillis).bmod UInt32.size)

/-- The text of a date, if the calendar covers it. -/
def dateText? : (d : DateKind) → Whole d.store → Option String
  | .days, n => Calendar.writeDay? n.val
  | .millis, n => Calendar.writeMoment? n.val

/-- The date that a text stands for. -/
def readDate? : (d : DateKind) → String → DataType.Entry (.date d)
  | .days, s => (Calendar.readDay? s.toList).bind (Whole.ofInt? .int32)
  | .millis, s => (Calendar.readMillis? s.toList).bind (Whole.ofInt? .int64)

/-- The conversion from one type to another, if there is one. -/
def conversion? : (a b : DataType) → Option (a.Carrier → b.Entry)
  | .null, _ => some fun v => nomatch v
  | .boolean, .boolean => some some
  | .boolean, .integer k => some fun (b : Bool) => Whole.ofInt? k b.toInt
  | .boolean, .float k => some fun (b : Bool) => some (Ieee.ofInt k.format b.toInt)
  | .boolean, .text _ => some fun b => some (Bool.text b)
  | .integer _, .boolean => some fun n => some (n.val != 0)
  | .integer _, .integer k => some fun n => Whole.ofInt? k n.val
  | .integer _, .float k => some fun n => some (Ieee.ofInt k.format n.val)
  | .integer _, .text _ => some fun n => some (toString n.val)
  | .integer k, .bytes _ => some fun n => some ⟨(littleEndian k.width n.val).toArray⟩
  | .integer k, .date d => dateOfInteger? k d
  | .integer _, .duration _ => some fun n => Whole.ofInt? .int64 n.val
  | .float _, .boolean => some fun x => some (!Ieee.Bits.isZero x)
  | .float _, .integer k => some fun x => (Ieee.Bits.truncate? x).bind (Whole.ofInt? k)
  | .float _, .float k => some fun x => some (Ieee.Bits.convert k.format x)
  | .float k, .text _ => some fun x => some (Ieee.Bits.write k.castLayout x)
  | .text _, .boolean => some readBool?
  | .text _, .integer k => some fun s => (readInteger? (String.toList s)).bind (Whole.ofInt? k)
  | .text _, .float k => some fun s => Ieee.read? k.format (String.toList s)
  | .text _, .text _ => some some
  | .text _, .bytes _ => some fun s => some (String.toUTF8 s)
  | .text _, .date d => some (readDate? d)
  | .bytes _, .text _ => some String.fromUTF8?
  | .bytes _, .bytes _ => some some
  | .date d, .integer k => integerOfDate? d k
  | .date d, .text _ => some (dateText? d)
  | .date d, .date e => some (dateOfDate d e)
  | .duration _, .integer k => some fun n => Whole.ofInt? k n.val
  | .duration _, .float k => some fun n => some (Ieee.ofInt k.format n.val)
  | .duration d, .text _ => some fun n => some (d.durationText n)
  | _, _ => none

/-- The number of a date that has no text, when it is cast to text. -/
def beyondCalendar? : (a b : DataType) → a.Carrier → Option Int
  | .date d, .text _, n => if (dateText? d n).isNone then some n.val else none
  | _, _, _ => none

/-- A column cast to another type; a column of that very type is handed on. -/
def Column.convert {a : DataType} (c : Column a) (b : DataType) : Except CastFault (Column b) :=
  if h : a = b then .ok (h ▸ c)
  else match conversion? a b with
    | none => .error (.unsupported a b)
    | some f =>
      match c.findSome? (·.bind (beyondCalendar? a b)) with
      | some n => .error (.beyondCalendar n a)
      | none => .ok (c.map (·.bind f))

/-- A column cast to another type, where raw bytes that take a type are read as text first. -/
def Column.cast {a : DataType} (c : Column a) (b : DataType) : Outcome (Column b) :=
  if a.isUntyped && !b.isUntyped then do
    let text ← (c.convert .utf8).mapError (.execution <| .castToText ·)
    (text.convert b).mapError (.execution <| .cast ·)
  else (c.convert b).mapError (.execution <| .cast ·)

end RelScript
