import RelScript.Ieee.Format

/-!
The types of columns and the values that each type carries. A value is typed by construction: the
carrier of an integer type holds exactly the integers of that width and sign, a float is its bit
pattern, and the null type has no value at all. No column is declared with durations; they arise as
differences of dates. The column format has more types than these: half floats, decimals, times of
day, timestamps, intervals, and nested, dictionary and view types are left out.
-/

namespace RelScript

/-- The integer types. -/
inductive IntKind
  | int8
  | int16
  | int32
  | int64
  | uint8
  | uint16
  | uint32
  | uint64
  deriving DecidableEq

namespace IntKind

/-- Number of bytes of a value. -/
def width : IntKind → Nat
  | int8 | uint8 => 1
  | int16 | uint16 => 2
  | int32 | uint32 => 4
  | int64 | uint64 => 8

/-- Whether negative values exist. -/
def signed : IntKind → Bool
  | int8 | int16 | int32 | int64 => true
  | uint8 | uint16 | uint32 | uint64 => false

/-- The least value. -/
def least (k : IntKind) : Int := if k.signed then -Int.ofNat (Nat.pow 2 (8 * k.width - 1)) else 0

/-- The greatest value. -/
def greatest (k : IntKind) : Int :=
  Int.ofNat (Nat.pow 2 (if k.signed then 8 * k.width - 1 else 8 * k.width) - 1)

/-- Whether the type has the value. -/
def Holds (k : IntKind) (n : Int) : Prop := k.least ≤ n ∧ n ≤ k.greatest

instance (k : IntKind) (n : Int) : Decidable (k.Holds n) :=
  inferInstanceAs (Decidable (_ ∧ _))

/-- Place in the widening order: signed and unsigned types of one width share it. -/
def rank : IntKind → Nat
  | int8 | uint8 => 1
  | int16 | uint16 => 2
  | int32 | uint32 => 3
  | int64 | uint64 => 4

/-- Name of the type. -/
def name : IntKind → String
  | int8 => "Int8"
  | int16 => "Int16"
  | int32 => "Int32"
  | int64 => "Int64"
  | uint8 => "UInt8"
  | uint16 => "UInt16"
  | uint32 => "UInt32"
  | uint64 => "UInt64"

end IntKind

/-- The integers of one type. -/
abbrev Whole (k : IntKind) := { n : Int // k.Holds n }

/-- The integer as a value of the type, if it is in range. -/
def Whole.ofInt? (k : IntKind) (n : Int) : Option (Whole k) :=
  if h : k.Holds n then some ⟨n, h⟩ else none

/-- Zero belongs to every integer type. -/
def Whole.zero (k : IntKind) : Whole k := ⟨0, by cases k <;> decide⟩

/-- The float types. -/
inductive FloatKind
  | single
  | double
  deriving DecidableEq

/-- The binary format of a float type. -/
def FloatKind.format : FloatKind → Ieee.Format
  | single => .single
  | double => .double

/-- Whether a column of text or bytes addresses its content with short or long offsets. The capacity
that comes with short ones, of 2³¹ - 1 bytes in one column, is left out: both hold any content. -/
inductive Extent
  | short
  | long
  deriving DecidableEq

/-- What a date counts. -/
inductive DateKind
  | days
  | millis
  deriving DecidableEq

/-- The integer type that a date is stored in. -/
def DateKind.store : DateKind → IntKind
  | days => .int32
  | millis => .int64

/-- The types of columns that scripts compute with. -/
inductive DataType
  | null
  | boolean
  | integer (k : IntKind)
  | float (k : FloatKind)
  | text (e : Extent)
  | bytes (e : Extent)
  | date (k : DateKind)
  /-- The time between two dates of a kind: seconds between days, milliseconds between moments. -/
  | duration (k : DateKind)
  deriving DecidableEq

namespace DataType

@[match_pattern] abbrev int32 : DataType := .integer .int32
@[match_pattern] abbrev int64 : DataType := .integer .int64
@[match_pattern] abbrev float64 : DataType := .float .double
@[match_pattern] abbrev utf8 : DataType := .text .short
@[match_pattern] abbrev largeUtf8 : DataType := .text .long
@[match_pattern] abbrev binary : DataType := .bytes .short
@[match_pattern] abbrev largeBinary : DataType := .bytes .long

/-- The values of a type. -/
def Carrier : DataType → Type
  | null => Empty
  | boolean => Bool
  | integer k => Whole k
  | float k => Ieee.Bits k.format
  | text _ => String
  | bytes _ => ByteArray
  | date k => Whole k.store
  | duration _ => Whole .int64

/-- Sequences of bytes are compared byte by byte. -/
instance : DecidableEq ByteArray := fun _ _ => decidable_of_iff _ ByteArray.ext_iff.symm

instance : (t : DataType) → DecidableEq t.Carrier
  | null => inferInstanceAs (DecidableEq Empty)
  | boolean => inferInstanceAs (DecidableEq Bool)
  | integer k => inferInstanceAs (DecidableEq (Whole k))
  | float k => inferInstanceAs (DecidableEq (Ieee.Bits k.format))
  | text _ => inferInstanceAs (DecidableEq String)
  | bytes _ => inferInstanceAs (DecidableEq ByteArray)
  | date k => inferInstanceAs (DecidableEq (Whole k.store))
  | duration _ => inferInstanceAs (DecidableEq (Whole .int64))

/-- A value or none. -/
abbrev Entry (t : DataType) := Option t.Carrier

/-- Name of the type. -/
def name : DataType → String
  | null => "Null"
  | boolean => "Boolean"
  | integer k => k.name
  | float .single => "Float32"
  | float .double => "Float64"
  | utf8 => "Utf8"
  | largeUtf8 => "LargeUtf8"
  | binary => "Binary"
  | largeBinary => "LargeBinary"
  | date .days => "Date32"
  | date .millis => "Date64"
  | duration .days => "Duration(Second)"
  | duration .millis => "Duration(Millisecond)"

/-- The script's word for the type, or its name if the script has none. -/
def word : DataType → String
  | bytes _ => "bytearray"
  | int32 => "int"
  | int64 => "long"
  | float .single => "float"
  | float .double => "double"
  | text _ => "chararray"
  | boolean => "boolean"
  | other => other.name

/-- Whether values of the type are raw bytes, which take their type from the context. -/
def isUntyped : DataType → Bool
  | bytes _ => true
  | _ => false

/-- Whether the type is an integer type. -/
def isInteger : DataType → Bool
  | integer _ => true
  | _ => false

/-- Whether the type is an integer or a float type. -/
def isNumeric : DataType → Bool
  | integer _ | float _ => true
  | _ => false

/-- Whether the type is a text type. -/
def isText : DataType → Bool
  | text _ => true
  | _ => false

/-- Place of a numeric type in the widening order: integers by width, then the floats. -/
def numericRank? : DataType → Option Nat
  | integer k => some k.rank
  | float .single => some 5
  | float .double => some 6
  | _ => none

/-- The wider of two numeric types, the first one if they are equally wide. -/
def wider? (a b : DataType) : Option DataType :=
  match a.numericRank?, b.numericRank? with
  | some ra, some rb => some (if rb ≤ ra then a else b)
  | _, _ => none

end DataType

/-- The values of one column, in row order. -/
abbrev Column (t : DataType) := List t.Entry

/-- Number of missing values; a column of the null type keeps no record of them. -/
def Column.missing {t : DataType} (c : Column t) : Nat :=
  if t = .null then 0 else (c.filter Option.isNone).length

end RelScript
