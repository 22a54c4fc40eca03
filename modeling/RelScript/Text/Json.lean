import RelScript.Ieee.Layout

/-!
JSON documents and their compact text: no spaces, fields in the order given. Numbers that are not
finite are written as `null`, and strings escape only the quote, the backslash and the controls.
-/

namespace RelScript.Text

/-- A JSON document whose numbers are integers or doubles. -/
inductive Json
  | null
  | bool (b : Bool)
  | int (n : Int)
  | float (x : Ieee.Bits .double)
  | string (s : String)
  | array (items : List Json)
  | object (fields : List (String × Json))

namespace Json

/-- A hexadecimal number padded to two digits. -/
def hexByte (n : Nat) : List Char :=
  let digits := Nat.toDigits 16 n
  List.replicate (2 - digits.length) '0' ++ digits

/-- One character of a JSON string. -/
def escapeChar (c : Char) : List Char :=
  if c = '"' then ['\\', '"']
  else if c = '\\' then ['\\', '\\']
  else if c = '\x08' then ['\\', 'b']
  else if c = '\x0c' then ['\\', 'f']
  else if c = '\n' then ['\\', 'n']
  else if c = '\r' then ['\\', 'r']
  else if c = '\t' then ['\\', 't']
  else if c.toNat < 0x20 then ['\\', 'u', '0', '0'] ++ hexByte c.toNat
  else [c]

/-- A JSON string. -/
def quoted (s : String) : String :=
  String.ofList ('"' :: s.toList.flatMap escapeChar ++ ['"'])

/-- A JSON number; `null` stands for what is not finite. -/
def number (x : Ieee.Bits .double) : String :=
  match x.number with
  | .finite _ _ => x.write .document
  | _ => "null"

mutual

/-- The compact text of a document. -/
def render : Json → String
  | .null => "null"
  | .bool b => if b then "true" else "false"
  | .int n => toString n
  | .float x => number x
  | .string s => quoted s
  | .array items => "[" ++ renderItems items ++ "]"
  | .object fields => "\x7b" ++ renderFields fields ++ "\x7d"

/-- The items of an array, with commas between them. -/
def renderItems : List Json → String
  | [] => ""
  | [item] => render item
  | item :: rest => render item ++ "," ++ renderItems rest

/-- The fields of an object, with commas between them. -/
def renderFields : List (String × Json) → String
  | [] => ""
  | [(key, value)] => quoted key ++ ":" ++ render value
  | (key, value) :: rest => quoted key ++ ":" ++ render value ++ "," ++ renderFields rest

end

/-- An object with one field, the form of a tagged value. -/
def tagged (tag : String) (value : Json) : Json := .object [(tag, value)]

/-- An array of strings. -/
def strings (items : List String) : Json := .array (items.map .string)

/-- An array of natural numbers. -/
def naturals (items : List Nat) : Json := .array (items.map fun n => .int (Int.ofNat n))

end Json

end RelScript.Text
