import RelScript.Execution.Batch
import RelScript.Text.Blank

/-!
Stored tables and their text form: one line for each row, cells separated by tabs. Loaded text is
untyped: its columns hold raw bytes and have no names but their positions.
-/

namespace RelScript

/-- Rows of one schema, with the schema that they were built for. -/
structure TypedBatch where
  schema : Schema
  rows : Batch schema

/-- Between the cells of a line. -/
def delimiter : Char := '\t'

/-- The field of an untyped column at a position. -/
def positionalField (index : Nat) : Field := ⟨"$" ++ toString index, .binary, true⟩

/-- The untyped columns at the given positions. -/
def positionalFields (positions : List Nat) : Schema := positions.map positionalField

/-- Untyped columns of a given number. -/
def positionalSchema (width : Nat) : Schema := positionalFields (List.range width)

/-- A row of untyped cells, taken from the front of a list; missing ones at the end. -/
def untypedRow : (positions : List Nat) → List ByteArray → Row (positionalFields positions)
  | [], _ => .nil
  | _ :: rest, [] => .cons none (untypedRow rest [])
  | _ :: rest, cell :: cells => .cons (some cell) (untypedRow rest cells)

/-- A batch of untyped columns. -/
def untypedBatch (count : Nat) : (positions : List Nat) → List (Column .binary) →
    Batch (positionalFields positions)
  | [], _ => Batch.blank count
  | _ :: rest, [] => Batch.consColumn (List.replicate count none) (untypedBatch count rest [])
  | _ :: rest, c :: cs => Batch.consColumn c (untypedBatch count rest cs)

/-- The rows of a batch, which has to have the wanted schema. -/
def TypedBatch.expect (schema : Schema) (b : TypedBatch) : Outcome (Batch schema) :=
  if h : b.schema = schema then .ok (h ▸ b.rows)
  else .error (.config (.batchSchema b.schema schema))

/-- A table from batches, which all have to have the table's schema. -/
def Relation.ofBatches (schema : Schema) (batches : List TypedBatch) : Outcome Relation := do
  return ⟨schema, ← batches.mapM (TypedBatch.expect schema)⟩

/-- The cells of the lines that are not blank. -/
def delimitedCells (text : String) : List (List ByteArray) :=
  ((Text.lines text.toList).filter fun line => !line.all Text.isBlank).map fun line =>
    (Text.pieces delimiter line).map fun cell => (String.ofList cell).toUTF8

/-- The table that a text stands for. It is as wide as its widest line; cells are missing at the end
of shorter lines, and blank lines are left out. -/
def Relation.ofDelimited (text : String) : Relation :=
  let rows := delimitedCells text
  let width := (rows.map List.length).foldl max 0
  if rows.isEmpty then ⟨positionalSchema width, []⟩
  else ⟨positionalSchema width, [rows.map (untypedRow (List.range width))]⟩

/-- The text of the table: a line for each row, missing cells being empty. -/
def Relation.toDelimited (r : Relation) : Outcome String := do
  let lines ← r.rows.mapM Row.displays
  return String.join (lines.map fun cells => delimiter.toString.intercalate cells ++ "\n")

/-- A batch as it is stored: every cell's bytes or the bytes of its text. -/
def encodeBatch {s : Schema} (b : Batch s) : Outcome (Batch (positionalSchema s.length)) := do
  let columns ← b.cellColumns.mapM fun c => do Cell.build .binary (← c.mapM id)
  return untypedBatch b.length (List.range s.length) columns

/-- The rows as they are stored: names and types are dropped. -/
def Relation.encode (r : Relation) : Outcome Relation := do
  return ⟨positionalSchema r.schema.length, ← r.batches.mapM encodeBatch⟩

/-- Name of the scan over a stored table. -/
def Relation.scanName : String := "MemScanNode"

/-- The rows in batches of a given size. -/
def Relation.rebatch (size : Nat) (r : Relation) : Relation :=
  ⟨r.schema, r.batches.flatMap (slices size)⟩

end RelScript
