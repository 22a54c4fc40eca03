import RelScript.DataType
import RelScript.Text.Quoted

/-!
Named, typed columns. A relation whose columns were never declared has no schema at all, which is
different from a schema without columns.
-/

namespace RelScript

/-- A named column of a type; `nullable` says whether values may be missing. The metadata that the
column format lets a field carry is left out. -/
structure Field where
  name : String
  type : DataType
  nullable : Bool
  deriving DecidableEq

/-- The columns of a relation, in order. Metadata of the schema as a whole is left out. -/
abbrev Schema := List Field

/-- The declared columns of a relation, or none if it was never declared. -/
abbrev RelationSchema := Option Schema

/-- Position of the first field with the name. -/
def Schema.indexOf? (s : Schema) (name : String) : Option Nat := s.findIdx? (·.name = name)

/-- Position of the first field with the name, if the relation is declared. -/
def RelationSchema.fieldIndex? (s : RelationSchema) (name : String) : Option Nat :=
  s.bind (Schema.indexOf? · name)

/-- Type of the field at a position, if the relation is declared and has it. -/
def RelationSchema.fieldType? (s : RelationSchema) (index : Nat) : Option DataType :=
  s.bind fun fields => fields[index]?.map (·.type)

/-- Text of a truth value. -/
def Bool.text (b : Bool) : String := if b then "true" else "false"

/-- Full text of a field without metadata, for messages. -/
def Field.describe (f : Field) : String :=
  "Field \x7b name: " ++ Text.quote f.name ++ ", data_type: " ++ f.type.name ++ ", nullable: " ++
    Bool.text f.nullable ++ ", dict_id: 0, dict_is_ordered: false, metadata: \x7b\x7d \x7d"

/-- Full text of a schema without metadata, for messages. -/
def Schema.describe (s : Schema) : String :=
  "Schema \x7b fields: [" ++ ", ".intercalate (s.map Field.describe) ++ "], metadata: \x7b\x7d \x7d"

end RelScript
