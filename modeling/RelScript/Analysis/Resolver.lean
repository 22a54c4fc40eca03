import RelScript.Error

/-!
Resolution of column references. The columns of an input are the fields of its parts, one after the
other; a part is a relation with its alias, or has no name. A reference finds a column by its name,
which the alias of its relation may qualify, if exactly one column matches.
-/

namespace RelScript

/-- The fields of one relation of an input, under its alias. -/
structure InputPart where
  aliasName : String
  fields : Schema

/-- What the column references of an expression refer to: the parts of a declared input, or an input
whose columns were never declared. -/
inductive Resolver
  | known (parts : List InputPart)
  | unknown

/-- Splits a column text at the first `::`, into the alias and the name of a column. -/
def splitQualifier : List Char → Option (List Char × List Char)
  | ':' :: ':' :: rest => some ([], rest)
  | c :: rest => (splitQualifier rest).map fun (aliasName, name) => (c :: aliasName, name)
  | [] => none

/-- The qualifier of a column text, if it has one, and the name. -/
def columnName (text : String) : Option String × String :=
  match splitQualifier text.toList with
  | some (aliasName, name) => (some (String.ofList aliasName), String.ofList name)
  | none => (none, text)

namespace Resolver

/-- The columns of one relation under its alias. -/
def ofRelation (aliasName : String) : RelationSchema → Resolver
  | some s => known [⟨aliasName, s⟩]
  | none => unknown

/-- Columns that belong to no relation. -/
def anonymous (s : Schema) : Resolver := known [⟨"", s⟩]

/-- The columns of a left input followed by those of a right one. -/
def join : Resolver → Resolver → Resolver
  | known l, known r => known (l ++ r)
  | _, _ => unknown

/-- All columns in order, each with the alias of its relation. -/
def columns (parts : List InputPart) : List (String × Field) :=
  parts.flatMap fun p => p.fields.map fun f => (p.aliasName, f)

/-- The schema of the input. -/
def schema : Resolver → RelationSchema
  | known parts => some ((columns parts).map (·.2))
  | unknown => none

/-- The positions and types of the columns of a name in one part, whose first column is at `base`. A
qualifier rules out the parts of other aliases. -/
def partCandidates (qualifier : Option String) (name : String) (base : Nat) (part : InputPart) :
    List (Nat × DataType) :=
  if qualifier.all (part.aliasName = ·) then
    ((part.fields.zipIdx base).filter fun f => f.1.name = name).map fun f => (f.2, f.1.type)
  else []

/-- The positions and types of the columns of a name in the parts, the first of which begins at
`base`. -/
def candidatesFrom (qualifier : Option String) (name : String) :
    (base : Nat) → List InputPart → List (Nat × DataType)
  | _, [] => []
  | base, part :: parts =>
    partCandidates qualifier name base part ++
      candidatesFrom qualifier name (base + part.fields.length) parts

/-- The positions and types of all columns that a column text refers to. -/
def candidates (parts : List InputPart) (text : String) : List (Nat × DataType) :=
  candidatesFrom (columnName text).1 (columnName text).2 0 parts

/-- The position and the type of the column that a text refers to. -/
def resolve (text : String) : Resolver → Outcome (Nat × DataType)
  | unknown => .error (.planning (.undeclaredInput text))
  | known parts =>
    match candidates parts text with
    | [] => .error (.planning (.unknownColumn text))
    | [found] => .ok found
    | _ :: _ :: _ => .error (.planning (.ambiguousColumn text))

/-- The column at a position, looked for in one part after the other, the first of which begins at
`base`. Past the last part, `base` is the number of columns. -/
def columnFrom (index : Nat) : (base : Nat) → List InputPart → Outcome (String × DataType)
  | base, [] => .error (.planning (.positionOutOfRange index base))
  | base, part :: parts =>
    match part.fields[index - base]? with
    | some f => .ok (f.name, f.type)
    | none => columnFrom index (base + part.fields.length) parts

/-- The name and the type of the column at a position; every position of an undeclared input holds
raw bytes. -/
def position (index : Nat) : Resolver → Outcome (String × DataType)
  | unknown => .ok ("$" ++ toString index, .binary)
  | known parts => columnFrom index 0 parts

end Resolver

end RelScript
