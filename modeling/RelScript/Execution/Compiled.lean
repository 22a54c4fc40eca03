import RelScript.Plan.Basic
import RelScript.Row
import RelScript.Value.Arithmetic
import RelScript.Value.Order

/-!
Expressions that are ready to run over the rows of one schema. A compiled expression is typed:
whatever it evaluates to is a column of its type. The type that it is declared with is another one
only where dates are subtracted. Evaluation goes column by column, both operands of an operator
before the operator itself.
-/

namespace RelScript

/-- What a side input offers to its readers: a single row, or nothing. -/
inductive ScalarBinding
  | empty
  | row (schema : Schema) (row : Row schema)

/-- The side inputs that are bound around an operator. -/
abbrev ScalarBindings := List (SideInputId × ScalarBinding)

/-- The bindings with one more side input, which replaces an earlier binding of it. -/
def ScalarBindings.bind (b : ScalarBindings) (id : SideInputId) (x : ScalarBinding) :
    ScalarBindings :=
  (id, x) :: b.filter (·.1 ≠ id)

/-- Expressions over the rows of a schema, by the type of their values. -/
inductive Compiled (s : Schema) : DataType → Type
  | column (i : Fin s.length) : Compiled s (s.get i).type
  | missing (t : DataType) : Compiled s t
  | literal (v : Literal) : Compiled s v.type
  | bound (t : DataType) (entry : t.Entry) : Compiled s t
  | cast {a : DataType} (e : Compiled s a) (t : DataType) : Compiled s t
  | not {a : DataType} (e : Compiled s a) : Compiled s .boolean
  | junction {a b : DataType} (j : Junction) (l : Compiled s a) (r : Compiled s b) :
    Compiled s .boolean
  | compare {a b : DataType} (c : Comparison) (l : Compiled s a) (r : Compiled s b) :
    Compiled s .boolean
  | arith {a b : DataType} (op : Arithmetic) (l : Compiled s a) (r : Compiled s b) :
    Compiled s (op.resultType a b)
  | concat {a b : DataType} (l : Compiled s a) (r : Compiled s b) : Compiled s .utf8

/-- The type that an expression is declared with. Arithmetic is declared with the type of its
operands, also where a difference of dates is a duration. -/
def Compiled.declared {s : Schema} : {t : DataType} → Compiled s t → DataType
  | _, .arith _ l _ => l.declared
  | t, _ => t

/-- A compiled expression with its type. -/
abbrev AnyCompiled (s : Schema) := (t : DataType) × Compiled s t

/-- The column at a position; a position past the end holds missing raw bytes. -/
def compileColumn (s : Schema) (index : Nat) : AnyCompiled s :=
  if h : index < s.length then ⟨_, .column ⟨index, h⟩⟩ else ⟨.binary, .missing .binary⟩

/-- The value of a placeholder: the field of the bound row, cast to the placeholder's type. A row
without that field, and an empty side input, give a missing value. -/
def Placeholder.value (p : Placeholder) : ScalarBinding → Outcome p.type.Entry
  | .empty => .ok none
  | .row _ r =>
    match r.entries[p.index]? with
    | none => .ok none
    | some ⟨t, entry⟩ => do
      let column : Column t := [entry]
      return (← column.cast p.type).head?.join

/-- Compiles an expression over a schema, reading placeholders from the bindings around it. -/
def Expr.compile (s : Schema) (bindings : ScalarBindings) : Expr → Outcome (AnyCompiled s)
  | columnRef _ index | position index => .ok (compileColumn s index)
  | column name =>
    match Schema.indexOf? s name with
    | some index => .ok (compileColumn s index)
    | none => .error (.planning (.unknownExecutionColumn name))
  | literal v => .ok ⟨_, .literal v⟩
  | cast e t => do
    let ⟨_, e⟩ ← e.compile s bindings
    return ⟨t, .cast e t⟩
  | not e => do
    let ⟨_, e⟩ ← e.compile s bindings
    return ⟨_, .not e⟩
  | junction j l r => do
    let ⟨_, l⟩ ← l.compile s bindings
    let ⟨_, r⟩ ← r.compile s bindings
    return ⟨_, .junction j l r⟩
  | binary l op r => do
    let ⟨_, l⟩ ← l.compile s bindings
    let ⟨_, r⟩ ← r.compile s bindings
    match op with
    | .compare c => return ⟨_, .compare c l r⟩
    | .concat => return ⟨_, .concat l r⟩
    | .arith op =>
      if l.declared = r.declared then return ⟨_, .arith op l r⟩
      else throw (.planning (.missingCasts l.declared r.declared))
  | placeholder p =>
    match bindings.lookup p.sideInput with
    | some binding => do return ⟨p.type, .bound p.type (← p.value binding)⟩
    | none => .error (.execution (.unboundPlaceholder p.aliasName p.index p.sideInput))
  | scalarRef aliasName field => .error (.planning (.scalarInExecution aliasName field))
  | relationRef aliasName => .error (.resolution (.projectionOnly aliasName))

/-- The column, if it has the wanted type. -/
def Column.as? {t : DataType} (c : Column t) (u : DataType) : Option (Column u) :=
  if h : t = u then some (h ▸ c) else none

/-- The column, which has to have the wanted type. -/
def Column.expect {t : DataType} (c : Column t) (u : DataType) (fault : ExecutionFault) :
    Outcome (Column u) :=
  match c.as? u with
  | some d => .ok d
  | none => .error (.execution fault)

/-- Two texts end to end; missing if one of them is. -/
def concatEntries : DataType.utf8.Entry → DataType.utf8.Entry → DataType.utf8.Entry
  | some a, some b => some (String.append a b)
  | _, _ => none

/-- The values of an expression for some rows. -/
def Compiled.eval {s : Schema} (rows : Batch s) : {t : DataType} → Compiled s t → Outcome (Column t)
  | _, .column i => .ok (rows.column i)
  | _, .missing _ => .ok (rows.map fun _ => none)
  | _, .literal v => .ok (rows.map fun _ => v.entry)
  | _, .bound _ entry => .ok (rows.map fun _ => entry)
  | _, .cast e t => do
    let c ← e.eval rows
    c.cast t
  | _, .not e => do
    let c ← e.eval rows
    let c ← c.expect .boolean .notOperand
    return c.map (Option.map Bool.not)
  | _, .junction j l r => do
    let l ← l.eval rows
    let r ← r.eval rows
    let l ← l.expect .boolean .junctionOperand
    let r ← r.expect .boolean .junctionOperand
    return List.zipWith j.holds l r
  | _, @Compiled.compare _ a b c l r => do
    let l ← l.eval rows
    let r ← r.eval rows
    let l ← l.expect b (.operandsDiffer a b)
    return c.column b l r
  | _, .arith op l r => do
    let l ← l.eval rows
    let r ← r.eval rows
    op.column l r
  | _, .concat l r => do
    let l ← l.eval rows
    let r ← r.eval rows
    let l ← l.expect .utf8 .concatOperand
    let r ← r.expect .utf8 .concatOperand
    return List.zipWith concatEntries l r

end RelScript
