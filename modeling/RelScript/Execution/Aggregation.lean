import RelScript.Execution.Batch

/-!
Grouping and aggregation. Groups come in the order of their first rows; without grouping keys all
rows form one group, and without rows there is no group at all.
-/

namespace RelScript

/-- What an aggregate has gathered so far. -/
inductive Accumulator
  | count (n : Whole .int64)
  | sumInt (total : Option (Whole .int64))
  | sumFloat (total : Option (Ieee.Bits .double))
  | least (found : Option Cell)
  | greatest (found : Option Cell)
  | average (total : Ieee.Bits .double) (n : Nat)

/-- An aggregate over the rows of a schema, with the type of its results. -/
structure Measure (s : Schema) where
  fn : AggregateFn
  name : String
  arg : AnyCompiled s

namespace Measure

variable {s : Schema}

/-- The type of the results. -/
def type (m : Measure s) : DataType :=
  match m.fn with
  | .count => .int64
  | .avg => .float64
  | .sum | .min | .max => m.arg.2.declared

/-- The field of the results. -/
def field (m : Measure s) : Field := ⟨m.name, m.type, true⟩

/-- Nothing gathered. -/
def start (m : Measure s) : Accumulator :=
  match m.fn with
  | .count => .count (Whole.zero _)
  | .sum => if m.type = .int64 then .sumInt none else .sumFloat none
  | .min => .least none
  | .max => .greatest none
  | .avg => .average (Ieee.zero .double false) 0

end Measure

namespace Accumulator

/-- Takes a value in that is not missing. -/
def addValue (v : Cell) : Accumulator → Outcome Accumulator
  | count n =>
    match Whole.ofInt? .int64 (n.val + 1) with
    | some next => .ok (count next)
    | none => .error (.execution .countOverflow)
  | sumInt total =>
    match v with
    | .int n =>
      match Whole.ofInt? .int64 ((total.getD (Whole.zero _)).val + n.val) with
      | some next => .ok (sumInt (some next))
      | none => .error (.execution .sumOverflow)
    | _ => .ok (sumInt total)
  | sumFloat total =>
    match v.toDouble? with
    | some x => .ok (sumFloat (some ((total.getD (Ieee.zero _ false)).add x)))
    | none => .ok (sumFloat total)
  | least none => .ok (least (some v))
  | least (some found) => do
    return least (some (if (← v.compare found) = .lt then v else found))
  | greatest none => .ok (greatest (some v))
  | greatest (some found) => do
    return greatest (some (if (← v.compare found) = .gt then v else found))
  | average total n =>
    match v.toDouble? with
    | some x => .ok (average (total.add x) (n + 1))
    | none => .ok (average total n)

/-- Takes a value in; a missing one changes nothing. -/
def add (v : Cell) (a : Accumulator) : Outcome Accumulator :=
  if v.isMissing then .ok a else a.addValue v

/-- The result. -/
def result : Accumulator → Cell
  | count n => .int n
  | sumInt total => total.elim .missing .int
  | sumFloat total => total.elim .missing .float
  | least found | greatest found => found.getD .missing
  | average total n => if n = 0 then .missing else .float (total.div (Ieee.ofInt .double n))

end Accumulator

/-- The rows of one key, as what has been gathered from them. -/
structure Group where
  key : List Cell
  gathered : List Accumulator

/-- Takes the arguments of one row into a group. -/
def Group.add (args : List (Outcome Cell)) (g : Group) : Outcome Group := do
  let gathered ← (g.gathered.zip args).mapM fun (a, arg) => do a.add (← arg)
  return ⟨g.key, gathered⟩

/-- Takes the arguments of one row into the group of its key, which is added if it is new. -/
def addToGroups (start : List Accumulator) (key : List Cell) (args : List (Outcome Cell)) :
    List Group → Outcome (List Group)
  | [] => do return [← Group.add args ⟨key, start⟩]
  | g :: rest =>
    if g.key = key then do return (← g.add args) :: rest
    else do return g :: (← addToGroups start key args rest)

/-- Takes one row into the groups: its key is read first, then its arguments. -/
def addRow (start : List Accumulator) (groups : List Group)
    (row : List (Outcome Cell) × List (Outcome Cell)) : Outcome (List Group) := do
  let key ← row.1.mapM id
  addToGroups start key row.2 groups

/-- The cells of some expressions for some rows, row by row. -/
def evalCells {s : Schema} (es : List (AnyCompiled s)) (rows : Batch s) :
    Outcome (List (List (Outcome Cell))) := do
  let columns ← es.mapM fun e => do return (← e.2.eval rows).map Cell.read
  return transposeCells rows.length columns

/-- Takes a batch into the groups. -/
def addBatch {s : Schema} (keys : List (AnyCompiled s)) (measures : List (Measure s))
    (groups : List Group) (rows : Batch s) : Outcome (List Group) := do
  let keyRows ← evalCells keys rows
  let argRows ← evalCells (measures.map (·.arg)) rows
  (keyRows.zip argRows).foldlM (addRow (measures.map Measure.start)) groups

/-- The fields of the grouping keys and the cells of each of them. -/
def keyColumns {s : Schema} (keys : List (Expr × AnyCompiled s)) (groups : List Group) :
    List (Field × List Cell) :=
  keys.zipIdx.map fun k =>
    (⟨k.1.1.groupName, k.1.2.2.declared, true⟩, groups.map fun g => g.key[k.2]?.getD .missing)

/-- The fields of the aggregates and the results of each of them. -/
def measureColumns {s : Schema} (measures : List (Measure s)) (groups : List Group) :
    List (Field × List Cell) :=
  measures.zipIdx.map fun m =>
    (m.1.field, groups.map fun g => (g.gathered[m.2]?.map Accumulator.result).getD .missing)

/-- The groups as a relation: the keys, then the results. Without a group there is no batch. -/
def groupsToRelation (columns : List (Field × List Cell)) (groups : List Group) :
    Outcome Relation :=
  if groups.isEmpty then .ok ⟨columns.map (·.1), []⟩
  else do
    let b ← Batch.ofCells groups.length columns
    return ⟨_, [← b.check .aggregate]⟩

/-- Compiles a named aggregate. -/
def compileMeasure (s : Schema) (bindings : ScalarBindings) (a : Named Aggregate) :
    Outcome (Measure s) := do
  return ⟨a.value.fn, a.name, ← a.value.arg.compile s bindings⟩

/-- Groups a relation by keys and aggregates each group. -/
def aggregateRelation (input : Relation) (keys : List Expr) (aggregates : List (Named Aggregate))
    (bindings : ScalarBindings) : Outcome Relation := do
  let keys ← keys.mapM fun k => do return (k, ← k.compile input.schema bindings)
  let measures ← aggregates.mapM (compileMeasure input.schema bindings)
  let groups ← input.batches.foldlM (addBatch (keys.map (·.2)) measures) []
  groupsToRelation (keyColumns keys groups ++ measureColumns measures groups) groups

end RelScript
