import RelScript.Execution.Compiled
import RelScript.Value.Cell

/-!
Building batches: columns side by side, checked against the schema, and batches cut into slices of a
size or into parts for parallel tasks.
-/

namespace RelScript

/-- The first field that must not miss values but does. -/
def Batch.violation? {s : Schema} (b : Batch s) : Option String :=
  ((List.finRange s.length).find? fun i =>
    !(s.get i).nullable && decide (0 < (b.column i).missing)).map fun i => (s.get i).name

/-- The batch, which must have a column and no missing values where they are not allowed. -/
def Batch.check {s : Schema} (site : BatchSite) (b : Batch s) : Outcome (Batch s) :=
  if s.isEmpty then .error (.execution (.batch site .noColumns))
  else match b.violation? with
    | some name => .error (.execution (.batch site (.missingValue name)))
    | none => .ok b

/-- The cells of the columns of a batch, column by column. -/
def Batch.cellColumns {s : Schema} (b : Batch s) : List (List (Outcome Cell)) :=
  (List.finRange s.length).map fun i => (b.column i).map Cell.read

/-- Rows from columns of cells, for a given number of rows. -/
def transposeCells {α : Type} (count : Nat) (columns : List (List α)) : List (List α) :=
  columns.foldr (List.zipWith List.cons) (List.replicate count [])

/-- A batch of the given fields from columns of cells. -/
def Batch.ofCells (count : Nat) : (columns : List (Field × List Cell)) →
    Outcome (Batch (columns.map (·.1)))
  | [] => .ok (Batch.blank count)
  | (f, cells) :: rest => do
    let c ← Cell.build f.type cells
    let b ← ofCells count rest
    return Batch.consColumn c b

/-- The rows cut into slices of `size` rows; the last slice may be shorter, and none is empty. -/
def slices {α : Type} (size : Nat) (rows : List α) : List (List α) :=
  match rows with
  | [] => []
  | row :: rest => (row :: rest).take (max size 1) :: slices size ((row :: rest).drop (max size 1))
  termination_by rows.length
  decreasing_by simp only [List.length_drop, List.length_cons]; omega

/-- Fills parts of `size` rows from batches. `open_` holds the slices of the part being filled,
which still has room for `room` rows. -/
def fillParts {α : Type} (size : Nat) (open_ : List (List α)) (room : Nat) :
    List (List α) → List (List (List α))
  | [] => if open_.isEmpty then [] else [open_]
  | [] :: batches => fillParts size open_ room batches
  | (row :: rows) :: batches =>
    if rows.length + 1 < room then
      fillParts size (open_ ++ [row :: rows]) (room - (rows.length + 1)) batches
    else
      (open_ ++ [(row :: rows).take (max room 1)]) ::
        fillParts size [] size ((row :: rows).drop (max room 1) :: batches)
  termination_by batches => (batches.flatten.length, batches.length)
  decreasing_by
    · simp only [List.flatten_cons, List.nil_append, List.length_cons]
      exact Prod.Lex.right _ (by omega)
    · simp only [List.flatten_cons, List.length_append, List.length_cons]
      exact Prod.Lex.left _ _ (by omega)
    · simp only [List.flatten_cons, List.length_append, List.length_cons, List.length_drop]
      exact Prod.Lex.left _ _ (by omega)

/-- The batches cut into at most `tasks` parts of similar size, in row order. Every part but the
last holds the same number of rows; without any row there is one empty part. -/
def partition {α : Type} (tasks : Nat) (batches : List (List α)) : List (List (List α)) :=
  let total := batches.flatten.length
  if total = 0 then [[]]
  else
    let size := (total + (max tasks 1 - 1)) / max tasks 1
    fillParts size [] size batches

end RelScript
