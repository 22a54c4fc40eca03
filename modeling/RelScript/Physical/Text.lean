import RelScript.Physical.Stage
import RelScript.Plan.Text

/-!
The texts of a unit: its operator trees, and its stages.
-/

namespace RelScript

/-- The content of an operator, after its name. -/
def Operator.detail : Operator → String
  | scan source _ _ => " source=" ++ source
  | filter predicate _ => " " ++ predicate.explain
  | project columns _ =>
    " [" ++ ", ".intercalate (columns.map fun c => c.name ++ " := " ++ c.value.explain) ++ "]"
  | hashAggregate keys _ _ => " groups=" ++ toString keys.length
  | hashJoin _ _ on => " keys=" ++ toString on.length
  | limit count _ => " n=" ++ toString count
  | store target _ => " into=" ++ target
  | broadcast ids _ => " [" ++ sideInputList ids ++ "]"

/-- The line of one operator. -/
def Operator.line (level : Nat) (o : Operator) : String := indentation level ++ o.name ++ o.detail

/-- The lines of an operator tree at a level of indentation. -/
def Operator.lines (level : Nat) : Operator → List String
  | scan s c b => [line level (scan s c b)]
  | filter e i => line level (filter e i) :: i.lines (level + 1)
  | project cs i => line level (project cs i) :: i.lines (level + 1)
  | hashAggregate ks as i => line level (hashAggregate ks as i) :: i.lines (level + 1)
  | hashJoin l r on =>
    line level (hashJoin l r on) :: (l.lines (level + 1) ++ r.lines (level + 1))
  | limit n i => line level (limit n i) :: i.lines (level + 1)
  | store t i => line level (store t i) :: i.lines (level + 1)
  | broadcast ids i => line level (broadcast ids i) :: i.lines (level + 1)

/-- A list of quoted texts. -/
def quotedList (items : List String) : String :=
  "[" ++ ", ".intercalate (items.map Text.quote) ++ "]"

/-- The full form of a target. -/
def OutputTarget.describe : OutputTarget → String
  | store name => "Store(" ++ Text.quote name ++ ")"
  | collect => "Collect"

/-- The text of a unit: side inputs first, then outputs. -/
def PhysicalUnit.explain (u : PhysicalUnit) : String :=
  textOfLines <|
    (u.sideInputs.flatMap fun s =>
      ("SideInput " ++ sideInputText s.id ++ " alias=" ++ s.aliasName ++ " consumers=" ++
        quotedList s.consumers) :: s.plan.lines 1) ++
    u.outputs.flatMap fun o =>
      ("Output alias=" ++ o.aliasName ++ " target=" ++ o.target.describe) :: o.plan.lines 1

/-- Stage numbers in brackets. -/
def stageList (ids : List Nat) : String := "[" ++ ", ".intercalate (ids.map toString) ++ "]"

/-- What a stage produces. -/
def StageKind.explain : StageKind → String
  | sideInput id => "side input " ++ sideInputText id
  | output aliasName => "output " ++ aliasName

/-- The line of a stage. -/
def Stage.line (s : Stage) : String :=
  "stage " ++ toString s.id ++ " " ++ s.kind.explain ++ " after " ++ stageList s.parents ++ ": " ++
    " <- ".intercalate s.operators

/-- The text of a unit's stages. -/
def PhysicalUnit.explainStages (u : PhysicalUnit) : String :=
  textOfLines (("roots " ++ stageList u.rootStages) :: u.stages.map Stage.line)

end RelScript
