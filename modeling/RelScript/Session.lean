import RelScript.Config
import RelScript.Execution.UnitRun
import RelScript.Physical.Text

/-!
Sessions: alias definitions, tables, and statements that run at once or, in batch mode, are queued
and run together as one unit.
-/

namespace RelScript

/-- An engine in use. -/
structure Session where
  config : Config
  state : EngineState
  script : Script
  pending : List Statement
  batchMode : Bool
  nextQuery : Nat

namespace Session

/-- A new session; its settings have to be valid. -/
def create (config : Config) : Outcome Session := do
  let config ← config.validate
  return ⟨config, ⟨[], []⟩, .empty, [], config.batchMode, 1⟩

/-- The settings, with the mode that the session is in. -/
def currentConfig (s : Session) : Config := { s.config with batchMode := s.batchMode }

/-- Registers a table. -/
def registerTable (s : Session) (name : String) (table : Relation) : Session :=
  { s with state := { s.state with catalog := s.state.catalog.register name table } }

/-- Registers the table that a text stands for. -/
def registerDelimited (s : Session) (name text : String) : Session :=
  s.registerTable name (.ofDelimited text)

/-- Defines an alias. -/
def define (s : Session) (aliasName : String) (plan : Plan) : Session :=
  { s with script := s.script.define aliasName plan }

/-- Changes the mode. -/
def setBatchMode (s : Session) (on : Bool) : Session := { s with batchMode := on }

/-- How the session runs a unit. -/
def settings (s : Session) : RunSettings :=
  ⟨toString s.nextQuery, s.config.batchSizeRows, s.config.taskParallelism,
    s.config.maxScalarRowBytes⟩

/-- Compiles statements against the definitions, and lowers them. -/
def plan (s : Session) (statements : List Statement) : Outcome (CompiledUnit × PhysicalUnit) := do
  let compiled ← s.script.compile statements
  let unit ← compiled.lower s.config.batchSizeRows
  return (compiled, unit)

/-- Runs statements as one unit. Only a unit that was planned takes a query number. -/
def runUnit (s : Session) (statements : List Statement) : Outcome (List OutputResult) × Session :=
  match s.plan statements with
  | .error e => (.error e, s)
  | .ok (_, unit) =>
    let (results, state) := unit.run s.settings s.state
    (results, { s with state, nextQuery := s.nextQuery + 1 })

/-- Stores the rows of an alias, or queues the store in batch mode. -/
def store (s : Session) (aliasName target : String) : Outcome (Option OutputResult) × Session :=
  let statement : Statement := ⟨aliasName, .store target⟩
  if s.batchMode then (.ok none, { s with pending := s.pending ++ [statement] })
  else
    let (results, s) := s.runUnit [statement]
    (results.map List.getLast?, s)

/-- Runs the queued statements as one unit. The queue is empty afterwards even if the unit fails. -/
def executeBatch (s : Session) : Outcome (List OutputResult) × Session :=
  if s.pending.isEmpty then (.ok [], s)
  else { s with pending := [] }.runUnit s.pending

/-- The rows of an alias. -/
def openAlias (s : Session) (aliasName : String) : Outcome OutputResult × Session :=
  let (results, s) := s.runUnit [⟨aliasName, .collect⟩]
  let last := results.bind fun rs =>
    match rs.getLast? with
    | some r => .ok r
    | none => .error (.execution (.noOutput aliasName))
  (last, s)

/-- The plans of a unit: analyzed plans of statements and side inputs, operator trees, stages. -/
def explainUnit (compiled : CompiledUnit) (unit : PhysicalUnit) : String :=
  "== Logical ==\n" ++
    String.join (compiled.statements.map fun c => "-- " ++ c.aliasName ++ "\n" ++ c.plan.explain) ++
    String.join (compiled.sideInputs.map fun i =>
      "-- side input " ++ sideInputText i.id ++ " (" ++ ", ".intercalate i.aliases ++ ")\n" ++
        i.plan.explain) ++
    "== Physical ==\n" ++ unit.explain ++ "== Stages ==\n" ++ unit.explainStages

/-- The plans of statements. -/
def explainStatements (s : Session) (statements : List Statement) : Outcome String := do
  let (compiled, unit) ← s.plan statements
  return explainUnit compiled unit

/-- The plans of an alias as it would run at once. -/
def explain (s : Session) (aliasName : String) : Outcome String :=
  s.explainStatements [⟨aliasName, .collect⟩]

/-- The plans of the queued statements as one unit. -/
def explainBatch (s : Session) : Outcome String := s.explainStatements s.pending

/-- The names of all tables. -/
def tables (s : Session) : List String := s.state.catalog.names

/-- The text of a table. -/
def readTable (s : Session) (name : String) : Outcome String := s.state.catalog.readDelimited name

end Session

end RelScript
