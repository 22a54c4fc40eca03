import RelScript.Analysis.Basic
import RelScript.Script.Cycle
import RelScript.Script.ScalarBinding
import RelScript.Unit.Registry

/-!
Compilation of statements into one unit. Every alias that the statements reach is compiled once,
after the aliases that it reads: its scalar references are bound, then its plan is analyzed. All
statements of a unit share one registry, so each distinct scalar relation is one side input.
-/

namespace RelScript

/-- A statement with its analyzed plan. The plan of a stored statement ends in the store. -/
structure CompiledStatement where
  aliasName : String
  target : OutputTarget
  plan : Plan
  schema : RelationSchema

/-- Statements compiled together and the side inputs that they share, in dependency order. -/
structure CompiledUnit where
  statements : List CompiledStatement
  sideInputs : List SideInput

/-- A compiled alias. -/
structure CompiledAlias where
  plan : Plan
  schema : RelationSchema

/-- What has been compiled so far. -/
structure Compilation where
  registry : Registry
  compiled : List (String × CompiledAlias)

namespace Compilation

/-- Nothing compiled. -/
def empty : Compilation := ⟨[], []⟩

/-- A compiled alias. -/
def get? (c : Compilation) (aliasName : String) : Option CompiledAlias :=
  c.compiled.lookup aliasName

/-- A compiled alias that has to be there. -/
def find (compiled : List (String × CompiledAlias)) (aliasName : String) : Outcome CompiledAlias :=
  match compiled.lookup aliasName with
  | some a => .ok a
  | none => .error (.planning (.unknownAlias aliasName))

/-- How scalar references in the definition of `consumer` are bound. -/
def scalarScope (compiled : List (String × CompiledAlias)) (consumer : String) :
    ScalarScope Registry where
  schema aliasName := (find compiled aliasName).map (·.schema)
  sideInput aliasName := do
    let a ← (find compiled aliasName : Outcome CompiledAlias)
    let (id, registry) := Registry.register (← get) aliasName a.plan a.schema
    set (registry.addConsumer id consumer)
    return id

/-- What analysis sees of the compiled aliases. -/
def relationScope (script : Script) (compiled : List (String × CompiledAlias)) : RelationScope where
  compiled aliasName := (find compiled aliasName).map (·.plan)
  schema aliasName := (find compiled aliasName).map (·.schema)
  defines := script.defines

/-- Compiles the definition of an alias, whose dependencies are compiled. -/
def add (script : Script) (aliasName : String) (definition : Plan) (c : Compilation) :
    Outcome Compilation := do
  let (bound, registry) ← (scalarScope c.compiled aliasName).bindPlan definition c.registry
  let (plan, schema) ← (relationScope script c.compiled).analyze bound
  return ⟨registry, (aliasName, ⟨plan, schema⟩) :: c.compiled⟩

mutual

/-- Compiles an alias after its dependencies. `pending` lists the defined aliases whose compilation
has not begun. -/
def compileAlias (script : Script) (pending : List String) (c : Compilation) (aliasName : String) :
    Outcome Compilation :=
  if (c.get? aliasName).isSome then .ok c
  else match script.get? aliasName with
    | none => .error (.planning (.unknownAlias aliasName))
    | some definition =>
      if _h : aliasName ∈ pending then do
        let c ← compileAll script (pending.erase aliasName) c definition.dependencies
        c.add script aliasName definition
      else .error (.planning (.notCompiled aliasName))
  termination_by (pending.length, 0)
  decreasing_by exact Prod.Lex.left _ _ (length_erase_lt _h)

/-- Compiles several aliases in order. -/
def compileAll (script : Script) (pending : List String) (c : Compilation) :
    List String → Outcome Compilation
  | [] => .ok c
  | aliasName :: rest => do
    let c ← compileAlias script pending c aliasName
    compileAll script pending c rest
  termination_by aliases => (pending.length, aliases.length + 1)

end

/-- Compiles the alias of a statement, once it is known to be free of cycles. -/
def compileRoot (script : Script) (c : Compilation) (aliasName : String) :
    Outcome (CompiledAlias × Compilation) := do
  script.checkCycles aliasName
  let c ← compileAlias script script.aliases c aliasName
  match c.get? aliasName with
  | some a => return (a, c)
  | none => throw (.planning (.notCompiled aliasName))

/-- The plan of a statement: a stored statement writes its rows. -/
def statementPlan (target : OutputTarget) (plan : Plan) : Plan :=
  match target with
  | .store name => .store name plan
  | .collect => plan

/-- Compiles statements in order. -/
def compileStatements (script : Script) :
    Compilation → List Statement → Outcome (List CompiledStatement × Compilation)
  | c, [] => .ok ([], c)
  | c, s :: rest => do
    let (a, c) ← c.compileRoot script s.aliasName
    let (compiled, c) ← compileStatements script c rest
    return (⟨s.aliasName, s.target, statementPlan s.target a.plan, a.schema⟩ :: compiled, c)

end Compilation

/-- Compiles statements as one unit. The first failure rejects the unit. -/
def Script.compile (script : Script) (statements : List Statement) : Outcome CompiledUnit := do
  let (compiled, c) ← Compilation.compileStatements script .empty statements
  return ⟨compiled, c.registry⟩

end RelScript
