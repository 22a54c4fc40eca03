import RelScript.Encoding.Plan

/-!
The side inputs of a unit. A scalar alias is registered with its compiled plan; aliases whose plans
have one fingerprint share a side input. A side input's number is its place in the registry.
-/

namespace RelScript

/-- A scalar relation that a unit materializes once. -/
structure SideInput where
  id : SideInputId
  aliases : List String
  plan : Plan
  schema : RelationSchema
  fingerprint : String
  consumers : List String

/-- The alias that names the side input in messages: the first one registered. -/
def SideInput.aliasName (s : SideInput) : String := s.aliases.head?.getD ""

/-- The side inputs registered so far, by number. -/
abbrev Registry := List SideInput

namespace Registry

/-- Registers an alias. An alias that is known keeps its side input, a plan that is known lends its
side input to the alias, and any other plan becomes a new side input. -/
def register (r : Registry) (aliasName : String) (plan : Plan) (schema : RelationSchema) :
    SideInputId × Registry :=
  match r.find? (aliasName ∈ ·.aliases) with
  | some s => (s.id, r)
  | none =>
    match r.find? (·.fingerprint = plan.fingerprint) with
    | some s =>
      (s.id, r.map fun t =>
        if t.id = s.id then { t with aliases := t.aliases ++ [aliasName] } else t)
    | none =>
      let id := r.length
      (id, r ++ [⟨id, [aliasName], plan, schema, plan.fingerprint, []⟩])

/-- Notes that an alias reads a side input. -/
def addConsumer (r : Registry) (id : SideInputId) (consumer : String) : Registry :=
  r.map fun t =>
    if t.id = id ∧ consumer ∉ t.consumers then { t with consumers := t.consumers ++ [consumer] }
    else t

end Registry

end RelScript
