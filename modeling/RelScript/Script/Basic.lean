import RelScript.Plan.Basic

/-!
Scripts: alias definitions in the order in which the aliases were first defined, and the statements
that ask for rows.
-/

namespace RelScript

/-- The definitions of a script. -/
structure Script where
  definitions : List (String × Plan)

namespace Script

/-- A script without definitions. -/
def empty : Script := ⟨[]⟩

/-- The definition of an alias. -/
def get? (s : Script) (aliasName : String) : Option Plan := s.definitions.lookup aliasName

/-- Whether the alias is defined. -/
def defines (s : Script) (aliasName : String) : Bool := (s.get? aliasName).isSome

/-- The aliases in definition order. -/
def aliases (s : Script) : List String := s.definitions.map (·.1)

/-- Defines an alias. A second definition replaces the first one in its place. -/
def define (s : Script) (aliasName : String) (plan : Plan) : Script :=
  if s.defines aliasName then
    ⟨s.definitions.map fun d => if d.1 = aliasName then (aliasName, plan) else d⟩
  else ⟨s.definitions ++ [(aliasName, plan)]⟩

theorem mem_of_get? {script : Script} {a : String} {d : Plan} (h : script.get? a = some d) :
    (a, d) ∈ script.definitions := by
  rw [get?, List.lookup_eq_some_iff] at h
  obtain ⟨before, after, hsplit, -⟩ := h
  rw [hsplit]
  exact List.mem_append_right _ List.mem_cons_self

theorem mem_aliases_of_get? {script : Script} {a : String} {d : Plan}
    (h : script.get? a = some d) : a ∈ script.aliases :=
  List.mem_map_of_mem (mem_of_get? h)

end Script

theorem length_erase_lt {α : Type} [DecidableEq α] {items : List α} {a : α} (h : a ∈ items) :
    (items.erase a).length < items.length := by
  rw [List.length_erase_of_mem h]
  have := List.length_pos_of_mem h
  omega

/-- Where the rows of a statement go: into a named table, or back to the caller. -/
inductive OutputTarget
  | store (name : String)
  | collect
  deriving DecidableEq

/-- A request for the rows of an alias. -/
structure Statement where
  aliasName : String
  target : OutputTarget
  deriving DecidableEq

end RelScript
