import RelScript.Expr.Text
import RelScript.Plan.Basic

/-!
The text of a plan: one line for each node and each of its expressions, inputs indented below.
-/

namespace RelScript

/-- Two spaces for each level. -/
def indentation (level : Nat) : String := String.ofList (List.replicate (2 * level) ' ')

/-- Side inputs with commas between them. -/
def sideInputList (ids : List SideInputId) : String := ", ".intercalate (ids.map sideInputText)

/-- The declared columns of a source. -/
def RelationSchema.explain : RelationSchema → String
  | some fields => ", ".intercalate (fields.map fun f => f.name ++ ":" ++ f.type.word)
  | none => "<none>"

/-- The lines of a plan at a level of indentation. -/
def Plan.lines (level : Nat) : Plan → List String
  | load source schema =>
    [indentation level ++ "Load source=" ++ source ++ " schema=(" ++
      RelationSchema.explain schema ++ ")"]
  | relation aliasName => [indentation level ++ "Relation " ++ aliasName]
  | filter predicate input =>
    (indentation level ++ "Filter " ++ predicate.explain) :: input.lines (level + 1)
  | split branch predicate input =>
    (indentation level ++ "Split branch=" ++ branch ++ " if " ++ predicate.explain) ::
      input.lines (level + 1)
  | project columns input =>
    (indentation level ++ "Projection") ::
      (columns.map fun c => indentation level ++ "  " ++ c.name ++ " := " ++ c.value.explain) ++
      input.lines (level + 1)
  | aggregate keys aggregates input =>
    let keyLines :=
      if keys.isEmpty then [indentation level ++ "  group_by=ALL"]
      else (indentation level ++ "  group_by=" ++ toString keys.length) ::
        keys.map fun k => indentation level ++ "    " ++ k.explain
    let aggregateLines := aggregates.map fun a =>
      indentation level ++ "    " ++ a.name ++ " := " ++ a.value.describe
    (indentation level ++ "Aggregate") :: keyLines ++
      (indentation level ++ "  aggs=" ++ toString aggregates.length) :: aggregateLines ++
      input.lines (level + 1)
  | join left right on =>
    (indentation level ++ "Join") ::
      (on.map fun (l, r) => indentation level ++ "  on " ++ l.explain ++ " = " ++ r.explain) ++
      (indentation level ++ "  left:") :: left.lines (level + 2) ++
      (indentation level ++ "  right:") :: right.lines (level + 2)
  | limit count input =>
    (indentation level ++ "Limit n=" ++ toString count) :: input.lines (level + 1)
  | store target input =>
    (indentation level ++ "Store into=" ++ target) :: input.lines (level + 1)
  | sideInputs ids input =>
    (indentation level ++ "SideInputs [" ++ sideInputList ids ++ "]") :: input.lines (level + 1)

/-- Lines as a text, each with a line feed at its end. -/
def textOfLines (lines : List String) : String := String.join (lines.map (· ++ "\n"))

/-- The text of a plan. -/
def Plan.explain (p : Plan) : String := textOfLines (p.lines 0)

end RelScript
