import RelScript.Script.Basic

/-!
The check that no alias depends on itself. Aliases are visited depth first; an alias that is met
again while it is still open closes a cycle, and the open aliases from its first visit on are the
chain.
-/

namespace RelScript.Script

mutual

/--
Visits an alias. `pending` lists the defined aliases that are not open, `path` the open ones and
`done` those whose dependencies are known to be free of cycles. The result is the new `done`, or the
chain of a cycle.
-/
def visit (s : Script) (pending path done : List String) (aliasName : String) :
    Except (List String) (List String) :=
  if aliasName ∈ done then .ok done
  else if aliasName ∈ path then .error (path.dropWhile (· ≠ aliasName) ++ [aliasName])
  else match s.get? aliasName with
    | none => .ok done
    | some plan =>
      if _h : aliasName ∈ pending then do
        let done ← visitAll s (pending.erase aliasName) (path ++ [aliasName]) done plan.dependencies
        return aliasName :: done
      else .ok done
  termination_by (pending.length, 0)
  decreasing_by exact Prod.Lex.left _ _ (length_erase_lt _h)

/-- Visits several aliases in order. -/
def visitAll (s : Script) (pending path done : List String) :
    List String → Except (List String) (List String)
  | [] => .ok done
  | aliasName :: rest => do
    let done ← visit s pending path done aliasName
    visitAll s pending path done rest
  termination_by aliases => (pending.length, aliases.length + 1)

end

/-- Fails with the chain of a cycle if one can be reached from `root`. -/
def checkCycles (s : Script) (root : String) : Outcome Unit :=
  match s.visit s.aliases [] [] root with
  | .ok _ => .ok ()
  | .error chain => .error (.cycle chain)

end RelScript.Script
