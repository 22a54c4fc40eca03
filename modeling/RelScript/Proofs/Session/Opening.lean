import RelScript.Proofs.Unit.Acceptance
import RelScript.Proofs.Unit.Restriction
import RelScript.Proofs.Unit.Simulation
import RelScript.Session

/-!
Opening an alias: the run that gives its rows, which of two runs give the same, and that no
definitions matter but those that the alias reaches.
-/

namespace RelScript

theorem Script.IsLegible.restrict {script : Script} (h : script.IsLegible) (roots : List String) :
    (script.restrict roots).IsLegible where
  isScripted d hd := h.isScripted d (List.mem_of_mem_filter hd)
  storesNothing d hd := h.storesNothing d (List.mem_of_mem_filter hd)
  toldApart d hd d' hd' :=
    h.toldApart d (List.mem_of_mem_filter hd) d' (List.mem_of_mem_filter hd')

namespace Session

variable {s : Session}

/-- The run that opens an alias: what was compiled, the operator tree, and the slots and the state
from which it runs. -/
structure Opens (s : Session) (a : String) (c : Compilation) (x : CompiledAlias)
    (o : Operator) (slots : List Slot) (w : EngineState) : Prop where
  built : Compilation.Built s.script [a] c
  compiled : c.get? a = some x
  lowered : x.plan.lower s.config.batchSizeRows = .ok o
  catalog : w.catalog = s.state.catalog
  settles : c.registry.Settles s.settings s.state.catalog slots
  result : (s.openAlias a).1 = (o.execute (s.settings.context slots) [] w).1.map fun r =>
    ⟨a, .collect, r.size, r⟩

theorem exists_opens (hlegible : s.script.IsLegible) {a : String}
    (ha : s.script.Compilable a) : ∃ c x o slots w, s.Opens a c x o slots w := by
  have hall : ∀ t ∈ [(⟨a, .collect⟩ : Statement)], s.script.Compilable t.aliasName :=
    List.forall_mem_singleton.mpr ha
  obtain ⟨u, hu⟩ := (Script.exists_compile_iff hlegible.isScripted).mpr hall
  obtain ⟨unit, hunit⟩ := Script.exists_lower_of_compile hlegible.isScripted hu
    s.config.batchSizeRows
  have hplan : s.plan [⟨a, .collect⟩] = .ok (u, unit) :=
    bind_eq_ok.mpr ⟨u, hu, bind_eq_ok.mpr ⟨unit, hunit, rfl⟩⟩
  obtain ⟨c, hc, hsides, hstatements⟩ := Script.built_of_compile hu
  obtain ⟨hplans, houtputs⟩ := CompiledUnit.lower_eq_ok.mp hunit
  rw [hsides] at hplans
  generalize u.statements = compiled at hstatements houtputs
  rcases hstatements with _ | ⟨⟨x, hx, rfl⟩, ⟨⟩⟩
  obtain ⟨sideInputs, outputs⟩ := unit
  rcases houtputs with _ | ⟨houtput, ⟨⟩⟩
  obtain ⟨o, ho, rfl⟩ := CompiledStatement.lower_eq_ok.mp houtput
  obtain ⟨hcatalog, hsettles⟩ := hc.settles_materializeAll hlegible hplans s.settings s.state
  refine ⟨c, x, o, (materializeAll s.settings sideInputs [] s.state).1,
    (materializeAll s.settings sideInputs [] s.state).2, hc, hx, ho, hcatalog, hsettles, ?_⟩
  have hschedule := PhysicalUnit.schedule_of_pairwise
    (u := ⟨sideInputs, [⟨a, .collect, o, x.schema⟩]⟩) (hc.pairwise_id hlegible hplans)
  have hrun : s.runUnit [⟨a, .collect⟩] =
      let run := PhysicalUnit.run s.settings ⟨sideInputs, [⟨a, .collect, o, x.schema⟩]⟩ s.state
      (run.1, { s with state := run.2, nextQuery := s.nextQuery + 1 }) := by
    rw [runUnit, hplan]
    rfl
  rw [openAlias, hrun, PhysicalUnit.run, PhysicalUnit.runAll, hschedule]
  show ([((o.execute _ [] _).1.map _)].mapM id >>= _) = _
  cases (o.execute (s.settings.context (materializeAll s.settings sideInputs [] s.state).1) []
    (materializeAll s.settings sideInputs [] s.state).2).1 <;> rfl

theorem openAlias_of_not_compilable (hscript : s.script.IsScripted) {a : String}
    (ha : ¬ s.script.Compilable a) : ∃ e, (s.openAlias a).1 = .error e := by
  have hplan : ∃ e, s.plan [⟨a, .collect⟩] = .error e := by
    cases hcompile : s.script.compile [⟨a, .collect⟩] with
    | error e => exact ⟨e, by rw [plan, hcompile]; rfl⟩
    | ok u =>
        exact absurd ((Script.exists_compile_iff hscript).mp ⟨u, hcompile⟩ _
          (List.mem_singleton.mpr rfl)) ha
  obtain ⟨e, he⟩ := hplan
  exact ⟨e, by rw [openAlias, runUnit, he]; rfl⟩

section Opens

variable {a b : String} {c c' : Compilation} {x x' : CompiledAlias} {o o' : Operator}
  {slots slots' : List Slot} {w w' : EngineState}

theorem Opens.executesAlike (hlegible : s.script.IsLegible) (h : s.Opens a c x o slots w)
    (h' : s.Opens b c' x' o' slots' w') {e : String} {y y' : CompiledAlias}
    (hy : c.get? e = some y) (hy' : c'.get? e = some y') {size size' : Nat} {i i' : Operator}
    (hi : y.plan.lower size = .ok i) (hi' : y'.plan.lower size' = .ok i') :
    ExecutesAlike s.state.catalog s.state.catalog (s.settings.context slots)
      (s.settings.context slots') i i' :=
  have hsettings : s.settings.SameLimits s.settings := ⟨rfl, rfl, rfl⟩
  h.built.executesAlike hlegible h'.built hsettings (fun _ _ _ => rfl) hy hy'
    (h.built.slotsMatch hlegible h'.built hsettings (fun _ _ _ => rfl) h.settles h'.settles hy
      (by rw [hy']; rfl)) hi hi'

end Opens

/-- The session with those definitions only that the roots reach. -/
noncomputable def restrict (s : Session) (roots : List String) : Session :=
  { s with script := s.script.restrict roots }

/-- What an alias gives depends on the definitions that it reaches. -/
theorem openAlias_restrict {roots : List String} {a : String} (ha : s.script.Reached roots a) :
    Alike Eq ((s.restrict roots).openAlias a).1 (s.openAlias a).1 := by
  have hcompile : ∀ u, (s.script.restrict roots).compile [⟨a, .collect⟩] = .ok u ↔
      s.script.compile [⟨a, .collect⟩] = .ok u := fun u =>
    (s.script.sameOn_restrict roots).compile_eq_ok_iff (List.forall_mem_singleton.mpr ha)
  cases hu : s.script.compile [⟨a, .collect⟩] with
  | ok u =>
      have hplan : (s.restrict roots).plan [⟨a, .collect⟩] = s.plan [⟨a, .collect⟩] := by
        rw [plan, plan, restrict, hu, (hcompile u).mpr hu]
      rw [openAlias, openAlias, runUnit, runUnit, hplan]
      cases s.plan [⟨a, .collect⟩] <;> exact Alike.refl _
  | error e =>
      cases hu' : (s.script.restrict roots).compile [⟨a, .collect⟩] with
      | ok u =>
          rw [(hcompile u).mp hu'] at hu
          cases hu
      | error f =>
          rw [openAlias, openAlias, runUnit, runUnit, plan, plan, restrict, hu, hu']
          trivial

end Session

end RelScript
