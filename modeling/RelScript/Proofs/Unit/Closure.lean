import RelScript.Proofs.Script.Cycle
import RelScript.Proofs.Script.ScalarBinding
import RelScript.Proofs.Unit.Acceptance
import RelScript.Proofs.Unit.Lookups
import RelScript.Proofs.Unit.Scoping

/-!
Compilation ends, and what it reaches is what it needs. The recursion over the aliases that
definitions read is finite once no cycle is reached; whenever a definition is bound and analyzed,
every alias that the two steps look up is compiled. So a unit is accepted only if all reachable
aliases are defined and none of them reads itself, and then none is ever missing.
-/

namespace RelScript

/-- All aliases that the statements reach are defined, and none of them depends on itself. -/
structure Script.Closed (script : Script) (statements : List Statement) : Prop where
  defined : ∀ s ∈ statements, ∀ a, script.LeadsTo s.aliasName a → script.defines a
  acyclic : ∀ s ∈ statements, ¬ script.ReachesCycle s.aliasName

namespace Compilation

variable {script : Script}

/-- The definition of an alias that is bound and analyzed, and what is compiled before. -/
structure Attempt where
  before : Compilation
  aliasName : String
  definition : Plan

/-- Compiling aliases in order, call by call: the definitions that are bound and analyzed, and the
end. No bound on the depth is part of it. -/
inductive Traces (script : Script) :
    Compilation → List String → List Attempt → Outcome Compilation → Prop
  | nil {c : Compilation} : Traces script c [] [] (.ok c)
  | known {c : Compilation} {a : String} {rest : List String} {ts : List Attempt}
    {r : Outcome Compilation} :
    (c.get? a).isSome → Traces script c rest ts r → Traces script c (a :: rest) ts r
  | undefined {c : Compilation} {a : String} {rest : List String} :
    c.get? a = none → script.get? a = none →
      Traces script c (a :: rest) [] (.error (.planning (.unknownAlias a)))
  | unread {c : Compilation} {a : String} {d : Plan} {rest : List String} {ts : List Attempt}
    {e : Error} : c.get? a = none → script.get? a = some d →
      Traces script c d.dependencies ts (.error e) → Traces script c (a :: rest) ts (.error e)
  | failed {c c₁ : Compilation} {a : String} {d : Plan} {rest : List String} {ts : List Attempt}
    {e : Error} : c.get? a = none → script.get? a = some d →
      Traces script c d.dependencies ts (.ok c₁) → c₁.add script a d = .error e →
        Traces script c (a :: rest) (ts ++ [⟨c₁, a, d⟩]) (.error e)
  | added {c c₁ c₂ : Compilation} {a : String} {d : Plan} {rest : List String}
    {ts ts' : List Attempt} {r : Outcome Compilation} : c.get? a = none → script.get? a = some d →
      Traces script c d.dependencies ts (.ok c₁) → c₁.add script a d = .ok c₂ →
        Traces script c₂ rest ts' r → Traces script c (a :: rest) (ts ++ ⟨c₁, a, d⟩ :: ts') r

/-- Compiling statements in order: each alias is checked for cycles, then compiled. -/
inductive Serves (script : Script) : Compilation → List Statement → List Attempt →
    Outcome (List CompiledStatement × Compilation) → Prop
  | nil {c : Compilation} : Serves script c [] [] (.ok ([], c))
  | cyclic {c : Compilation} {s : Statement} {rest : List Statement} {e : Error} :
    script.checkCycles s.aliasName = .error e → Serves script c (s :: rest) [] (.error e)
  | failed {c : Compilation} {s : Statement} {rest : List Statement} {ts : List Attempt}
    {e : Error} : script.checkCycles s.aliasName = .ok () →
      Traces script c [s.aliasName] ts (.error e) → Serves script c (s :: rest) ts (.error e)
  | served {c c₁ : Compilation} {s : Statement} {rest : List Statement} {ts ts' : List Attempt}
    {x : CompiledAlias} {r : Outcome (List CompiledStatement × Compilation)} :
    script.checkCycles s.aliasName = .ok () → Traces script c [s.aliasName] ts (.ok c₁) →
      c₁.get? s.aliasName = some x → Serves script c₁ rest ts' r →
        Serves script c (s :: rest) (ts ++ ts') (r.map fun u => (s.compiled x :: u.1, u.2))

/-- Whatever binding and analyzing the definition looks up is compiled. The aliases that it reads
are, and to both steps it makes no difference what scopes say of any other alias. -/
structure Attempt.Covered (script : Script) (t : Attempt) : Prop where
  compiled : ∀ b, t.definition.Reads b → (t.before.get? b).isSome
  binds : ∀ scope : ScalarScope Registry,
    (∀ b, (t.before.get? b).isSome →
      scope.schema b = (scalarScope t.before.compiled t.aliasName).schema b ∧
        scope.sideInput b = (scalarScope t.before.compiled t.aliasName).sideInput b) →
    scope.bindPlan t.definition t.before.registry =
      (scalarScope t.before.compiled t.aliasName).bindPlan t.definition t.before.registry
  analyzes : ∀ bound r, (scalarScope t.before.compiled t.aliasName).bindPlan t.definition
      t.before.registry = .ok (bound, r) →
    ∀ scope : RelationScope, scope.defines = script.defines →
      (∀ b, (t.before.get? b).isSome →
        scope.compiled b = (relationScope script t.before.compiled).compiled b ∧
          scope.schema b = (relationScope script t.before.compiled).schema b) →
      scope.analyze bound = (relationScope script t.before.compiled).analyze bound

section Lookups

theorem find_of_isSome {c : Compilation} {b : String} (h : (c.get? b).isSome) :
    ∃ x, find c.compiled b = .ok x := by
  obtain ⟨x, hx⟩ := Option.isSome_iff_exists.mp h
  exact ⟨x, find_eq_ok.mpr hx⟩

theorem agreeAt_scalarScope {c : Compilation} {a b : String} (h : (c.get? b).isSome)
    {scope : ScalarScope Registry} (hschema : scope.schema b = (scalarScope c.compiled a).schema b)
    (hid : scope.sideInput b = (scalarScope c.compiled a).sideInput b) :
    (scalarScope c.compiled a).AgreeAt scope b := by
  obtain ⟨x, hx⟩ := find_of_isSome h
  constructor
  · exact .of_ok (map_eq_ok.mpr ⟨x, hx, rfl⟩) hschema
  · intro r
    exact .of_ok ((stateBind_lift_of_ok hx _ r).trans rfl) (by rw [hid])

theorem agreeAt_relationScope {c : Compilation} {b : String} (h : (c.get? b).isSome)
    {scope : RelationScope}
    (hcompiled : scope.compiled b = (relationScope script c.compiled).compiled b)
    (hschema : scope.schema b = (relationScope script c.compiled).schema b) :
    (relationScope script c.compiled).AgreeAt scope b := by
  obtain ⟨x, hx⟩ := find_of_isSome h
  constructor
  · exact .of_ok (map_eq_ok.mpr ⟨x, hx, rfl⟩) hcompiled
  · exact .of_ok (map_eq_ok.mpr ⟨x, hx, rfl⟩) hschema

theorem reads_of_bindPlan {c : Compilation} {a b : String} {d bound : Plan} {r r' : Registry}
    (hbind : (scalarScope c.compiled a).bindPlan d r = .ok (bound, r'))
    (hb : .relation b ∈ bound.accesses) : d.Reads b := by
  rw [ScalarScope.accesses_of_bindPlan hbind] at hb
  exact Plan.mem_dependencies_iff.mp (Plan.mem_dependencies_of_relation hb)

theorem Attempt.covered {t : Attempt} (h : ∀ b, t.definition.Reads b → (t.before.get? b).isSome) :
    t.Covered script := by
  constructor
  · exact h
  · intro scope hscope
    refine (ScalarScope.agree_bindPlan (fun b hb => ?_) _).eq.symm
    exact agreeAt_scalarScope (h b hb) (hscope b (h b hb)).1 (hscope b (h b hb)).2
  · intro bound r hbind scope hdefines hscope
    refine (RelationScope.agree_analyze hdefines.symm fun b hb => ?_).eq.symm
    have hsome := h b (reads_of_bindPlan hbind hb)
    exact agreeAt_relationScope hsome (hscope b hsome).1 (hscope b hsome).2

theorem add_spares {c : Compilation} {a : String} {d : Plan}
    (h : ∀ b, d.Reads b → (c.get? b).isSome) {e : Error} (hadd : c.add script a d = .error e) :
    e.missesAlias = false := by
  have hbind : Agree ((scalarScope c.compiled a).bindPlan d c.registry)
      ((scalarScope c.compiled a).bindPlan d c.registry) :=
    ScalarScope.agree_bindPlan (fun b hb => agreeAt_scalarScope (h b hb) rfl rfl) c.registry
  rw [add] at hadd
  cases hbound : (scalarScope c.compiled a).bindPlan d c.registry with
  | error e' =>
      rw [hbound] at hadd
      cases hadd
      exact hbind.spares e hbound
  | ok bound =>
      have hanalyze : Agree ((relationScope script c.compiled).analyze bound.1)
          ((relationScope script c.compiled).analyze bound.1) :=
        RelationScope.agree_analyze rfl fun b hb =>
          agreeAt_relationScope (h b (reads_of_bindPlan hbound hb)) rfl rfl
      rw [hbound] at hadd
      cases hanalyzed : (relationScope script c.compiled).analyze bound.1 with
      | error e' =>
          change (relationScope script c.compiled).analyze bound.1 >>= _ = _ at hadd
          rw [hanalyzed] at hadd
          cases hadd
          exact hanalyze.spares e hanalyzed
      | ok found =>
          change (relationScope script c.compiled).analyze bound.1 >>= _ = _ at hadd
          rw [hanalyzed] at hadd
          cases hadd

end Lookups

section Coverage

variable {c c' : Compilation} {as : List String} {ts : List Attempt} {r : Outcome Compilation}

theorem isSome_get?_of_add {a b : String} {d : Plan} (h : c.add script a d = .ok c')
    (hb : (c.get? b).isSome) : (c'.get? b).isSome := by
  obtain ⟨x, hx⟩ := get?_add h
  rw [hx]
  split
  · rfl
  · exact hb

theorem Traces.isSome (h : Traces script c as ts r) (hr : r = .ok c') :
    (∀ b, (c.get? b).isSome → (c'.get? b).isSome) ∧ ∀ a ∈ as, (c'.get? a).isSome := by
  induction h generalizing c' with
  | nil =>
      cases hr
      exact ⟨fun b hb => hb, by simp⟩
  | known ha _ ih =>
      obtain ⟨hold, hrest⟩ := ih hr
      exact ⟨hold, List.forall_mem_cons.mpr ⟨hold _ ha, hrest⟩⟩
  | undefined | unread | failed => cases hr
  | added _ _ _ hadd _ ihdeps ihrest =>
      obtain ⟨hold, -⟩ := ihdeps rfl
      obtain ⟨hold', hrest⟩ := ihrest hr
      refine ⟨fun b hb => hold' b (isSome_get?_of_add hadd (hold b hb)), ?_⟩
      exact List.forall_mem_cons.mpr ⟨hold' _ (isSome_get?_add hadd), hrest⟩

theorem Traces.isSome_of_reads {d : Plan} (h : Traces script c d.dependencies ts (.ok c'))
    (b : String) (hb : d.Reads b) : (c'.get? b).isSome :=
  (h.isSome rfl).2 b (Plan.mem_dependencies_iff.mpr hb)

theorem Traces.covered (h : Traces script c as ts r) : ∀ t ∈ ts, t.Covered script := by
  induction h with
  | nil | undefined => simp
  | known _ _ ih | unread _ _ _ ih => exact ih
  | failed _ _ hdeps _ ih =>
      refine List.forall_mem_append.mpr ⟨ih, List.forall_mem_singleton.mpr ?_⟩
      exact Attempt.covered hdeps.isSome_of_reads
  | added _ _ hdeps _ _ ihdeps ihrest =>
      refine List.forall_mem_append.mpr ⟨ihdeps, List.forall_mem_cons.mpr ⟨?_, ihrest⟩⟩
      exact Attempt.covered hdeps.isSome_of_reads

theorem Traces.undefined_of_missesAlias (h : Traces script c as ts r) {e : Error}
    (hr : r = .error e) (he : e.missesAlias = true) :
    ∃ a b, a ∈ as ∧ script.LeadsTo a b ∧ script.get? b = none ∧
      e = .planning (.unknownAlias b) := by
  induction h with
  | nil => cases hr
  | known _ _ ih =>
      obtain ⟨a, b, ha, hab⟩ := ih hr
      exact ⟨a, b, List.mem_cons_of_mem _ ha, hab⟩
  | @undefined c a rest _ hget =>
      cases hr
      exact ⟨a, a, List.mem_cons_self, .refl, hget, rfl⟩
  | @unread c a d rest ts e' _ hget _ ih =>
      obtain ⟨b, b', hb, hbb', hnone⟩ := ih hr
      refine ⟨a, b', List.mem_cons_self, hbb'.head ⟨d, hget, ?_⟩, hnone⟩
      exact Plan.mem_dependencies_iff.mp hb
  | failed _ _ hdeps hadd =>
      cases hr
      rw [add_spares hdeps.isSome_of_reads hadd] at he
      cases he
  | added _ _ _ _ _ _ ihrest =>
      obtain ⟨a, b, ha, hab⟩ := ihrest hr
      exact ⟨a, b, List.mem_cons_of_mem _ ha, hab⟩

theorem Serves.covered {statements : List Statement}
    {r : Outcome (List CompiledStatement × Compilation)} (h : Serves script c statements ts r) :
    ∀ t ∈ ts, t.Covered script := by
  induction h with
  | nil | cyclic => simp
  | failed _ hrun => exact hrun.covered
  | served _ hrun _ _ ih => exact List.forall_mem_append.mpr ⟨hrun.covered, ih⟩

theorem Serves.undefined_of_missesAlias {statements : List Statement}
    {r : Outcome (List CompiledStatement × Compilation)} (h : Serves script c statements ts r)
    {e : Error} (hr : r = .error e) (he : e.missesAlias = true) :
    ∃ s ∈ statements, ∃ a, script.LeadsTo s.aliasName a ∧ script.get? a = none ∧
      e = .planning (.unknownAlias a) := by
  induction h with
  | nil => cases hr
  | @cyclic c s rest e' hcycles =>
      cases hr
      obtain ⟨chain, rfl, -⟩ := Script.cycleFrom_of_checkCycles hcycles
      cases he
  | @failed c s rest ts e' _ hrun =>
      cases hr
      obtain ⟨a, b, ha, hab⟩ := hrun.undefined_of_missesAlias rfl he
      exact ⟨s, List.mem_cons_self, b, List.mem_singleton.mp ha ▸ hab⟩
  | @served c c₁ s rest ts ts' x r _ _ _ _ ih =>
      cases r with
      | ok u => cases hr
      | error e' =>
          obtain ⟨s', hs', hmiss⟩ := ih hr
          exact ⟨s', List.mem_cons_of_mem _ hs', hmiss⟩

end Coverage

section Termination

/-- An alias that is compiled first, and others after it. -/
def Traces.First (script : Script) (c : Compilation) (a : String) (ts : List Attempt) :
    Outcome Compilation → Prop
  | .error e => ∀ rest, Traces script c (a :: rest) ts (.error e)
  | .ok c' => ∀ rest ts' r, Traces script c' rest ts' r → Traces script c (a :: rest) (ts ++ ts') r

/-- No cycle is reached, and whatever is reached may still be begun. -/
def Begins (script : Script) (pending : List String) (a : String) : Prop :=
  ¬ script.ReachesCycle a ∧ ∀ b, script.LeadsTo a b → script.defines b → b ∈ pending

theorem Begins.read {pending : List String} {a b : String} (h : Begins script pending a)
    (hab : script.DependsOn a b) : Begins script (pending.erase a) b := by
  refine ⟨fun hcycle => h.1 (hcycle.of_dependsOn hab), fun b' hbb' hdefined => ?_⟩
  have hne : b' ≠ a := by
    rintro rfl
    exact h.1 ⟨_, .refl, .head' hab hbb'⟩
  exact (List.mem_erase_of_ne hne).mpr (h.2 b' (hbb'.head hab) hdefined)

/-- Where no cycle is reached, nothing cuts compilation short. -/
theorem traces_of_compileAlias (script : Script) :
    (∀ pending c a, Begins script pending a →
      ∃ ts, Traces.First script c a ts (compileAlias script pending c a)) ∧
    ∀ pending c as, (∀ a ∈ as, Begins script pending a) →
      ∃ ts, Traces script c as ts (compileAll script pending c as) := by
  apply compileAlias.mutual_induct script
    (fun pending c a => Begins script pending a →
      ∃ ts, Traces.First script c a ts (compileAlias script pending c a))
    (fun pending c as => (∀ a ∈ as, Begins script pending a) →
      ∃ ts, Traces script c as ts (compileAll script pending c as))
  case case1 =>
    intro pending c a hsome _
    rw [compileAlias, if_pos hsome]
    exact ⟨[], fun rest ts' r => .known hsome⟩
  case case2 =>
    intro pending c a hnone hget _
    rw [compileAlias, if_neg hnone, hget]
    rw [Option.not_isSome_iff_eq_none] at hnone
    exact ⟨[], fun rest => .undefined hnone hget⟩
  case case3 =>
    intro pending c a hnone d hget hmem ih hbegins
    obtain ⟨ts, hdeps⟩ := ih fun b hb =>
      hbegins.read ⟨d, hget, Plan.mem_dependencies_iff.mp hb⟩
    rw [compileAlias, if_neg hnone, hget]
    simp only [hmem, dite_true]
    rw [Option.not_isSome_iff_eq_none] at hnone
    cases hall : compileAll script (pending.erase a) c d.dependencies with
    | error e =>
        rw [hall] at hdeps
        exact ⟨ts, fun rest => .unread hnone hget hdeps⟩
    | ok c₁ =>
        rw [hall] at hdeps
        refine ⟨ts ++ [⟨c₁, a, d⟩], ?_⟩
        change Traces.First script c a _ (c₁.add script a d)
        cases hadd : c₁.add script a d with
        | error e => exact fun rest => .failed hnone hget hdeps hadd
        | ok c₂ =>
            intro rest ts' r hrest
            rw [List.append_assoc]
            exact .added hnone hget hdeps hadd hrest
  case case4 =>
    -- the alias is defined, so it may still be begun
    intro pending c a _ d hget hmem hbegins
    refine absurd (hbegins.2 a .refl ?_) hmem
    rw [Script.defines, hget]
    rfl
  case case5 =>
    intro pending c _
    rw [compileAll]
    exact ⟨[], .nil⟩
  case case6 =>
    intro pending c a rest iha ihrest hbegins
    obtain ⟨ha, hrest⟩ := List.forall_mem_cons.mp hbegins
    obtain ⟨ts, hfirst⟩ := iha ha
    rw [compileAll]
    cases halias : compileAlias script pending c a with
    | error e =>
        rw [halias] at hfirst
        exact ⟨ts, hfirst rest⟩
    | ok c₁ =>
        rw [halias] at hfirst
        obtain ⟨ts', hrun⟩ := ihrest c₁ hrest
        exact ⟨ts ++ ts', hfirst rest ts' _ hrun⟩

theorem exists_traces {c : Compilation} {a : String} (h : ¬ script.ReachesCycle a) :
    ∃ ts, Traces script c [a] ts (compileAlias script script.aliases c a) := by
  have hbegins : Begins script script.aliases a := by
    refine ⟨h, fun b _ hdefined => ?_⟩
    obtain ⟨d, hd⟩ := Option.isSome_iff_exists.mp hdefined
    exact Script.mem_aliases_of_get? hd
  obtain ⟨ts, hfirst⟩ := (traces_of_compileAlias script).1 script.aliases c a hbegins
  cases halias : compileAlias script script.aliases c a with
  | error e =>
      rw [halias] at hfirst
      exact ⟨ts, hfirst []⟩
  | ok c' =>
      rw [halias] at hfirst
      exact ⟨ts ++ [], hfirst [] [] _ .nil⟩

theorem compileRoot_cases (script : Script) (c : Compilation) (a : String) :
    (∃ e, script.checkCycles a = .error e ∧ compileRoot script c a = .error e) ∨
      script.checkCycles a = .ok () ∧ ∃ ts,
        (∃ e, Traces script c [a] ts (.error e) ∧ compileRoot script c a = .error e) ∨
          ∃ x c', Traces script c [a] ts (.ok c') ∧ c'.get? a = some x ∧
            compileRoot script c a = .ok (x, c') := by
  cases hcycles : script.checkCycles a with
  | error e =>
      refine Or.inl ⟨e, rfl, ?_⟩
      rw [compileRoot, hcycles]
      rfl
  | ok =>
      obtain ⟨ts, hrun⟩ := exists_traces (c := c) (Script.checkCycles_eq_ok_iff.mp hcycles)
      refine Or.inr ⟨rfl, ts, ?_⟩
      cases halias : compileAlias script script.aliases c a with
      | error e =>
          rw [halias] at hrun
          refine Or.inl ⟨e, hrun, ?_⟩
          rw [compileRoot, hcycles]
          change (compileAlias script script.aliases c a >>= _) = _
          rw [halias]
          rfl
      | ok c' =>
          rw [halias] at hrun
          obtain ⟨x, hx⟩ := Option.isSome_iff_exists.mp
            ((hrun.isSome rfl).2 _ (List.mem_singleton.mpr rfl))
          exact Or.inr ⟨x, c', hrun, hx, compileRoot_eq_ok.mpr ⟨hcycles, halias, hx⟩⟩

theorem exists_serves (script : Script) (c : Compilation) (statements : List Statement) :
    ∃ ts, Serves script c statements ts (compileStatements script c statements) := by
  induction statements generalizing c with
  | nil => exact ⟨[], .nil⟩
  | cons s rest ih =>
      rw [compileStatements]
      rcases compileRoot_cases script c s.aliasName with
        ⟨e, hcycles, hroot⟩ | ⟨hcycles, ts, ⟨e, hrun, hroot⟩ | ⟨x, c', hrun, hx, hroot⟩⟩
      · rw [hroot]
        exact ⟨[], .cyclic hcycles⟩
      · rw [hroot]
        exact ⟨ts, .failed hcycles hrun⟩
      · obtain ⟨ts', hrest⟩ := ih c'
        have hserves := Serves.served hcycles hrun hx hrest
        refine ⟨ts ++ ts', ?_⟩
        rw [hroot]
        change Serves script c (s :: rest) (ts ++ ts') (compileStatements script c' rest >>= _)
        cases hr : compileStatements script c' rest with
        | error e =>
            rw [hr] at hserves
            exact hserves
        | ok r =>
            rw [hr] at hserves
            exact hserves

end Termination

section Closure

theorem Built.exists_definition {roots : List String} {c : Compilation}
    (h : Built script roots c) {a : String} (ha : (c.get? a).isSome) :
    ∃ d, script.get? a = some d ∧ ∀ b, d.Reads b → (c.get? b).isSome := by
  induction h generalizing a with
  | empty => cases ha
  | @add c c' a' d _ _ hd hnone hdeps hadd ih =>
      have hkeeps := keeps_add hnone hadd
      by_cases haa' : a = a'
      · subst haa'
        exact ⟨d, hd, fun b hb => hkeeps.isSome (hdeps b (Plan.mem_dependencies_iff.mpr hb))⟩
      · obtain ⟨x, hx⟩ := get?_add hadd
        rw [hx, if_neg haa'] at ha
        obtain ⟨d', hd', hreads⟩ := ih ha
        exact ⟨d', hd', fun b hb => hkeeps.isSome (hreads b hb)⟩

theorem Built.isSome_of_leadsTo {roots : List String} {c : Compilation}
    (h : Built script roots c) {a b : String} (ha : (c.get? a).isSome)
    (hab : script.LeadsTo a b) : (c.get? b).isSome := by
  induction hab with
  | refl => exact ha
  | tail _ hread ih =>
      obtain ⟨d, hd, hb⟩ := hread
      obtain ⟨d', hd', hreads⟩ := h.exists_definition ih
      rw [hd] at hd'
      cases hd'
      exact hreads _ hb

end Closure

end Compilation

namespace Script

variable {script : Script} {statements : List Statement}

theorem compile_eq (script : Script) (statements : List Statement) :
    script.compile statements = (Compilation.compileStatements script .empty statements).map
      fun r => ⟨r.1, r.2.registry⟩ := by
  rw [compile]
  cases Compilation.compileStatements script .empty statements <;> rfl

theorem closed_of_compile {u : CompiledUnit} (h : script.compile statements = .ok u) :
    script.Closed statements := by
  obtain ⟨⟨compiled, c₁⟩, hcompiled, -⟩ := bind_eq_ok.mp h
  obtain ⟨c, hbuilt, -, hstatements⟩ := built_of_compile h
  constructor
  · intro s hs a hlead
    obtain ⟨t, -, x, hx, -⟩ := forall_right_of_forall₂ hstatements.flip s hs
    have hsome := hbuilt.isSome_of_leadsTo (Option.isSome_iff_exists.mpr ⟨x, hx⟩) hlead
    obtain ⟨d, hd, -⟩ := hbuilt.exists_definition hsome
    rw [defines, hd]
    rfl
  · intro s hs
    exact checkCycles_eq_ok_iff.mp (checkCycles_of_compileStatements hcompiled s hs)

/-- Where the statements are closed, no alias is ever missing. -/
theorem Closed.spares (h : script.Closed statements) {e : Error}
    (he : script.compile statements = .error e) : e.missesAlias = false := by
  obtain ⟨attempts, hserves⟩ := Compilation.exists_serves script .empty statements
  rw [compile_eq, map_eq_error] at he
  by_contra hmiss
  rw [Bool.not_eq_false] at hmiss
  obtain ⟨s, hs, a, hlead, hnone, -⟩ := hserves.undefined_of_missesAlias he hmiss
  have hdefined := h.defined s hs a hlead
  rw [defines, hnone] at hdefined
  cases hdefined

/-- Compilation ends, after a finite run in which every alias that is looked up while a definition
is bound and analyzed is compiled. It succeeds only if the aliases that the statements reach are
closed, and where they are it never fails for an alias that is missing. -/
theorem compile_closure (script : Script) (statements : List Statement) :
    (∃ attempts result, Compilation.Serves script .empty statements attempts result ∧
        script.compile statements = result.map (fun r => ⟨r.1, r.2.registry⟩) ∧
        ∀ t ∈ attempts, t.Covered script) ∧
      (∀ u, script.compile statements = .ok u → script.Closed statements) ∧
      (script.Closed statements → ∀ a,
        script.compile statements ≠ .error (.planning (.unknownAlias a)) ∧
          script.compile statements ≠ .error (.planning (.notCompiled a))) := by
  obtain ⟨attempts, hserves⟩ := Compilation.exists_serves script .empty statements
  refine ⟨⟨attempts, _, hserves, compile_eq script statements, hserves.covered⟩, ?_, ?_⟩
  · exact fun u => closed_of_compile
  · intro hclosed a
    constructor
    · intro h
      exact absurd (hclosed.spares h) (by simp [Error.missesAlias])
    · intro h
      exact absurd (hclosed.spares h) (by simp [Error.missesAlias])

theorem bestOrders_closed :
    (∃ u, bestOrders.compile [⟨"top", .store "out"⟩] = .ok u) ∧
      bestOrders.Closed [⟨"top", .store "out"⟩] ∧
      bestOrders.compile [⟨"top", .store "out"⟩] ≠ .error (.planning (.unknownAlias "best")) := by
  obtain ⟨u, hu⟩ := compile_bestOrders
  have hclosed := (compile_closure bestOrders [⟨"top", .store "out"⟩]).2.1 u hu
  exact ⟨⟨u, hu⟩, hclosed, ((compile_closure bestOrders _).2.2 hclosed "best").1⟩

end Script

end RelScript
