import RelScript.Proofs.Analysis.Scoping
import RelScript.Proofs.Unit.Closure

/-!
A unit depends on the definitions that its statements reach, and on no others: scripts that define
these aliases alike compile the statements to the same unit, or refuse them both.
-/

namespace RelScript

namespace Script

/-- Two scripts that define some aliases alike; what the definitions read is among these aliases. -/
structure SameOn (R : String → Prop) (script script' : Script) : Prop where
  get? : ∀ a, R a → script'.get? a = script.get? a
  closed : ∀ a, R a → ∀ b, script.ReadBy b a → R b

variable {R : String → Prop} {script script' : Script}

theorem SameOn.symm (h : SameOn R script script') : SameOn R script' script where
  get? a ha := (h.get? a ha).symm
  closed a ha b hb := h.closed a ha b (by rwa [ReadBy, h.get? a ha] at hb)

theorem sameOn_of_reached {roots : List String}
    (h : ∀ a, script.Reached roots a → script'.get? a = script.get? a) :
    SameOn (script.Reached roots) script script' where
  get? := h
  closed _ ha _ hb := ha.read hb

theorem SameOn.dependsOn (h : SameOn R script script') {a b : String} (ha : R a)
    (hab : script.DependsOn a b) : script'.DependsOn a b ∧ R b := by
  obtain ⟨d, hd, hb⟩ := hab
  exact ⟨⟨d, (h.get? a ha).trans hd, hb⟩,
    h.closed a ha b ⟨d, hd, Plan.mem_dependencies_iff.mpr hb⟩⟩

theorem SameOn.leadsTo (h : SameOn R script script') {a b : String} (ha : R a)
    (hab : script.LeadsTo a b) : script'.LeadsTo a b ∧ R b := by
  induction hab with
  | refl => exact ⟨.refl, ha⟩
  | tail _ hread ih =>
      obtain ⟨hpath, hb⟩ := ih
      obtain ⟨hread', hc⟩ := h.dependsOn hb hread
      exact ⟨hpath.tail hread', hc⟩

theorem SameOn.reachesCycle (h : SameOn R script script') {a : String} (ha : R a)
    (hcycle : script.ReachesCycle a) : script'.ReachesCycle a := by
  obtain ⟨b, hab, hbb⟩ := hcycle
  obtain ⟨hab', hb⟩ := h.leadsTo ha hab
  obtain ⟨c, hbc, hcb⟩ := Relation.TransGen.head'_iff.mp hbb
  obtain ⟨hbc', hc⟩ := h.dependsOn hb hbc
  exact ⟨b, hab', .head' hbc' (h.leadsTo hc hcb).1⟩

theorem SameOn.checkCycles_eq_ok (h : SameOn R script script') {a : String} (ha : R a)
    (hcheck : script.checkCycles a = .ok ()) : script'.checkCycles a = .ok () :=
  checkCycles_eq_ok_iff.mpr fun hcycle =>
    checkCycles_eq_ok_iff.mp hcheck (h.symm.reachesCycle ha hcycle)

end Script

namespace Compilation

variable {R : String → Prop} {script script' : Script}

theorem add_of_add (script' : Script) {c c' : Compilation} {a : String} {d : Plan}
    (h : c.add script a d = .ok c') : c.add script' a d = .ok c' := by
  obtain ⟨bound, r, x, hbind, hanalyze, rfl⟩ := add_eq_ok h
  obtain ⟨columns, hplan, hschema⟩ := RelationScope.analyze_eq_ok.mp hanalyze
  have hanalyze' : (relationScope script' c.compiled).analyze bound = .ok (x.plan, x.schema) :=
    RelationScope.analyze_eq_ok.mpr ⟨columns, hplan.congr fun _ _ => ⟨rfl, rfl⟩, hschema⟩
  exact bind_eq_ok.mpr ⟨_, hbind, bind_eq_ok.mpr ⟨_, hanalyze', rfl⟩⟩

/-- A run that compiles its aliases can be made in the other script, call by call. -/
theorem Traces.congr (h : Script.SameOn R script script') {c c' : Compilation} {as : List String}
    {ts : List Attempt} {r : Outcome Compilation} (hrun : Traces script c as ts r)
    (hall : ∀ a ∈ as, R a) (hr : r = .ok c') : Traces script' c as ts r := by
  induction hrun generalizing c' with
  | nil => exact .nil
  | known hsome _ ih => exact .known hsome (ih (fun b hb => hall b (.tail _ hb)) hr)
  | undefined | unread | failed => cases hr
  | added hnone hget _ hadd _ ihdeps ihrest =>
      obtain ⟨ha, hrest⟩ := List.forall_mem_cons.mp hall
      exact .added hnone ((h.get? _ ha).trans hget)
        (ihdeps (fun b hb => h.closed _ ha b ⟨_, hget, hb⟩) rfl) (add_of_add script' hadd)
        (ihrest hrest hr)

theorem Traces.eq_of_eq_ok {c c' : Compilation} {as : List String} {ts ts' : List Attempt}
    {r r' : Outcome Compilation} (h : Traces script c as ts r) (h' : Traces script c as ts' r')
    (hr : r = .ok c') : r' = .ok c' := by
  induction h generalizing c' ts' r' with
  | nil =>
      cases h'
      exact hr
  | known hsome _ ih =>
      cases h' with
      | known _ hrest => exact ih hrest hr
      | undefined hnone | unread hnone | failed hnone | added hnone => simp [hnone] at hsome
  | undefined | unread | failed => cases hr
  | added hnone hget _ hadd _ ihdeps ihrest =>
      cases h' with
      | known hsome => simp [hnone] at hsome
      | undefined _ hget' => simp [hget] at hget'
      | unread _ hget' hdeps' =>
          cases hget.symm.trans hget'
          cases ihdeps hdeps' rfl
      | failed _ hget' hdeps' hadd' =>
          cases hget.symm.trans hget'
          cases ihdeps hdeps' rfl
          cases hadd.symm.trans hadd'
      | added _ hget' hdeps' hadd' hrest' =>
          cases hget.symm.trans hget'
          cases ihdeps hdeps' rfl
          cases hadd.symm.trans hadd'
          exact ihrest hrest' hr

theorem compileRoot_of_sameOn (h : Script.SameOn R script script') {c c' : Compilation}
    {a : String} {x : CompiledAlias} (ha : R a) (hroot : compileRoot script c a = .ok (x, c')) :
    compileRoot script' c a = .ok (x, c') := by
  obtain ⟨hcycles, halias, hx⟩ := compileRoot_eq_ok.mp hroot
  have hcycles' := h.checkCycles_eq_ok ha hcycles
  obtain ⟨ts, hrun⟩ := exists_traces (c := c) (Script.checkCycles_eq_ok_iff.mp hcycles)
  obtain ⟨ts', hrun'⟩ := exists_traces (c := c) (Script.checkCycles_eq_ok_iff.mp hcycles')
  rw [halias] at hrun
  have hmade := hrun.congr h (List.forall_mem_singleton.mpr ha) rfl
  exact compileRoot_eq_ok.mpr ⟨hcycles', hmade.eq_of_eq_ok hrun' rfl, hx⟩

theorem compileStatements_of_sameOn (h : Script.SameOn R script script')
    {statements : List Statement} (hall : ∀ s ∈ statements, R s.aliasName) {c : Compilation}
    {result : List CompiledStatement × Compilation}
    (hcompile : compileStatements script c statements = .ok result) :
    compileStatements script' c statements = .ok result := by
  induction statements generalizing c result with
  | nil => exact hcompile
  | cons s rest ih =>
      obtain ⟨hs, hrest⟩ := List.forall_mem_cons.mp hall
      obtain ⟨⟨x, c₁⟩, hroot, hcompile⟩ := bind_eq_ok.mp hcompile
      obtain ⟨⟨compiled, c₂⟩, htail, hcompile⟩ := bind_eq_ok.mp hcompile
      cases hcompile
      exact bind_eq_ok.mpr
        ⟨_, compileRoot_of_sameOn h hs hroot, bind_eq_ok.mpr ⟨_, ih hrest htail, rfl⟩⟩

end Compilation

namespace Script

variable {script script' : Script}

/-- Statements over aliases that are defined alike are compiled to the same unit. -/
theorem SameOn.compile_eq_ok_iff {R : String → Prop} (h : SameOn R script script')
    {statements : List Statement} (hall : ∀ s ∈ statements, R s.aliasName) {u : CompiledUnit} :
    script'.compile statements = .ok u ↔ script.compile statements = .ok u := by
  have hone : ∀ {script script' : Script}, SameOn R script script' →
      script.compile statements = .ok u → script'.compile statements = .ok u := by
    intro script script' h hcompile
    obtain ⟨result, hresult, hu⟩ := bind_eq_ok.mp hcompile
    exact bind_eq_ok.mpr ⟨result, Compilation.compileStatements_of_sameOn h hall hresult, hu⟩
  exact ⟨hone h.symm, hone h⟩

/-- Definitions that the statements do not reach do not matter, whatever they are and wherever they
stand: scripts that agree on the others compile the statements to one unit, or both refuse them. -/
theorem compile_agrees_of_reached {statements : List Statement}
    (h : ∀ a, script.Reached (statements.map (·.aliasName)) a → script'.get? a = script.get? a) :
    (∃ u, script.compile statements = .ok u ∧ script'.compile statements = .ok u) ∨
      (∃ e, script.compile statements = .error e) ∧
        ∃ e, script'.compile statements = .error e := by
  have hcompile {u : CompiledUnit} :
      script'.compile statements = .ok u ↔ script.compile statements = .ok u :=
    (sameOn_of_reached h).compile_eq_ok_iff fun s hs =>
      script.reached_of_mem (List.mem_map_of_mem hs)
  cases hu : script.compile statements with
  | ok u => exact .inl ⟨u, rfl, hcompile.mpr hu⟩
  | error e =>
      cases hu' : script'.compile statements with
      | ok u => cases hu.symm.trans (hcompile.mp hu')
      | error e' => exact .inr ⟨⟨e, rfl⟩, e', rfl⟩

/-- The script that picks the greatest orders, put in another order, beside an alias that reads
itself and an alias over a relation that nothing defines. -/
def crowdedOrders : Script :=
  ⟨("loop", .relation "loop") :: bestOrders.definitions.reverse ++
    [("stray", .limit 1 (.relation "nowhere"))]⟩

theorem reached_bestOrders {a : String} (h : bestOrders.Reached ["top"] a) :
    a ∈ ["top", "orders", "best"] := by
  obtain ⟨root, hroot, hpath⟩ := h
  induction hpath using Relation.ReflTransGen.head_induction_on with
  | refl =>
      rw [List.mem_singleton.mp hroot]
      exact List.mem_cons_self
  | @head b c hread _ ih =>
      obtain ⟨d, hd, hb⟩ := hread
      have hreads : ∀ c ∈ ["top", "orders", "best"], ∀ d ∈ bestOrders.get? c,
          d.dependencies ⊆ ["orders", "best"] := by
        decide +kernel
      exact List.mem_cons_of_mem _ (hreads c ih d hd hb)

theorem compile_crowdedOrders :
    (∀ a, bestOrders.Reached ["top"] a → crowdedOrders.get? a = bestOrders.get? a) ∧
      ∃ u, bestOrders.compile [⟨"top", .store "out"⟩] = .ok u ∧
        crowdedOrders.compile [⟨"top", .store "out"⟩] = .ok u := by
  have hagree : ∀ a, bestOrders.Reached ["top"] a →
      crowdedOrders.get? a = bestOrders.get? a := by
    intro a ha
    have halike : ∀ b ∈ ["top", "orders", "best"], crowdedOrders.get? b = bestOrders.get? b := by
      decide +kernel
    exact halike a (reached_bestOrders ha)
  obtain ⟨u, hu⟩ := compile_bestOrders
  refine ⟨hagree, ?_⟩
  rcases @compile_agrees_of_reached _ _ [⟨"top", .store "out"⟩] hagree with h | ⟨⟨e, he⟩, -⟩
  · exact h
  · cases hu.symm.trans he

open scoped Classical in
/-- The definitions that the roots reach. -/
noncomputable def restrict (script : Script) (roots : List String) : Script :=
  ⟨script.definitions.filter fun d => script.Reached roots d.1⟩

theorem get?_restrict {roots : List String} {a : String} (ha : script.Reached roots a) :
    (script.restrict roots).get? a = script.get? a := by
  classical
  unfold restrict get?
  induction script.definitions with
  | nil => rfl
  | cons d rest ih =>
      obtain ⟨b, p⟩ := d
      rw [List.filter_cons]
      by_cases hab : a = b
      · subst hab
        rw [if_pos (decide_eq_true ha), List.lookup_cons_self, List.lookup_cons_self]
      · split
        · rw [List.lookup_cons, List.lookup_cons, ih]
        · rw [List.lookup_cons, beq_false_of_ne hab, ih]

theorem sameOn_restrict (script : Script) (roots : List String) :
    SameOn (script.Reached roots) script (script.restrict roots) :=
  sameOn_of_reached fun _ ha => get?_restrict ha

end Script

end RelScript
