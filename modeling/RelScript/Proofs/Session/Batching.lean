import RelScript.Proofs.Session.Stores
import RelScript.Proofs.Unit.Acceptance
import RelScript.Proofs.Unit.Simulation

/-!
Batch mode changes how often side inputs are computed, and nothing else: queued stores give the
rows, fail, and leave the tables that the same stores do when each of them runs at once.
-/

namespace RelScript

/-- The output stores what an alias of the compilation gives. -/
def Compilation.Stores (c : Compilation) (size : Nat) (stored : String × String)
    (o : OutputPlan) : Prop :=
  ∃ x i, c.get? stored.1 = some x ∧ x.plan.lower size = .ok i ∧
    o = ⟨stored.1, .store stored.2, .store stored.2 i, x.schema⟩

/-- A unit that stores aliases of a compilation, and first settles the side inputs. -/
structure Compilation.Runs (c : Compilation) (size : Nat) (stores : List (String × String))
    (unit : PhysicalUnit) : Prop where
  outputs : List.Forall₂ (c.Stores size) stores unit.outputs
  settles : ∀ settings w, ∃ slots w', materializeAll settings unit.schedule [] w = (slots, w') ∧
    w'.catalog = w.catalog ∧ c.registry.Settles settings w.catalog slots

variable {script : Script} {stores : List (String × String)}

theorem Script.exists_runs (hlegible : script.IsLegible) {compiled : CompiledUnit}
    (h : script.compile (stores.map .storing) = .ok compiled) (size : Nat) :
    ∃ unit c, compiled.lower size = .ok unit ∧
      Compilation.Built script (stores.map (·.1)) c ∧ c.Runs size stores unit := by
  obtain ⟨unit, hunit⟩ := exists_lower_of_compile hlegible.isScripted h size
  obtain ⟨c, hc, hsides, hstatements⟩ := built_of_compile h
  obtain ⟨hplans, houtputs⟩ := CompiledUnit.lower_eq_ok.mp hunit
  rw [hsides] at hplans
  rw [List.forall₂_map_left_iff] at hstatements
  rw [List.map_map] at hc
  refine ⟨unit, c, hunit, hc, ?_, fun settings w => ?_⟩
  · refine forall₂_trans ?_ hstatements houtputs
    rintro stored _ o ⟨x, hx, rfl⟩ ho
    obtain ⟨whole, hwhole, rfl⟩ := CompiledStatement.lower_eq_ok.mp ho
    obtain ⟨i, hi, hwhole⟩ := bind_eq_ok.mp hwhole
    cases hwhole
    exact ⟨x, i, hx, hi, rfl⟩
  · rw [PhysicalUnit.schedule_of_pairwise (hc.pairwise_id hlegible hplans)]
    obtain ⟨hcatalog, hsettles⟩ := hc.settles_materializeAll hlegible hplans settings w
    exact ⟨_, _, rfl, hcatalog, hsettles⟩

section Run

variable {roots : List String} {c : Compilation} {size : Nat} {settings : RunSettings}
  {slots : List Slot} {t : Catalog}

theorem store_alike (hlegible : script.IsLegible) (h : Compilation.Built script roots c)
    (hsettles : c.registry.Settles settings t slots) {s : Session} (hscript : s.script = script)
    (hmode : s.batchMode = false) (hlimits : settings.SameLimits s.settings) {w : EngineState}
    (hcatalog : s.state.catalog = w.catalog) (htables : script.SameSources roots t w.catalog)
    {stored : String × String} {o : OutputPlan} (ho : c.Stores size stored o)
    (haccepted : ∃ u, script.compile [.storing stored] = .ok u) :
    Alike Eq (o.plan.execute (settings.context slots) [] w).1 (s.storedRows stored) ∧
      (s.store stored.1 stored.2).1 = (s.storedRows stored).map (fun r => some (o.result r)) ∧
      (∃ w', w'.catalog = (o.plan.execute (settings.context slots) [] w).2.catalog ∧
        (s.store stored.1 stored.2).2 = { s with state := w', nextQuery := s.nextQuery + 1 }) ∧
      ∀ name, name ≠ stored.2 →
        (o.plan.execute (settings.context slots) [] w).2.catalog.get name = w.catalog.get name := by
  subst hscript
  obtain ⟨compiled, hcompiled⟩ := haccepted
  have hsingle : s.script.compile ([stored].map .storing) = .ok compiled := hcompiled
  obtain ⟨unit, c', hunit, hc', hruns⟩ := Script.exists_runs hlegible hsingle s.config.batchSizeRows
  obtain ⟨slots', w', hslots', hw', hsettles'⟩ := hruns.settles s.settings s.state
  have hplan : s.plan [.storing stored] = .ok (compiled, unit) :=
    bind_eq_ok.mpr ⟨compiled, hcompiled, bind_eq_ok.mpr ⟨unit, hunit, rfl⟩⟩
  -- The unit of one store has one output.
  obtain ⟨o', ho', hone⟩ : ∃ o', c'.Stores s.config.batchSizeRows stored o' ∧
      unit.outputs = [o'] := by
    have houtputs := hruns.outputs
    generalize unit.outputs = outputs at houtputs ⊢
    rcases houtputs with _ | ⟨ho', ⟨⟩⟩
    exact ⟨_, ho', rfl⟩
  obtain ⟨x, i, hx, hi, rfl⟩ := ho
  obtain ⟨x', i', hx', hi', rfl⟩ := ho'
  obtain ⟨hrows, hresult, hsession⟩ := Session.store_now hmode hplan hone hslots'
  rw [hcatalog] at hw' hsettles'
  have hmatch := h.slotsMatch hlegible hc' hlimits htables hsettles hsettles' hx (by rw [hx']; rfl)
  have halike := h.executesAlike hlegible hc' hlimits (fun _ _ _ => rfl) hx hx' hmatch hi hi' [] []
    w w' rfl hw'
  obtain ⟨hstored, hafter⟩ := execute_store halike.2.1 stored.2
  obtain ⟨hstored', hafter'⟩ := execute_store halike.2.2 stored.2
  refine ⟨?_, hresult, ⟨_, ?_, hsession⟩, fun name hname => ?_⟩
  · rw [hrows]
    show Alike Eq ((Operator.store stored.2 i).execute _ _ _).1
      ((Operator.store stored.2 i').execute _ _ _).1
    rw [hstored, hstored']
    exact halike.1.bind_eq fun r => Alike.refl _
  · show ((Operator.store stored.2 i').execute _ _ _).2.catalog =
      ((Operator.store stored.2 i).execute _ _ _).2.catalog
    rw [hafter, hafter', Catalog.receive_congr _ _ halike.1]
  · show ((Operator.store stored.2 i).execute _ _ _).2.catalog.get name = _
    rw [hafter, Catalog.get_receive hname]

/-- The outputs of a unit do what the stores do one after the other, as long as nothing is stored
where the compiled aliases load. -/
theorem runOutputs_alike (hlegible : script.IsLegible) (h : Compilation.Built script roots c)
    (hsettles : c.registry.Settles settings t slots) {outputs : List OutputPlan}
    (houtputs : List.Forall₂ (c.Stores size) stores outputs)
    (htargets : ∀ stored ∈ stores, ∀ schema, ¬ script.Accesses roots (.load stored.2 schema))
    (haccepted : ∀ stored ∈ stores, ∃ u, script.compile [.storing stored] = .ok u) {s : Session}
    (hscript : s.script = script) (hmode : s.batchMode = false)
    (hlimits : settings.SameLimits s.settings) {w : EngineState}
    (hcatalog : s.state.catalog = w.catalog) (htables : script.SameSources roots t w.catalog) :
    List.Forall₂ (Alike fun r r' => r' = some r) (runOutputs settings slots outputs w).1
        (s.storeEach stores).1 ∧
      List.Forall₂ (Alike Eq) (outputRows settings slots outputs w) (s.rowsEach stores) ∧
      (s.storeEach stores).2.state.catalog = (runOutputs settings slots outputs w).2.catalog := by
  induction houtputs generalizing s w with
  | nil => exact ⟨List.Forall₂.nil, List.Forall₂.nil, hcatalog⟩
  | @cons stored o rest outputs ho hrest ih =>
      obtain ⟨htarget, htargets⟩ := List.forall_mem_cons.mp htargets
      obtain ⟨haccept, haccepted⟩ := List.forall_mem_cons.mp haccepted
      obtain ⟨hrows, hresult, ⟨w', hw', hsession⟩, hkept⟩ := store_alike hlegible h hsettles hscript
        hmode hlimits hcatalog htables ho haccept
      -- Nothing reads the table that has just been stored.
      have htables' : script.SameSources roots t
          (o.plan.execute (settings.context slots) [] w).2.catalog := by
        intro source schema hload
        rw [hkept source, htables source schema hload]
        rintro rfl
        exact htarget schema hload
      obtain ⟨hresults, hallRows, hfinal⟩ := ih htargets haccepted
        (s := (s.store stored.1 stored.2).2) (by rw [hsession]; exact hscript)
        (by rw [hsession]; exact hmode)
        (by rw [hsession]; exact ⟨hlimits.batchSize, hlimits.parallelism, hlimits.rowLimit⟩)
        (w := (o.plan.execute (settings.context slots) [] w).2) (by rw [hsession]; exact hw')
        htables'
      refine ⟨List.Forall₂.cons ?_ hresults, List.Forall₂.cons hrows hallRows, hfinal⟩
      show Alike _ ((o.plan.execute (settings.context slots) [] w).1.map o.result)
        (s.store stored.1 stored.2).1
      rw [hresult]
      exact hrows.map fun r r' hr => by rw [hr]

end Run

/-- Batching is an optimization only. Stores of a plain script are accepted together if and only if
each of them is accepted by itself. Queued and run as one unit, each then gives the rows that it
gives when it runs at once, or fails as it does there, and all tables are the same in the end. What
the stored aliases reach may not load a target; two stores may share one. -/
theorem Session.executeBatch_refines_storeEach (s : Session) (stores : List (String × String))
    (hqueue : s.pending = []) (hplain : s.script.IsPlain)
    (htargets : ∀ stored ∈ stores, ∀ schema,
      ¬ s.script.Accesses (stores.map (·.1)) (.load stored.2 schema)) :
    let queued := ((s.setBatchMode true).storeEach stores).2
    let now := s.setBatchMode false
    ((∃ u, s.script.compile queued.pending = .ok u) ↔
        ∀ stored ∈ stores, ∃ u, s.script.compile [.storing stored] = .ok u) ∧
      ∀ u, s.script.compile queued.pending = .ok u → ∃ unit,
        queued.plan queued.pending = .ok (u, unit) ∧
        List.Forall₂ (Alike fun r r' => r' = some r) (unit.runAll queued.settings queued.state).1
          (now.storeEach stores).1 ∧
        List.Forall₂ (Alike Eq) (unit.rows queued.settings queued.state) (now.rowsEach stores) ∧
        queued.executeBatch.2.state.catalog = (now.storeEach stores).2.state.catalog := by
  have hqueued : ((s.setBatchMode true).storeEach stores).2 =
      { s with batchMode := true, pending := stores.map .storing } := by
    rw [storeEach_queue rfl]
    simp [setBatchMode, hqueue]
  dsimp only
  rw [hqueued]
  have haccepts : (∃ u, s.script.compile (stores.map .storing) = .ok u) ↔
      ∀ stored ∈ stores, ∃ u, s.script.compile [.storing stored] = .ok u := by
    rw [Script.exists_compile_iff_forall hplain.isScripted, List.forall_mem_map]
  refine ⟨haccepts, fun u hu => ?_⟩
  have hlegible := hplain.isLegible
  obtain ⟨unit, c, hunit, hc, hruns⟩ := Script.exists_runs hlegible hu s.config.batchSizeRows
  have hplan : s.plan (stores.map .storing) = .ok (u, unit) :=
    bind_eq_ok.mpr ⟨u, hu, bind_eq_ok.mpr ⟨unit, hunit, rfl⟩⟩
  obtain ⟨slots, w, hslots, hw, hsettles⟩ := hruns.settles s.settings s.state
  obtain ⟨hresults, hrows, hfinal⟩ := runOutputs_alike hlegible hc hsettles hruns.outputs htargets
    (haccepts.mp ⟨u, hu⟩) (s := s.setBatchMode false) rfl rfl ⟨rfl, rfl, rfl⟩ hw.symm
    fun source schema _ => by rw [hw]
  have hrunAll : unit.runAll s.settings s.state = runOutputs s.settings slots unit.outputs w := by
    rw [PhysicalUnit.runAll, hslots]
  have hunitRows : unit.rows s.settings s.state = outputRows s.settings slots unit.outputs w := by
    rw [PhysicalUnit.rows, hslots]
  rw [← hrunAll] at hresults hfinal
  rw [← hunitRows] at hrows
  refine ⟨unit, hplan, hresults, hrows, ?_⟩
  -- An empty queue is not run at all.
  rcases eq_or_ne stores [] with rfl | hne
  · rfl
  · have hsome : ({ s with batchMode := true, pending := stores.map .storing } : Session).pending ≠
        [] := by simpa using hne
    rw [executeBatch_of_plan hsome hplan]
    exact hfinal.symm

/-- A session over some orders. -/
def orderBook : Session :=
  ⟨.default, ⟨[("orders", .ofDelimited "3\n8\n8\n")], []⟩, bestOrders, [], false, 1⟩

theorem isPlain_bestOrders : bestOrders.IsPlain where
  isScripted := isScripted_bestOrders
  storesNothing := by
    simp [bestOrders, topOrders, Plan.accesses, Plan.nodes, Plan.access?]
  finite := by
    simp [bestOrders, topOrders, Plan.literals, Plan.allExprs, Plan.nodes, Plan.exprs,
      Expr.literals, Expr.parts, Expr.literal?]

theorem compile_best : ∃ u, bestOrders.compile [⟨"best", .store "peak"⟩] = .ok u := by
  have hok : (bestOrders.compile [⟨"best", .store "peak"⟩]).isOk = true := by cbv
  cases hcompiled : bestOrders.compile [⟨"best", .store "peak"⟩] with
  | ok u => exact ⟨u, rfl⟩
  | error e =>
      rw [hcompiled] at hok
      cases hok

theorem orderBook_executeBatch :
    let stores := [("top", "out"), ("best", "peak"), ("top", "copy")]
    let queued := ((orderBook.setBatchMode true).storeEach stores).2
    let now := orderBook.setBatchMode false
    orderBook.pending = [] ∧ orderBook.script.IsPlain ∧
      (∀ stored ∈ stores, ∀ schema,
        ¬ orderBook.script.Accesses (stores.map (·.1)) (.load stored.2 schema)) ∧
      ∃ u unit, orderBook.script.compile queued.pending = .ok u ∧
        queued.plan queued.pending = .ok (u, unit) ∧
        List.Forall₂ (Alike fun r r' => r' = some r) (unit.runAll queued.settings queued.state).1
          (now.storeEach stores).1 ∧
        List.Forall₂ (Alike Eq) (unit.rows queued.settings queued.state) (now.rowsEach stores) ∧
        queued.executeBatch.2.state.catalog = (now.storeEach stores).2.state.catalog := by
  intro stores queued now
  have htargets : ∀ stored ∈ stores, ∀ schema,
      ¬ orderBook.script.Accesses (stores.map (·.1)) (.load stored.2 schema) := by
    rintro stored hstored schema ⟨a, d, -, hd, hload⟩
    have hall : ∀ e ∈ bestOrders.definitions, ∀ stored ∈ stores, ∀ schema,
        Plan.Access.load stored.2 schema ∉ e.2.accesses := by
      simp [stores, bestOrders, topOrders, Plan.accesses, Plan.nodes, Plan.access?]
    exact hall _ (Script.mem_of_get? hd) stored hstored schema hload
  have haccepts : ∀ stored ∈ stores, bestOrders.Compilable stored.1 := by
    have htop : bestOrders.Compilable "top" :=
      (Script.exists_compile_iff isScripted_bestOrders).mp compile_bestOrders _
        List.mem_cons_self
    have hbest : bestOrders.Compilable "best" :=
      (Script.exists_compile_iff isScripted_bestOrders).mp compile_best _ List.mem_cons_self
    simp [stores, htop, hbest]
  have hqueued : ∀ statement ∈ stores.map Statement.storing,
      bestOrders.Compilable statement.aliasName := List.forall_mem_map.mpr haccepts
  obtain ⟨u, hu⟩ := (Script.exists_compile_iff isScripted_bestOrders).mpr hqueued
  obtain ⟨-, hruns⟩ := orderBook.executeBatch_refines_storeEach stores rfl isPlain_bestOrders
    htargets
  obtain ⟨unit, hunit⟩ := hruns u hu
  exact ⟨rfl, isPlain_bestOrders, htargets, u, unit, hu, hunit⟩

end RelScript
