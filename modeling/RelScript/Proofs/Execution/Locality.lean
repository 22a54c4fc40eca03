import RelScript.Proofs.Execution.Materialization
import RelScript.Proofs.Physical.Trees

/-!
What the result of an operator tree depends on: the slots that its broadcasts list and the tables
that its scans read. Two runs in which these are the same give the same result, and the same
failure.
-/

namespace RelScript

/-- From the given catalogs the two steps give the same result, and leave the catalogs as they
are. -/
def Run.Same {α : Type} (c c' : Catalog) (step step' : Run α) : Prop :=
  ∀ w w', w.catalog = c → w'.catalog = c' →
    (step w).1 = (step' w').1 ∧ (step w).2.catalog = c ∧ (step' w').2.catalog = c'

namespace Run.Same

variable {α β : Type} {c c' : Catalog}

theorem ofOutcome (x : Outcome α) :
    Run.Same c c' (RelScript.ofOutcome x) (RelScript.ofOutcome x) := by
  intro w w' hw hw'
  cases x <;> exact ⟨rfl, hw, hw'⟩

theorem of_quiet {step step' : Run Unit} (h : Quiet step) (h' : Quiet step') :
    Run.Same c c' step step' := by
  intro w w' hw hw'
  obtain ⟨hok, hcatalog⟩ := h w
  obtain ⟨hok', hcatalog'⟩ := h' w'
  exact ⟨hok.trans hok'.symm, hcatalog.trans hw, hcatalog'.trans hw'⟩

theorem bind {step step' : Run α} {next next' : α → Run β} (h : Run.Same c c' step step')
    (hnext : ∀ a, Run.Same c c' (next a) (next' a)) :
    Run.Same c c' (step >>= next) (step' >>= next') := by
  intro w w' hw hw'
  obtain ⟨hresult, hcatalog, hcatalog'⟩ := h w w' hw hw'
  rw [run_bind, run_bind, ← hresult]
  cases (step w).1 with
  | ok a => exact hnext a _ _ hcatalog hcatalog'
  | error e => exact ⟨rfl, hcatalog, hcatalog'⟩

theorem finish (ctx ctx' : RunContext) (o : Operator) (r : Relation) :
    Run.Same c c' (Operator.execute.finish ctx o r) (Operator.execute.finish ctx' o r) :=
  (of_quiet (quiet_recordEvent _) (quiet_recordEvent _)).bind fun _ _ _ hw hw' => ⟨rfl, hw, hw'⟩

theorem runParts {ctx ctx' : RunContext} (hparallelism : ctx.parallelism = ctx'.parallelism)
    (b : ScalarBindings) (step : List α → Outcome (List β)) (batches : List (List α)) :
    Run.Same c c' (runParts ctx b step batches) (RelScript.runParts ctx' b step batches) := by
  intro w w' hw hw'
  obtain ⟨v, hrun, hv⟩ := run_runParts ctx b step batches w
  obtain ⟨v', hrun', hv'⟩ := run_runParts ctx' b step batches w'
  rw [hrun, hrun', hv, hv', hparallelism]
  exact ⟨rfl, hw, hw'⟩

end Run.Same

theorem RunContext.bindSideInputs_congr {ctx ctx' : RunContext} {ids : List SideInputId}
    (h : ∀ id ∈ ids, ctx.slot? id = ctx'.slot? id) (b : ScalarBindings) :
    ctx.bindSideInputs ids b = ctx'.bindSideInputs ids b := by
  induction ids generalizing b with
  | nil => rfl
  | cons id rest ih =>
      obtain ⟨hid, hrest⟩ := List.forall_mem_cons.mp h
      rw [bindSideInputs_cons, bindSideInputs_cons, read, read, hid]
      exact congrArg (_ >>= ·) (funext fun x => ih hrest _)

namespace Operator

variable {ctx ctx' : RunContext} {c c' : Catalog}

/-- Two runs in which a tree that stores nothing meets the same slots and the same tables. -/
structure MeetsSame (ctx ctx' : RunContext) (c c' : Catalog) (o : Operator) : Prop where
  batchSize : ctx.batchSize = ctx'.batchSize
  parallelism : ctx.parallelism = ctx'.parallelism
  slots : ∀ id ∈ o.sideInputs, ctx.slot? id = ctx'.slot? id
  tables : ∀ source ∈ o.sources, c.get source = c'.get source
  storesNothing : o.targets = []

theorem MeetsSame.child {o i : Operator} (h : o.MeetsSame ctx ctx' c c') (hi : i ∈ o.children) :
    i.MeetsSame ctx ctx' c c' where
  batchSize := h.batchSize
  parallelism := h.parallelism
  slots := fun id hid => h.slots id (sideInputs_subset_of_child hi hid)
  tables := fun source hsource => h.tables source (sources_subset_of_child hi hsource)
  storesNothing := List.subset_nil.mp (h.storesNothing ▸ targets_subset_of_child hi)

/-- A tree that stores nothing gives the same in two runs in which it meets the same. -/
theorem MeetsSame.same_execute {o : Operator} (h : o.MeetsSame ctx ctx' c c')
    (b : ScalarBindings) : Run.Same c c' (o.execute ctx b) (o.execute ctx' b) := by
  have hfinish : ∀ (o : Operator) (r : Relation),
      Run.Same c c' (execute.finish ctx o r) (execute.finish ctx' o r) := Run.Same.finish ctx ctx'
  induction o generalizing b with
  | scan source declared size =>
      intro w w' hw hw'
      have hread : w.catalog.get source = w'.catalog.get source := by
        rw [hw, hw']
        exact h.tables source List.mem_cons_self
      -- The table is read from the state that the scan starts in, and is the same in both.
      have hsteps : Run.Same c c'
          (ofOutcome (w.catalog.get source) >>= fun table => do
            let r ← ofOutcome (scanTable ctx.batchSize source declared table)
            execute.finish ctx (scan source declared size) r)
          (ofOutcome (w'.catalog.get source) >>= fun table => do
            let r ← ofOutcome (scanTable ctx'.batchSize source declared table)
            execute.finish ctx' (scan source declared size) r) := by
        rw [hread, h.batchSize]
        apply (Run.Same.ofOutcome _).bind
        intro table
        exact (Run.Same.ofOutcome _).bind fun r => hfinish _ r
      exact hsteps w w' hw hw'
  | filter predicate input ih =>
      apply (ih (h.child (List.mem_singleton.mpr rfl)) b).bind
      intro child
      apply (Run.Same.runParts h.parallelism b _ _).bind
      intro batches
      exact hfinish _ _
  | project columns input ih =>
      apply (ih (h.child (List.mem_singleton.mpr rfl)) b).bind
      intro child
      apply (Run.Same.ofOutcome _).bind
      intro compiled
      apply (Run.Same.runParts h.parallelism b _ _).bind
      intro batches
      exact hfinish _ _
  | hashAggregate keys aggregates input ih =>
      apply (ih (h.child (List.mem_singleton.mpr rfl)) b).bind
      intro child
      apply (Run.Same.ofOutcome _).bind
      intro r
      exact hfinish _ r
  | hashJoin left right on ihl ihr =>
      apply (ihl (h.child List.mem_cons_self) b).bind
      intro l
      apply (ihr (h.child (List.mem_cons_of_mem _ List.mem_cons_self)) b).bind
      intro r
      apply (Run.Same.ofOutcome _).bind
      intro joined
      exact hfinish _ joined
  | limit count input ih =>
      apply (ih (h.child (List.mem_singleton.mpr rfl)) b).bind
      intro child
      exact hfinish _ _
  | store target input ih =>
      have hstore := h.storesNothing
      simp [targets, nodes] at hstore
  | broadcast ids input ih =>
      have hslots : ∀ id ∈ ids, ctx.slot? id = ctx'.slot? id := fun id hid =>
        h.slots id (mem_sideInputs.mpr (List.mem_append_left _ hid))
      rw [execute, execute, RunContext.bindSideInputs_congr hslots]
      apply (Run.Same.ofOutcome _).bind
      intro bound
      apply (ih (h.child (List.mem_singleton.mpr rfl)) bound).bind
      intro r
      exact hfinish _ r

theorem catalog_execute {o : Operator} (h : o.targets = []) (ctx : RunContext)
    (b : ScalarBindings) (w : EngineState) : (o.execute ctx b w).2.catalog = w.catalog := by
  have hmeets : o.MeetsSame ctx ctx w.catalog w.catalog :=
    ⟨rfl, rfl, fun _ _ => rfl, fun _ _ => rfl, h⟩
  exact (hmeets.same_execute b w w rfl rfl).2.1

end Operator

theorem materialize_same {settings : RunSettings} {p : SideInputPlan} {slots slots' : List Slot}
    {w w' : EngineState} (h : p.plan.MeetsSame (settings.context slots) (settings.context slots')
      w.catalog w'.catalog) :
    (materialize settings p slots w).1 = (materialize settings p slots' w').1 := by
  have hresult := (h.same_execute [] w w' rfl rfl).1
  show (settle (Slot.create p.id p.aliasName settings.rowLimit).begin
      (p.plan.execute (settings.context slots) [] w).1).1 =
    (settle (Slot.create p.id p.aliasName settings.rowLimit).begin
      (p.plan.execute (settings.context slots') [] w').1).1
  rw [hresult]

end RelScript
