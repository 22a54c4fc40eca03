import Mathlib
import RelScript.Proofs.Execution.Layout
import RelScript.Proofs.Execution.SlotReads

/-!
Runs over tables that hold the same rows in other batches, with other batch sizes and numbers of
tasks. All results have the same schemas and rows, and all slots are written alike.
-/

namespace RelScript

/-- The schema and the rows of a relation, however they are cut. -/
def Relation.contents (r : Relation) : TypedBatch := ⟨r.schema, r.rows⟩

/-- Relations of the same rows, which both have batches or both have none. -/
inductive Relation.Recut : Relation → Relation → Prop
  | intro {s : Schema} {batches batches' : List (Batch s)} (h : SameRows batches batches') :
      Recut ⟨s, batches⟩ ⟨s, batches'⟩

namespace Relation

theorem Recut.refl (r : Relation) : Recut r r := .intro (.refl r.batches)

theorem Recut.contents {r r' : Relation} (h : Recut r r') : r.contents = r'.contents := by
  obtain ⟨h⟩ := h
  exact congrArg (TypedBatch.mk _) h.rows

theorem Recut.size {r r' : Relation} (h : Recut r r') : r.size = r'.size := by
  obtain ⟨h⟩ := h
  exact congrArg List.length h.rows

theorem exists_of_contents {r r' : Relation} (h : r.contents = r'.contents) :
    ∃ batches', r' = ⟨r.schema, batches'⟩ ∧ r.batches.flatten = batches'.flatten := by
  obtain ⟨s, batches⟩ := r
  obtain ⟨s', batches'⟩ := r'
  obtain ⟨rfl, hrows⟩ := TypedBatch.mk.injEq .. ▸ h
  exact ⟨batches', rfl, eq_of_heq hrows⟩

theorem contents_rebatch (size : Nat) (r : Relation) : (r.rebatch size).contents = r.contents :=
  congrArg (TypedBatch.mk _) (flatten_rebatch size r.batches)

theorem Recut.encode {r r' : Relation} (h : Recut r r') : Alike Recut r.encode r'.encode := by
  obtain ⟨h⟩ := h
  exact (h.mapM rowwise_encodeBatch.splits).bind fun _ _ hcut => .intro hcut

end Relation

/-- Tables of the same names and the same rows. -/
def Catalog.SameTables (c c' : Catalog) : Prop :=
  ∀ name, Alike (fun t t' => t.contents = t'.contents) (c.get name) (c'.get name)

theorem Catalog.SameTables.register {c c' : Catalog} (h : c.SameTables c') {t t' : Relation}
    (ht : t.contents = t'.contents) (target : String) :
    (c.register target t).SameTables (c'.register target t') := by
  intro name
  have hget : ∀ (c : Catalog) (t : Relation), (c.register target t).get name =
      if name = target then .ok t else c.get name := by
    intro c t
    by_cases hname : name = target
    · simp [get, RelScript.Catalog.register, hname]
    · rw [if_neg hname, get, RelScript.Catalog.register, List.lookup_cons, beq_false_of_ne hname]
      dsimp only
      rw [lookup_filter_of_ne hname]
      rfl
  rw [hget, hget]
  split
  · exact ht
  · exact h name

theorem Catalog.SameTables.write {c c' : Catalog} (h : c.SameTables c') {r r' : Relation}
    (hr : r.Recut r') (target : String) :
    Alike (fun written written' => written.2.SameTables written'.2) (c.write target r)
      (c'.write target r') :=
  hr.encode.bind fun _ _ ht => h.register ht.contents target

/-- From tables of the same rows the two steps give alike results, and leave tables of the same
rows. -/
def Run.Agrees {α β : Type} (R : α → β → Prop) (step : Run α) (step' : Run β) : Prop :=
  ∀ w w', w.catalog.SameTables w'.catalog →
    RelScript.Alike R (step w).1 (step' w').1 ∧
      (step w).2.catalog.SameTables (step' w').2.catalog

namespace Run.Agrees

variable {α β γ δ : Type} {R : α → β → Prop} {S : γ → δ → Prop}

theorem pure {a : α} {b : β} (h : R a b) :
    Run.Agrees R (Pure.pure a : Run α) (Pure.pure b : Run β) :=
  Relates.pure h

theorem ofOutcome {x : Outcome α} {y : Outcome β} (h : RelScript.Alike R x y) :
    Run.Agrees R (ofOutcome x) (ofOutcome y) :=
  Relates.ofOutcome h

theorem of_quiet {step step' : Run Unit} (h : Quiet step) (h' : Quiet step') :
    Run.Agrees Eq step step' :=
  Relates.of_quiet h h'

theorem bind {step : Run α} {step' : Run β} {next : α → Run γ} {next' : β → Run δ}
    (h : Run.Agrees R step step') (hnext : ∀ a b, R a b → Run.Agrees S (next a) (next' b)) :
    Run.Agrees S (step >>= next) (step' >>= next') :=
  Relates.bind h hnext

theorem get : Run.Agrees (fun w w' => w.catalog.SameTables w'.catalog)
    (MonadState.get : Run EngineState) (MonadState.get : Run EngineState) :=
  fun _ _ hw => ⟨hw, hw⟩

theorem finish (ctx ctx' : RunContext) (o : Operator) {r r' : Relation} (h : r.Recut r') :
    Run.Agrees Relation.Recut (Operator.execute.finish ctx o r)
      (Operator.execute.finish ctx' o r') :=
  (of_quiet (quiet_recordEvent _) (quiet_recordEvent _)).bind fun _ _ _ => pure h

theorem runParts {ctx ctx' : RunContext} (b : ScalarBindings) {step : List α → Outcome (List β)}
    (hstep : Splits step) {batches batches' : List (List α)} (h : SameRows batches batches') :
    Run.Agrees SameRows (runParts ctx b step batches)
      (RelScript.runParts ctx' b step batches') := by
  intro w w' hw
  obtain ⟨v, hrun, hv⟩ := run_runParts ctx b step batches w
  obtain ⟨v', hrun', hv'⟩ := run_runParts ctx' b step batches' w'
  rw [hrun, hrun', hv, hv']
  exact ⟨(h.partition ctx.parallelism ctx'.parallelism).mapM hstep, hw⟩

end Run.Agrees

section Steps

variable {s : Schema}

theorem splits_filterSlice (predicate : Expr) (b : ScalarBindings) :
    Splits fun rows : Batch s => filterSlice predicate b rows := by
  cases hcompile : predicate.compile s b with
  | error e =>
      have hfails : Rowwise fun _ : Batch s => (.error e : Outcome (Batch s)) :=
        Rowwise.error fun _ => rfl
      refine hfails.splits.congr fun rows => ?_
      rw [filterSlice, hcompile]
      rfl
  | ok e =>
      have hmask : Rowwise fun rows : Batch s =>
          e.2.eval rows >>= (·.expect .boolean .predicateType) :=
        e.2.rowwise_eval.bind (Column.rowwise_expect .boolean .predicateType)
      have hpaired := (Rowwise.map id).zipWith hmask Prod.mk
      have hkept := hpaired.splits.map (fun rows => (rows.filter fun r => holdsTrue r.2).map (·.1))
        fun a b => by rw [List.filter_append, List.map_append]
      refine hkept.congr fun rows => ?_
      rw [filterSlice, hcompile, List.map_id]
      dsimp only [Bind.bind, Except.bind]
      cases e.2.eval rows with
      | error f => rfl
      | ok mask =>
          dsimp only
          cases mask.expect .boolean .predicateType <;> rfl

theorem recut_scanTable {table table' : Relation} (h : table.contents = table'.contents)
    (size size' : Nat) (source : String) (declared : RelationSchema) :
    Alike Relation.Recut (scanTable size source declared table)
      (scanTable size' source declared table') := by
  obtain ⟨batches', rfl, hrows⟩ := Relation.exists_of_contents h
  have hcut := SameRows.rebatch hrows size size'
  cases declared with
  | none => exact .intro hcut
  | some fields =>
      have hcast : Rowwise fun rows : Batch table.schema =>
          scanColumns rows 0 fields >>= fun b => b.check (.scan source) :=
        (rowwise_scanColumns 0 fields).bind (Batch.rowwise_check (.scan source))
      exact (hcut.mapM hcast.splits).bind fun _ _ h => .intro h

theorem alike_aggregateRelation {input input' : Relation} (h : input.Recut input')
    (keys : List Expr) (aggregates : List (Named Aggregate)) (b : ScalarBindings) :
    Alike Eq (aggregateRelation input keys aggregates b)
      (aggregateRelation input' keys aggregates b) := by
  obtain ⟨hcut⟩ := h
  apply (Alike.refl _).bind_eq
  intro compiled
  apply (Alike.refl _).bind_eq
  intro measures
  refine Alike.bind_eq ?_ fun _ => Alike.refl _
  have hcells := (rowwise_evalCells (compiled.map (·.2))).zipWith
    (rowwise_evalCells (measures.map (·.arg))) Prod.mk
  refine Eq.subst (motive := fun add => Alike Eq (List.foldlM add [] _) (List.foldlM add [] _)) ?_
    (hcut.foldlM hcells.splits (addRow (measures.map Measure.start)) [])
  funext groups rows
  rw [addBatch]
  cases evalCells (compiled.map (·.2)) rows with
  | error e => rfl
  | ok keyRows => cases evalCells (measures.map (·.arg)) rows <;> rfl

theorem alike_aggregateRelation_flatten {s : Schema} {batches : List (Batch s)} (hne : batches ≠ [])
    (keys : List Expr) (aggregates : List (Named Aggregate)) (b : ScalarBindings) :
    Alike Eq (aggregateRelation ⟨s, [batches.flatten]⟩ keys aggregates b)
      (aggregateRelation ⟨s, batches⟩ keys aggregates b) :=
  alike_aggregateRelation (.intro ⟨List.flatten_singleton, by simp [hne]⟩) keys aggregates b

theorem joinRelations_eq {left left' right right' : Relation} (hl : left.Recut left')
    (hr : right.Recut right') (on : List (Expr × Expr)) (b : ScalarBindings) :
    joinRelations left right on b = joinRelations left' right' on b := by
  obtain ⟨hl⟩ := hl
  obtain ⟨hr⟩ := hr
  unfold joinRelations Relation.rows
  rw [hl.rows, hr.rows]

end Steps

/-- Two contexts whose slots offer the same. -/
def RunContext.ReadsAlike (ctx ctx' : RunContext) : Prop :=
  ∀ id, Alike Eq (ctx.read id) (ctx'.read id)

theorem RunContext.ReadsAlike.bindSideInputs {ctx ctx' : RunContext} (h : ctx.ReadsAlike ctx')
    (ids : List SideInputId) (b : ScalarBindings) :
    Alike Eq (ctx.bindSideInputs ids b) (ctx'.bindSideInputs ids b) := by
  induction ids generalizing b with
  | nil => exact Alike.refl _
  | cons id rest ih =>
      rw [bindSideInputs_cons, bindSideInputs_cons]
      exact (h id).bind_eq fun x => ih _

/-- An operator tree gives recut rows, or fails, in two runs over tables of the same rows. -/
theorem Operator.execute_agrees {ctx ctx' : RunContext} (h : ctx.ReadsAlike ctx') (o : Operator)
    (b : ScalarBindings) : Run.Agrees Relation.Recut (o.execute ctx b) (o.execute ctx' b) := by
  have hfinish := Run.Agrees.finish ctx ctx'
  induction o generalizing b with
  | scan source declared size =>
      apply Run.Agrees.get.bind
      intro w w' htables
      apply (Run.Agrees.ofOutcome (htables source)).bind
      intro table table' hcontents
      apply (Run.Agrees.ofOutcome (recut_scanTable hcontents _ _ source declared)).bind
      intro r r' hr
      exact hfinish _ hr
  | filter predicate input ih =>
      apply (ih b).bind
      intro child child' hchild
      obtain ⟨hcut⟩ := hchild
      apply (Run.Agrees.runParts b (splits_filterSlice predicate b) hcut).bind
      intro batches batches' hbatches
      exact hfinish _ (.intro hbatches)
  | project columns input ih =>
      apply (ih b).bind
      intro child child' hchild
      obtain ⟨hcut⟩ := hchild
      apply (Run.Agrees.ofOutcome (Alike.refl _)).bind
      rintro compiled _ rfl
      apply (Run.Agrees.runParts b (rowwise_projectSlice compiled).splits hcut).bind
      intro batches batches' hbatches
      exact hfinish _ (.intro hbatches)
  | hashAggregate keys aggregates input ih =>
      apply (ih b).bind
      intro child child' hchild
      apply (Run.Agrees.ofOutcome (alike_aggregateRelation hchild keys aggregates b)).bind
      rintro r _ rfl
      exact hfinish _ (.refl r)
  | hashJoin left right on ihl ihr =>
      apply (ihl b).bind
      intro l l' hl
      apply (ihr b).bind
      intro r r' hr
      rw [joinRelations_eq hl hr]
      apply (Run.Agrees.ofOutcome (Alike.refl _)).bind
      rintro joined _ rfl
      exact hfinish _ (.refl joined)
  | limit count input ih =>
      apply (ih b).bind
      intro child child' hchild
      obtain ⟨hcut⟩ := hchild
      exact hfinish _ (.intro (hcut.limit count))
  | store target input ih =>
      apply (ih b).bind
      intro child child' hchild
      apply Run.Agrees.get.bind
      intro w w' htables
      apply (Run.Agrees.ofOutcome (htables.write hchild target)).bind
      intro written written' hwritten
      -- Both catalogs receive the rows, each cut in its own way.
      have hmodify : Run.Agrees (fun _ _ => True)
          (modify fun w : EngineState => { w with catalog := written.2 } : Run PUnit)
          (modify fun w : EngineState => { w with catalog := written'.2 } : Run PUnit) :=
        fun _ _ _ => ⟨trivial, hwritten⟩
      apply hmodify.bind
      intro _ _ _
      exact hfinish _ hchild
  | broadcast ids input ih =>
      apply (Run.Agrees.ofOutcome (h.bindSideInputs ids b)).bind
      rintro bound _ rfl
      apply (ih bound).bind
      intro r r' hr
      exact hfinish _ hr

section Slots

/-- Slot states of one kind, which offer the same. -/
inductive SlotState.Agrees : SlotState → SlotState → Prop
  | refl (state : SlotState) : Agrees state state
  | failed (e f : Error) : Agrees (.failed e) (.failed f)

theorem SlotState.Agrees.binding? {state state' : SlotState} (h : state.Agrees state') :
    state.binding? = state'.binding? := by
  cases h <;> rfl

/-- Slots of one number, in states that agree. -/
structure Slot.Agrees (slot slot' : Slot) : Prop where
  id : slot.id = slot'.id
  state : slot.state.Agrees slot'.state

variable {slots slots' : List Slot}

theorem find?_agrees (h : List.Forall₂ Slot.Agrees slots slots') (id : SideInputId) :
    Option.Rel Slot.Agrees (slots.find? (·.id = id)) (slots'.find? (·.id = id)) := by
  induction h with
  | nil => exact .none
  | cons hslot _ ih =>
      rw [List.find?_cons, List.find?_cons, hslot.id]
      split
      · exact .some hslot
      · exact ih

theorem readsAlike_of_slots (h : List.Forall₂ Slot.Agrees slots slots')
    (settings settings' : RunSettings) :
    (settings.context slots).ReadsAlike (settings'.context slots') := by
  intro id
  have hfound : Option.Rel Slot.Agrees ((settings.context slots).slot? id)
      ((settings'.context slots').slot? id) := find?_agrees h id
  unfold RunContext.read
  revert hfound
  generalize (settings.context slots).slot? id = found
  generalize (settings'.context slots').slot? id = found'
  rintro (hslot | _)
  · rw [Alike.iff_toOption_eq, toOption_resolve, toOption_resolve, hslot.state.binding?]
  · trivial

theorem agrees_putSlot (h : List.Forall₂ Slot.Agrees slots slots') {slot slot' : Slot}
    (hslot : slot.Agrees slot') :
    List.Forall₂ Slot.Agrees (putSlot slot slots) (putSlot slot' slots') := by
  have hothers : List.Forall₂ Slot.Agrees (slots.filter (·.id ≠ slot.id))
      (slots'.filter (·.id ≠ slot'.id)) := by
    refine List.rel_filter (fun other other' hother => ?_) h
    show decide (other.id ≠ slot.id) = true ↔ decide (other'.id ≠ slot'.id) = true
    rw [hother.id, hslot.id]
  exact List.rel_append hothers (.cons hslot .nil)

theorem Slot.agrees_settled (slot : Slot) {result result' : Outcome Relation}
    (h : Alike Relation.Recut result result') :
    (slot.settled result).Agrees (slot.settled result') := by
  cases result with
  | error e =>
      obtain ⟨f, rfl⟩ := h.error_left
      exact .failed e f
  | ok r =>
      obtain ⟨r', rfl, ⟨hcut⟩⟩ := h.ok_left
      rw [settled, settled, outcome, outcome, hcut.rows]
      exact .refl _

variable {settings settings' : RunSettings} {w w' : EngineState}

theorem materialize_agrees (hlimit : settings.rowLimit = settings'.rowLimit)
    (hslots : List.Forall₂ Slot.Agrees slots slots')
    (htables : w.catalog.SameTables w'.catalog) (p : SideInputPlan) :
    (materialize settings p slots w).1.Agrees (materialize settings' p slots' w').1 ∧
      (materialize settings p slots w).2.catalog.SameTables
        (materialize settings' p slots' w').2.catalog := by
  obtain ⟨hresult, hafter⟩ := p.plan.execute_agrees
    (readsAlike_of_slots hslots settings settings') [] w w' htables
  refine ⟨⟨?_, ?_⟩, ?_⟩
  · rw [id_materialize, id_materialize]
  · rw [state_materialize, state_materialize, hlimit]
    exact Slot.agrees_settled _ hresult
  · rwa [catalog_materialize, catalog_materialize]

theorem materializeAll_agrees (hlimit : settings.rowLimit = settings'.rowLimit)
    (plans : List SideInputPlan) (hslots : List.Forall₂ Slot.Agrees slots slots')
    (htables : w.catalog.SameTables w'.catalog) :
    List.Forall₂ Slot.Agrees (materializeAll settings plans slots w).1
        (materializeAll settings' plans slots' w').1 ∧
      (materializeAll settings plans slots w).2.catalog.SameTables
        (materializeAll settings' plans slots' w').2.catalog := by
  induction plans generalizing slots slots' w w' with
  | nil => exact ⟨hslots, htables⟩
  | cons p rest ih =>
      obtain ⟨hslot, hafter⟩ := materialize_agrees hlimit hslots htables p
      exact ih (agrees_putSlot hslots hslot) hafter

theorem find?_materializeAll (settings : RunSettings) {plans : List SideInputPlan}
    {id : SideInputId} (slots : List Slot) (w : EngineState)
    (h : (∃ p ∈ plans, p.id = id) ∨
      ∃ slot, slots.find? (·.id = id) = some slot ∧ slot.state.isTerminal = true) :
    ∃ slot, (materializeAll settings plans slots w).1.find? (·.id = id) = some slot ∧
      slot.state.isTerminal = true := by
  induction plans generalizing slots w with
  | nil => exact h.resolve_left (by simp)
  | cons p rest ih =>
      refine ih (putSlot (materialize settings p slots w).1 slots)
        (materialize settings p slots w).2 ?_
      rw [find?_putSlot, id_materialize]
      by_cases hid : id = p.id
      · refine Or.inr ⟨_, if_pos hid, ?_⟩
        rw [state_materialize]
        exact Slot.isTerminal_settled _ _
      · rw [if_neg hid]
        refine h.imp_left ?_
        rintro ⟨q, hq, rfl⟩
        rcases List.mem_cons.mp hq with rfl | hq
        · exact absurd rfl hid
        · exact ⟨q, hq, rfl⟩

end Slots

/-- Results of one statement with the same rows, and the same number of them. -/
structure OutputResult.Agrees (r r' : OutputResult) : Prop where
  aliasName : r.aliasName = r'.aliasName
  target : r.target = r'.target
  count : r.count = r'.count
  rows : r.rows.contents = r'.rows.contents

theorem OutputPlan.agrees_result (o : OutputPlan) {r r' : Relation} (h : r.Recut r') :
    (o.result r).Agrees (o.result r') := by
  refine ⟨rfl, rfl, h.size, ?_⟩
  unfold result
  cases o.target with
  | collect => exact h.contents
  | store name =>
      obtain ⟨h⟩ := h
      rfl

theorem runOutputs_agrees {settings settings' : RunSettings} {slots slots' : List Slot}
    (hslots : List.Forall₂ Slot.Agrees slots slots') (outputs : List OutputPlan)
    {w w' : EngineState} (htables : w.catalog.SameTables w'.catalog) :
    List.Forall₂ (Alike OutputResult.Agrees) (runOutputs settings slots outputs w).1
        (runOutputs settings' slots' outputs w').1 ∧
      (runOutputs settings slots outputs w).2.catalog.SameTables
        (runOutputs settings' slots' outputs w').2.catalog := by
  induction outputs generalizing w w' with
  | nil => exact ⟨.nil, htables⟩
  | cons o rest ih =>
      obtain ⟨hresult, hafter⟩ := o.plan.execute_agrees
        (readsAlike_of_slots hslots settings settings') [] w w' htables
      obtain ⟨hresults, hend⟩ := ih hafter
      exact ⟨.cons (hresult.map fun _ _ => o.agrees_result) hresults, hend⟩

/-- Two runs of a unit, under different settings and over different catalogs, in which nothing but
the cut of the rows differs. Plans may read the slots that the runs filled, or any others that
agree. -/
structure PhysicalUnit.RunsAgree (settings settings' : RunSettings) (u : PhysicalUnit)
    (w w' : EngineState) : Prop where
  plans : ∀ (o : Operator) (b : ScalarBindings) (slots slots' : List Slot),
    List.Forall₂ Slot.Agrees slots slots' →
      Alike (fun r r' => r.contents = r'.contents) (o.execute (settings.context slots) b w).1
        (o.execute (settings'.context slots') b w').1
  slots : List.Forall₂ Slot.Agrees (materializeAll settings u.schedule [] w).1
    (materializeAll settings' u.schedule [] w').1
  sideInputs : ∀ p ∈ u.sideInputs, ∃ slot slot',
    (materializeAll settings u.schedule [] w).1.find? (·.id = p.id) = some slot ∧
      (materializeAll settings' u.schedule [] w').1.find? (·.id = p.id) = some slot' ∧
        slot.state.isTerminal = true ∧ slot.state.Agrees slot'.state
  outputs : List.Forall₂ (Alike OutputResult.Agrees) (u.runAll settings w).1
    (u.runAll settings' w').1
  tables : (u.runAll settings w).2.catalog.SameTables (u.runAll settings' w').2.catalog

/-- Neither the batch size nor the number of tasks nor the batches of the tables matter: with one
bound on the size of scalar rows, plans, side inputs and outputs give the same schemas and rows. -/
theorem PhysicalUnit.runsAgree {settings settings' : RunSettings}
    (hlimit : settings.rowLimit = settings'.rowLimit) (u : PhysicalUnit) {w w' : EngineState}
    (htables : w.catalog.SameTables w'.catalog) : u.RunsAgree settings settings' w w' := by
  obtain ⟨hslots, hafter⟩ := materializeAll_agrees hlimit u.schedule .nil htables
  obtain ⟨houtputs, hend⟩ := runOutputs_agrees hslots u.outputs hafter
  refine ⟨fun o b slots slots' h => ?_, hslots, fun p hp => ?_, houtputs, hend⟩
  · obtain ⟨hresult, -⟩ :=
      o.execute_agrees (readsAlike_of_slots h settings settings') b w w' htables
    exact hresult.mono fun _ _ hcut => hcut.contents
  · have hscheduled : p ∈ u.schedule := List.mem_mergeSort.mpr hp
    obtain ⟨slot, hfound, hterminal⟩ := find?_materializeAll settings [] w
      (Or.inl ⟨p, hscheduled, rfl⟩)
    have hfound' := find?_agrees hslots p.id
    rw [hfound] at hfound'
    obtain ⟨slot', hslot', hagrees⟩ : ∃ slot',
        (materializeAll settings' u.schedule [] w').1.find? (·.id = p.id) = some slot' ∧
          slot.Agrees slot' := by
      revert hfound'
      generalize (materializeAll settings' u.schedule [] w').1.find? (·.id = p.id) = found'
      rintro ⟨hagrees⟩
      exact ⟨_, rfl, hagrees⟩
    exact ⟨slot, slot', hfound, hslot', hterminal, hagrees.state⟩

/-- A table of names. -/
def people : Relation :=
  ⟨[⟨"name", .utf8, true⟩], [["ann", "bob", "bob"].map fun name => .cons (some name) .nil]⟩

/-- A unit that picks all people of the last name. -/
def pickLast : PhysicalUnit :=
  let scan : Operator := .scan "people" (some people.schema) 8192
  let last : Expr := .placeholder ⟨0, "last", 0, .utf8, true⟩
  ⟨[⟨0, "last", .hashAggregate [] [⟨⟨.max, .columnRef "name" 0⟩, "name"⟩] scan,
      some people.schema, ["namesakes"]⟩],
    [⟨"namesakes", .collect,
      .broadcast [0] (.filter (.binary (.columnRef "name" 0) (.compare .eq) last) scan),
      some people.schema⟩]⟩

theorem pickLast_runsAgree :
    let whole : EngineState := ⟨Catalog.register [] "people" people, []⟩
    let cut : EngineState := ⟨Catalog.register [] "people" (people.rebatch 1), []⟩
    let large : RunSettings := ⟨"large", 8192, 1, 64⟩
    let small : RunSettings := ⟨"small", 2, 3, 64⟩
    large.rowLimit = small.rowLimit ∧ whole.catalog.SameTables cut.catalog ∧
      (pickLast.runAll large whole).1.map (·.toOption.map (·.count)) = [some 2] ∧
        pickLast.RunsAgree large small whole cut := by
  intro whole cut large small
  have hempty : Catalog.SameTables [] [] := fun _ => trivial
  have htables : whole.catalog.SameTables cut.catalog :=
    hempty.register (Relation.contents_rebatch 1 people).symm "people"
  have hlimit : large.rowLimit = small.rowLimit := rfl
  exact ⟨hlimit, htables, by cbv, pickLast.runsAgree hlimit htables⟩

end RelScript
