import RelScript.Proofs.Unit.Failures

/-!
The reasons that are counted for failed side inputs. A run counts every side input that fails, once,
and no other. The reason names the cause, apart from one case: a side input that fails because
another one has violated its cardinality is counted as if its own operators had failed.
-/

namespace RelScript

section Events

/-- Whether the event counts a failure. -/
def MetricEvent.isFailure : MetricEvent → Bool
  | scalarFailed _ _ _ => true
  | _ => false

/-- From every state, the step only adds to the record, and counts no failure. -/
def Run.CountsNoFailure {α : Type} (step : Run α) : Prop :=
  ∀ w, ∃ events, (step w).2.metrics = w.metrics ++ events ∧ ∀ e ∈ events, e.isFailure = false

namespace Run.CountsNoFailure

variable {α β : Type}

theorem of_metrics {step : Run α} (h : ∀ w, (step w).2.metrics = w.metrics) :
    Run.CountsNoFailure step :=
  fun w => ⟨[], by simp [h w], by simp⟩

theorem bind {step : Run α} {next : α → Run β} (h : Run.CountsNoFailure step)
    (hnext : ∀ a, Run.CountsNoFailure (next a)) : Run.CountsNoFailure (step >>= next) := by
  intro w
  obtain ⟨events, hevents, hquiet⟩ := h w
  rw [run_bind]
  cases (step w).1 with
  | error e => exact ⟨events, hevents, hquiet⟩
  | ok a =>
      obtain ⟨events', hevents', hquiet'⟩ := hnext a (step w).2
      refine ⟨events ++ events', ?_, List.forall_mem_append.mpr ⟨hquiet, hquiet'⟩⟩
      rw [← List.append_assoc, ← hevents]
      exact hevents'

theorem of_outcome (x : Outcome α) : Run.CountsNoFailure (ofOutcome x) := by
  cases x <;> exact of_metrics fun _ => rfl

theorem of_get : Run.CountsNoFailure (MonadState.get : Run EngineState) := of_metrics fun _ => rfl

theorem of_event {e : MetricEvent} (h : e.isFailure = false) :
    Run.CountsNoFailure (recordEvent e) :=
  fun _ => ⟨[e], rfl, List.forall_mem_singleton.mpr h⟩

theorem of_forM {step : α → Run Unit} {items : List α}
    (h : ∀ a ∈ items, Run.CountsNoFailure (step a)) : Run.CountsNoFailure (items.forM step) := by
  induction items with
  | nil => exact of_metrics fun _ => rfl
  | cons a items ih =>
      obtain ⟨hfirst, hrest⟩ := List.forall_mem_cons.mp h
      exact hfirst.bind fun _ => ih hrest

theorem of_runParts (ctx : RunContext) (b : ScalarBindings) (step : List α → Outcome (List β))
    (batches : List (List α)) : Run.CountsNoFailure (runParts ctx b step batches) := by
  have hreads : ∀ e ∈ ctx.readEvents b, e.isFailure = false := by
    intro e he
    obtain ⟨slot, -, rfl⟩ := List.mem_map.mp he
    rfl
  apply (of_forM fun _ _ => of_forM fun e he => of_event (hreads e he)).bind
  intro _
  exact (of_outcome _).bind fun _ => of_metrics fun _ => rfl

theorem of_finish (ctx : RunContext) (o : Operator) (r : Relation) :
    Run.CountsNoFailure (Operator.execute.finish ctx o r) :=
  (of_event rfl).bind fun _ => of_metrics fun _ => rfl

end Run.CountsNoFailure

open Run.CountsNoFailure in
theorem Operator.countsNoFailure (o : Operator) (ctx : RunContext) (b : ScalarBindings) :
    Run.CountsNoFailure (o.execute ctx b) := by
  induction o generalizing b with
  | scan source declared size =>
      apply of_get.bind
      intro w
      exact (of_outcome _).bind fun _ => (of_outcome _).bind fun _ => of_finish ctx _ _
  | filter predicate input ih =>
      exact (ih b).bind fun _ => (of_runParts ctx b _ _).bind fun _ => of_finish ctx _ _
  | project columns input ih =>
      apply (ih b).bind
      intro child
      exact (of_outcome _).bind fun _ => (of_runParts ctx b _ _).bind fun _ => of_finish ctx _ _
  | hashAggregate keys aggregates input ih =>
      exact (ih b).bind fun _ => (of_outcome _).bind fun _ => of_finish ctx _ _
  | hashJoin left right on ihl ihr =>
      apply (ihl b).bind
      intro l
      exact (ihr b).bind fun _ => (of_outcome _).bind fun _ => of_finish ctx _ _
  | limit count input ih => exact (ih b).bind fun _ => of_finish ctx _ _
  | store target input ih =>
      apply (ih b).bind
      intro child
      apply of_get.bind
      intro w
      apply (of_outcome _).bind
      intro written
      exact (of_metrics fun _ => rfl).bind fun _ => of_finish ctx _ _
  | broadcast ids input ih =>
      exact (of_outcome _).bind fun bound => (ih bound).bind fun _ => of_finish ctx _ _

end Events

section Reasons

/-- The reason of the event, if it counts a failure of the alias in the query. -/
def MetricEvent.reason? (query aliasName : String) : MetricEvent → Option String
  | scalarFailed q a reason => if q = query ∧ a = aliasName then some reason else none
  | _ => none

/-- What is recorded between two states: nothing is taken back, and the failures of every alias are
counted under those reasons. -/
def Counts (query : String) (before after : EngineState) (reasons : String → List String) : Prop :=
  ∃ events, after.metrics = before.metrics ++ events ∧
    ∀ a, events.filterMap (MetricEvent.reason? query a) = reasons a

variable {query : String} {w w' w'' : EngineState} {reasons reasons' : String → List String}

theorem Counts.refl (query : String) (w : EngineState) : Counts query w w fun _ => [] :=
  ⟨[], by simp, fun _ => rfl⟩

theorem Counts.trans (h : Counts query w w' reasons) (h' : Counts query w' w'' reasons') :
    Counts query w w'' fun a => reasons a ++ reasons' a := by
  obtain ⟨events, hevents, hreasons⟩ := h
  obtain ⟨events', hevents', hreasons'⟩ := h'
  refine ⟨events ++ events', by rw [hevents', hevents, List.append_assoc], fun a => ?_⟩
  rw [List.filterMap_append, hreasons, hreasons']

theorem Run.CountsNoFailure.counts {α : Type} {step : Run α} (h : Run.CountsNoFailure step)
    (query : String) (w : EngineState) : Counts query w (step w).2 fun _ => [] := by
  obtain ⟨events, hevents, hquiet⟩ := h w
  refine ⟨events, hevents, fun a => List.filterMap_eq_nil_iff.mpr fun e he => ?_⟩
  have hnone := hquiet e he
  cases e with
  | scalarFailed => cases hnone
  | _ => rfl

theorem counts_materialize (settings : RunSettings) (p : SideInputPlan) (slots : List Slot)
    (w : EngineState) :
    Counts settings.query w (materialize settings p slots w).2 fun a =>
      if p.aliasName = a then (settle (Slot.create p.id p.aliasName settings.rowLimit).begin
        (p.plan.execute (settings.context slots) [] w).1).2.toList else [] := by
  have hrun := (p.plan.countsNoFailure (settings.context slots) []).counts settings.query w
  have hevents : ∀ (reason : Option String) (w : EngineState),
      Counts settings.query w ((failureEvents settings.query p.aliasName reason).foldl
        EngineState.record (w.record (.materialized settings.query p.aliasName
          (Ieee.zero .double false)))) fun a =>
            if p.aliasName = a then reason.toList else [] := by
    intro reason w
    cases reason with
    | none => exact ⟨_, rfl, fun a => by simp [MetricEvent.reason?]⟩
    | some reason =>
        refine ⟨[_, .scalarFailed settings.query p.aliasName reason],
          List.append_assoc _ _ _, fun a => ?_⟩
        by_cases ha : p.aliasName = a <;> simp [List.filterMap_cons, MetricEvent.reason?, ha]
  exact hrun.trans (hevents _ _)

theorem counts_runOutputs (settings : RunSettings) (slots : List Slot) (os : List OutputPlan)
    (w : EngineState) :
    Counts settings.query w (runOutputs settings slots os w).2 fun _ => [] := by
  induction os generalizing w with
  | nil => exact .refl _ w
  | cons o rest ih =>
      have hfirst := (o.plan.countsNoFailure (settings.context slots) []).counts settings.query w
      exact hfirst.trans (ih _)

/-- What keeps the rows of a side input from being bound. -/
def Relation.FailsToBind (r : Relation) (limit : Nat) : BindReason → Prop
  | .cardinality => 2 ≤ r.size
  | .rowSize => ∃ row bytes, r.rows = [row] ∧ r.schema ≠ [] ∧ row.size = .ok bytes ∧ limit < bytes
  | .freeze => ∃ row, r.rows = [row] ∧ (r.schema = [] ∨ ∃ e, row.size = .error e)

theorem freezeRow_error_iff {aliasName : String} {limit : Nat} {s : Schema} {row : Row s}
    {reason : BindReason} :
    (∃ f, freezeRow aliasName limit row = .error f ∧ f.reason = reason) ↔
      reason = .freeze ∧ (s = [] ∨ ∃ e, row.size = .error e) ∨
        reason = .rowSize ∧ s ≠ [] ∧ ∃ bytes, row.size = .ok bytes ∧ limit < bytes := by
  unfold freezeRow
  cases s with
  | nil => simp [eq_comm]
  | cons f rest =>
      cases hsize : row.size with
      | error e => simp [eq_comm]
      | ok bytes =>
          by_cases hlimit : limit < bytes <;> simp [hlimit, eq_comm]

theorem Slot.outcome_error_iff (slot : Slot) (r : Relation) (reason : BindReason) :
    (∃ f, slot.outcome r.batches = .error f ∧ f.reason = reason) ↔
      r.FailsToBind slot.limit reason := by
  have hsize : r.size = r.rows.length := rfl
  have hflatten : r.batches.flatten = r.rows := rfl
  rw [outcome, hflatten]
  rcases hrows : r.rows with _ | ⟨row, _ | ⟨next, rest⟩⟩
  · cases reason <;> simp [Relation.FailsToBind, hsize, hrows]
  · have hfreeze : (∃ f, ((freezeRow slot.aliasName slot.limit row).map fun row =>
        SlotState.bound r.schema row) = .error f ∧ f.reason = reason) ↔
          ∃ f, freezeRow slot.aliasName slot.limit row = .error f ∧ f.reason = reason := by
      cases freezeRow slot.aliasName slot.limit row <;> simp [Except.map]
    rw [hfreeze, freezeRow_error_iff]
    cases reason <;> simp [Relation.FailsToBind, hsize, hrows]
  · cases reason <;> simp [Relation.FailsToBind, hsize, hrows]

theorem settle_ok (slot : Slot) (r : Relation) :
    (settle slot (.ok r)).2 = match slot.outcome r.batches with
      | .ok _ => none
      | .error f => some f.reason.label := by
  rw [settle, Slot.complete]
  cases slot.outcome r.batches <;> rfl

theorem failureReason_eq_upstream_iff {e : Error} :
    failureReason e = "upstream" ↔ ∃ text, e = .cancelled text := by
  cases e <;> simp [failureReason]

theorem failureReason_cases (e : Error) :
    failureReason e = "upstream" ∨ failureReason e = "subtree" := by
  cases e <;> simp [failureReason]

theorem BindReason.label_inj {a b : BindReason} : a.label = b.label ↔ a = b := by
  cases a <;> cases b <;> simp [label]

theorem BindReason.label_ne (a : BindReason) : a.label ≠ "upstream" ∧ a.label ≠ "subtree" := by
  cases a <;> simp [label]

theorem settle_label_iff {slot : Slot} {x : Outcome Relation} {reason : BindReason} :
    (settle slot x).2 = some reason.label ↔
      ∃ r, x = .ok r ∧ r.FailsToBind slot.limit reason := by
  cases x with
  | error e =>
      have hne : failureReason e ≠ reason.label := by
        rcases failureReason_cases e with he | he <;> rw [he]
        · exact reason.label_ne.1.symm
        · exact reason.label_ne.2.symm
      simpa [settle] using hne
  | ok r =>
      have hreason := slot.outcome_error_iff r reason
      rw [settle_ok]
      cases houtcome : slot.outcome r.batches with
      | ok state => simpa [houtcome] using hreason
      | error f => simpa [houtcome, BindReason.label_inj] using hreason

theorem settle_upstream_iff {slot : Slot} {x : Outcome Relation} :
    (settle slot x).2 = some "upstream" ↔ ∃ text, x = .error (.cancelled text) := by
  cases x with
  | error e => simpa [settle] using failureReason_eq_upstream_iff
  | ok r =>
      rw [settle_ok]
      cases slot.outcome r.batches with
      | ok state => simp
      | error f => simpa using f.reason.label_ne.1

theorem settle_subtree_iff {slot : Slot} {x : Outcome Relation} :
    (settle slot x).2 = some "subtree" ↔ ∃ e, x = .error e ∧ ∀ text, e ≠ .cancelled text := by
  cases x with
  | error e => cases e <;> simp [settle, failureReason]
  | ok r =>
      rw [settle_ok]
      cases slot.outcome r.batches with
      | ok state => simp
      | error f => simpa using f.reason.label_ne.2

theorem isSome_settle_iff {slot : Slot} {x : Outcome Relation} :
    (settle slot x).2.isSome ↔ ∃ e, slot.settled x = .failed e := by
  cases x with
  | error e => simp [settle, Slot.settled]
  | ok r =>
      rw [settle_ok, Slot.settled]
      cases houtcome : slot.outcome r.batches with
      | error f => simp
      | ok state => rcases Slot.cases_of_outcome houtcome with rfl | ⟨row, rfl⟩ <;> simp

end Reasons

namespace PhysicalUnit

variable {u : PhysicalUnit} {settings : RunSettings} {w : EngineState}

/-- The reason under which a run counts the failure of a side input, if it fails. -/
def failure? (settings : RunSettings) (u : PhysicalUnit) (w : EngineState) (p : SideInputPlan) :
    Option String :=
  (settle (Slot.create p.id p.aliasName settings.rowLimit).begin
    (u.sideInputRows settings w p)).2

theorem Ordered.begun_eq (h : u.Ordered) (settings : RunSettings) (w : EngineState) (k : Nat) :
    u.begun settings w k = materializeAll settings (u.sideInputs.take k) [] w := by
  rw [begun, h.schedule_eq]

theorem Ordered.counts_begun (h : u.Ordered) (settings : RunSettings) (w : EngineState) (k : Nat) :
    Counts settings.query w (u.begun settings w k).2 fun a =>
      (u.sideInputs.take k).flatMap fun p =>
        if p.aliasName = a then (u.failure? settings w p).toList else [] := by
  induction k with
  | zero => exact .refl _ w
  | succ k ih =>
      cases hp : u.sideInputs[k]? with
      | none =>
          have htake : u.sideInputs.take (k + 1) = u.sideInputs.take k := by
            rw [List.take_add_one, hp, Option.toList_none, List.append_nil]
          have hsame : u.begun settings w (k + 1) = u.begun settings w k := by
            rw [h.begun_eq, h.begun_eq, htake]
          rw [htake, hsame]
          exact ih
      | some p =>
          have htake : u.sideInputs.take (k + 1) = u.sideInputs.take k ++ [p] := by
            rw [List.take_add_one, hp, Option.toList_some]
          have hnext : (u.begun settings w (k + 1)).2 =
              (materialize settings p (u.begun settings w k).1 (u.begun settings w k).2).2 := by
            rw [h.begun_eq, h.begun_eq, htake, materializeAll_append]
            rfl
          have hcounts := counts_materialize settings p (u.begun settings w k).1
            (u.begun settings w k).2
          obtain rfl := h.numbered k p hp
          rw [hnext, htake]
          simpa [failure?, sideInputRows] using ih.trans hcounts

theorem Ordered.counts_runAll (h : u.Ordered) (settings : RunSettings) (w : EngineState) :
    Counts settings.query w (u.runAll settings w).2 fun a =>
      u.sideInputs.flatMap fun p =>
        if p.aliasName = a then (u.failure? settings w p).toList else [] := by
  have hsides := h.counts_begun settings w u.sideInputs.length
  rw [h.begun_eq, List.take_length] at hsides
  have houtputs := counts_runOutputs settings (materializeAll settings u.sideInputs [] w).1
    u.outputs (materializeAll settings u.sideInputs [] w).2
  rw [runAll, h.schedule_eq]
  simpa using hsides.trans houtputs

/-- The reasons that a run counts for the failures of an alias, in order. -/
def countedReasons (settings : RunSettings) (u : PhysicalUnit) (w : EngineState) (a : String) :
    List String :=
  ((u.runAll settings w).2.metrics.drop w.metrics.length).filterMap
    (MetricEvent.reason? settings.query a)

/-- A run that counts its failures: every side input that fails once, and no other alias. A side
input whose operators gave rows is counted under what kept them from being bound. One that was
stopped by another side input is counted as failed upstream, unless that one had violated its
cardinality: then it is counted as if its own operators had failed. -/
structure CountsCauses (u : PhysicalUnit) (settings : RunSettings) (w : EngineState) : Prop where
  kept : w.metrics <+: (u.runAll settings w).2.metrics
  others : ∀ a, a ∉ u.sideInputs.map (·.aliasName) → u.countedReasons settings w a = []
  failed : ∀ p ∈ u.sideInputs, (∃ e, u.Failed settings w p.id e) →
    ∃ reason, u.countedReasons settings w p.aliasName = [reason]
  unfailed : ∀ p ∈ u.sideInputs, (∀ e, ¬ u.Failed settings w p.id e) →
    u.countedReasons settings w p.aliasName = []
  upstream : ∀ p ∈ u.sideInputs, u.countedReasons settings w p.aliasName = ["upstream"] ↔
    ∃ id e, u.Cancels settings w id p.id ∧ u.Failed settings w id e ∧
      ∀ a rows, e ≠ .cardinality a rows
  subtree : ∀ p ∈ u.sideInputs, u.countedReasons settings w p.aliasName = ["subtree"] ↔
    ((∃ e, u.sideInputRows settings w p = .error e) ∧ ∀ id, ¬ u.Cancels settings w id p.id) ∨
      ∃ id a rows, u.Cancels settings w id p.id ∧ u.Failed settings w id (.cardinality a rows)
  binding : ∀ p ∈ u.sideInputs, ∀ reason : BindReason,
    u.countedReasons settings w p.aliasName = [reason.label] ↔
      ∃ r, u.sideInputRows settings w p = .ok r ∧ r.FailsToBind settings.rowLimit reason

theorem Failed.unique {id : SideInputId} {e e' : Error} (h : u.Failed settings w id e)
    (h' : u.Failed settings w id e') : e = e' := by
  obtain ⟨slot, hslot, hstate⟩ := h
  obtain ⟨slot', hslot', hstate'⟩ := h'
  rw [hslot] at hslot'
  cases hslot'
  exact SlotState.failed.inj (hstate.symm.trans hstate')

theorem exists_cancels {p : SideInputPlan} (hp : p ∈ u.sideInputs) {e : Error}
    (hrows : u.sideInputRows settings w p = .error e) (he : e.isHandedOn = true) :
    ∃ id, u.Cancels settings w id p.id := by
  obtain ⟨id, hstops⟩ := Operator.exists_stopsAt hrows he
  exact ⟨id, p, hp, rfl, hstops⟩

namespace Ordered

variable {p : SideInputPlan}

theorem exists_failed_of_read (h : u.Ordered) (hp : p ∈ u.sideInputs) {e : Error}
    (hread : (settings.context (u.finalSlots settings w)).read p.id = .error e) :
    ∃ e', u.Failed settings w p.id e' := by
  obtain ⟨slot, hslot, hterminal⟩ : ∃ slot,
      (u.finalSlots settings w).find? (·.id = p.id) = some slot ∧
        slot.state.isTerminal = true := by
    refine ⟨_, h.find?_finalSlots hp, ?_⟩
    rw [state_materialize]
    exact Slot.isTerminal_settled _ _
  have hfound : (settings.context (u.finalSlots settings w)).slot? p.id = some slot := hslot
  rw [RunContext.read, hfound] at hread
  change RunContext.resolve slot = .error e at hread
  rw [RunContext.resolve, Slot.resolve?] at hread
  cases hstate : slot.state with
  | failed e' => exact ⟨e', slot, hslot, hstate⟩
  | bound | boundEmpty =>
      rw [hstate] at hread
      cases hread
  | unresolved | materializing =>
      rw [hstate] at hterminal
      cases hterminal

theorem failed_of_cancels (h : u.Ordered) (hp : p ∈ u.sideInputs) {id : SideInputId}
    (hcancels : u.Cancels settings w id p.id) :
    ∃ e a, u.Failed settings w id e ∧ u.sideInputRows settings w p = .error (e.forReader a) := by
  obtain ⟨q, hq, hqp, hstops⟩ := hcancels
  have hlt : id < p.id := hqp ▸ h.below q hq id hstops.mem_sideInputs
  have hlength : p.id < u.sideInputs.length := (List.getElem?_eq_some_iff.mp (h.getElem?_id hp)).1
  obtain ⟨first, hfirst⟩ : ∃ first, u.sideInputs[id]? = some first :=
    ⟨_, List.getElem?_eq_getElem (Nat.lt_trans hlt hlength)⟩
  obtain rfl := h.numbered id first hfirst
  replace hfirst := List.mem_of_getElem? hfirst
  obtain ⟨e', hread, -⟩ := hstops.execute_eq
  rw [h.read_begun hlt] at hread
  obtain ⟨e, hfailed⟩ := h.exists_failed_of_read hfirst hread
  exact ⟨e, _, hfailed, h.rows_of_cancels hp (h.read_failed hfirst hfailed) ⟨q, hq, hqp, hstops⟩⟩

theorem countedReasons_eq (h : u.Ordered) (settings : RunSettings) (w : EngineState) (a : String) :
    u.countedReasons settings w a = u.sideInputs.flatMap fun p =>
      if p.aliasName = a then (u.failure? settings w p).toList else [] := by
  obtain ⟨events, hevents, hreasons⟩ := h.counts_runAll settings w
  rw [countedReasons, hevents, List.drop_left, hreasons]

theorem countedReasons_of_mem (h : u.Ordered) (hnames : (u.sideInputs.map (·.aliasName)).Nodup)
    (hp : p ∈ u.sideInputs) :
    u.countedReasons settings w p.aliasName = (u.failure? settings w p).toList := by
  rw [h.countedReasons_eq]
  exact flatMap_of_key hnames (fun q => (u.failure? settings w q).toList) hp

theorem failed_iff (h : u.Ordered) (hp : p ∈ u.sideInputs) :
    (∃ e, u.Failed settings w p.id e) ↔ (u.failure? settings w p).isSome := by
  rw [failure?, isSome_settle_iff]
  simp only [Failed, h.find?_finalSlots hp, Option.some.injEq, exists_eq_left', state_materialize]
  rfl

/-- The failure of a side input that stopped another one is handed on: as what it is if it is a
violated cardinality, and as a cancellation if not. -/
theorem failure?_upstream_iff (h : u.Ordered) (hp : p ∈ u.sideInputs) :
    u.failure? settings w p = some "upstream" ↔
      ∃ id e, u.Cancels settings w id p.id ∧ u.Failed settings w id e ∧
        ∀ a rows, e ≠ .cardinality a rows := by
  rw [failure?, settle_upstream_iff]
  constructor
  · rintro ⟨text, hrows⟩
    obtain ⟨id, hcancels⟩ := exists_cancels hp hrows rfl
    obtain ⟨e, a, hfailed, hreads⟩ := h.failed_of_cancels hp hcancels
    refine ⟨id, e, hcancels, hfailed, ?_⟩
    rintro b rows rfl
    rw [hrows] at hreads
    cases hreads
  · rintro ⟨id, e, hcancels, hfailed, hne⟩
    obtain ⟨e', a, hfailed', hrows⟩ := h.failed_of_cancels hp hcancels
    obtain rfl := hfailed.unique hfailed'
    rcases e.forReader_cases a with ⟨b, rows, hcardinality, -⟩ | ⟨-, text, htext⟩
    · exact absurd hcardinality (hne b rows)
    · exact ⟨text, by rw [hrows, htext]⟩

theorem failure?_subtree_iff (h : u.Ordered) (hp : p ∈ u.sideInputs) :
    u.failure? settings w p = some "subtree" ↔
      ((∃ e, u.sideInputRows settings w p = .error e) ∧ ∀ id, ¬ u.Cancels settings w id p.id) ∨
        ∃ id a rows, u.Cancels settings w id p.id ∧
          u.Failed settings w id (.cardinality a rows) := by
  rw [failure?, settle_subtree_iff]
  constructor
  · rintro ⟨e, hrows, hne⟩
    by_cases hcancels : ∃ id, u.Cancels settings w id p.id
    · obtain ⟨id, hcancels⟩ := hcancels
      obtain ⟨e', a, hfailed, hreads⟩ := h.failed_of_cancels hp hcancels
      obtain rfl : e = e'.forReader a := Except.error.inj (hrows.symm.trans hreads)
      rcases e'.forReader_cases a with ⟨b, rows, rfl, -⟩ | ⟨-, text, htext⟩
      · exact Or.inr ⟨id, b, rows, hcancels, hfailed⟩
      · exact absurd htext (hne text)
    · exact Or.inl ⟨⟨e, hrows⟩, not_exists.mp hcancels⟩
  · rintro (⟨⟨e, hrows⟩, hnone⟩ | ⟨id, b, rows, hcancels, hfailed⟩)
    · refine ⟨e, hrows, ?_⟩
      rintro text rfl
      obtain ⟨id, hcancels⟩ := exists_cancels hp hrows rfl
      exact hnone id hcancels
    · obtain ⟨e, a, hfailed', hrows⟩ := h.failed_of_cancels hp hcancels
      obtain rfl := hfailed.unique hfailed'
      exact ⟨_, hrows, nofun⟩

/-- Where side inputs run in the order of their numbers and under names of their own, a run counts
its failures. -/
theorem countsCauses (h : u.Ordered) (hnames : (u.sideInputs.map (·.aliasName)).Nodup)
    (settings : RunSettings) (w : EngineState) : u.CountsCauses settings w := by
  -- What is counted under the name of a side input is the one reason that settling it gives.
  have hcounted : ∀ p ∈ u.sideInputs, ∀ reason,
      u.countedReasons settings w p.aliasName = [reason] ↔
        u.failure? settings w p = some reason := by
    intro p hp reason
    rw [h.countedReasons_of_mem hnames hp]
    cases u.failure? settings w p <;> simp
  constructor
  case kept =>
    obtain ⟨events, hevents, -⟩ := h.counts_runAll settings w
    exact ⟨events, hevents.symm⟩
  case others =>
    intro a ha
    rw [h.countedReasons_eq, List.flatMap_eq_nil_iff]
    intro p hp
    exact if_neg fun hname => ha (List.mem_map.mpr ⟨p, hp, hname⟩)
  case failed =>
    intro p hp hfailed
    obtain ⟨reason, hreason⟩ := Option.isSome_iff_exists.mp ((h.failed_iff hp).mp hfailed)
    exact ⟨reason, (hcounted p hp reason).mpr hreason⟩
  case unfailed =>
    intro p hp hunfailed
    have hnone : ¬ (u.failure? settings w p).isSome := fun hsome => by
      obtain ⟨e, he⟩ := (h.failed_iff hp).mpr hsome
      exact hunfailed e he
    rw [h.countedReasons_of_mem hnames hp, Option.not_isSome_iff_eq_none.mp hnone]
    rfl
  case upstream => exact fun p hp => (hcounted p hp _).trans (h.failure?_upstream_iff hp)
  case subtree => exact fun p hp => (hcounted p hp _).trans (h.failure?_subtree_iff hp)
  case binding =>
    intro p hp reason
    rw [hcounted p hp, failure?, settle_label_iff]
    rfl

end Ordered

end PhysicalUnit

theorem Script.aliasNames_nodup_of_lower {script : Script} {statements : List Statement}
    {u : CompiledUnit} (h : script.compile statements = .ok u) {batchSize : Nat}
    {phys : PhysicalUnit} (hphys : u.lower batchSize = .ok phys) :
    (phys.sideInputs.map (·.aliasName)).Nodup := by
  have hordered := Script.ordered_of_lower h hphys
  obtain ⟨c, hc, hsides, -⟩ := Script.built_of_compile h
  obtain ⟨hplans, -⟩ := CompiledUnit.lower_eq_ok.mp hphys
  rw [hsides] at hplans
  have hlisted : ∀ s ∈ c.registry, s.aliasName ∈ s.aliases := by
    intro s hs
    obtain ⟨a, ha, -⟩ := hc.indexes.first s hs
    rw [SideInput.aliasName, ha]
    exact List.mem_of_mem_head? ha
  have hnodup : phys.sideInputs.Nodup :=
    hordered.pairwise_id.imp fun hlt heq => hlt.ne (congrArg SideInputPlan.id heq)
  refine hnodup.map_on fun p hp q hq hname => ?_
  obtain ⟨s, hs, hps⟩ := forall_right_of_forall₂ hplans p hp
  obtain ⟨t, ht, hqt⟩ := forall_right_of_forall₂ hplans q hq
  rw [SideInput.aliasName_of_lower hps, SideInput.aliasName_of_lower hqt] at hname
  obtain rfl := hc.indexes.aliasOnce s hs t ht _ (hlisted s hs) (hname ▸ hlisted t ht)
  exact Except.ok.inj (hps.symm.trans hqt)

/-- A run of an accepted unit counts its failures. -/
theorem Script.compile_countsCauses {script : Script} {statements : List Statement}
    {u : CompiledUnit} (h : script.compile statements = .ok u) {batchSize : Nat}
    {phys : PhysicalUnit} (hphys : u.lower batchSize = .ok phys) (settings : RunSettings)
    (w : EngineState) : phys.CountsCauses settings w :=
  (Script.ordered_of_lower h hphys).countsCauses (Script.aliasNames_nodup_of_lower h hphys)
    settings w

/-- The second side input of the nested scalars. -/
def oneInput : SideInputPlan :=
  ⟨1, "one", .broadcast [0] (.project [⟨.placeholder ⟨0, "pair", 0, .binary, false⟩, "x"⟩]
    (.scan "t" none 8192)), some [⟨"x", .binary, true⟩], ["top"]⟩

theorem nestedScalars_countsCauses :
    ∃ u, nestedScalars.compile [⟨"top", .collect⟩] = .ok u ∧ u.lower 8192 = .ok nestedUnit ∧
      nestedUnit.countedReasons ⟨"q", 8192, 1, 64⟩ twoCells "pair" = ["cardinality"] := by
  obtain ⟨u, hu, hphys⟩ := nestedUnit_lowered
  have hcounts := Script.compile_countsCauses hu hphys ⟨"q", 8192, 1, 64⟩ twoCells
  obtain ⟨r, hr, hsize⟩ := nestedUnit_pair
  exact ⟨u, hu, hphys,
    (hcounts.binding pairInput List.mem_cons_self .cardinality).mpr ⟨r, hr, hsize.ge⟩⟩

/-- The second side input is stopped by the first one, and counted as if its own operators had
failed. -/
theorem nestedScalars_cancelled_as_subtree :
    ∃ u, nestedScalars.compile [⟨"top", .collect⟩] = .ok u ∧ u.lower 8192 = .ok nestedUnit ∧
      nestedUnit.Cancels ⟨"q", 8192, 1, 64⟩ twoCells 0 oneInput.id ∧
      nestedUnit.countedReasons ⟨"q", 8192, 1, 64⟩ twoCells oneInput.aliasName = ["subtree"] := by
  obtain ⟨u, hu, hphys⟩ := nestedUnit_lowered
  refine ⟨u, hu, hphys, nestedUnit_cancels, ?_⟩
  cbv

end RelScript
