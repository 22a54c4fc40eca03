import Mathlib.Data.List.Induction
import RelScript.Proofs.Execution.Materialization
import RelScript.Proofs.Execution.SlotFaults
import RelScript.Proofs.Physical.Trees

/-!
Reads of slots. An operator tree that reads only side inputs that are broadcast around its operators
blames no slot, if its broadcasts find the slots that they list; and side inputs that run after the
side inputs that they wait for leave such slots behind.
-/

namespace RelScript

/-- From every state, the step gives a result that is no failure of the kind. -/
def Run.Spares (kind : Error → Bool) {α : Type} (step : Run α) : Prop :=
  ∀ w, RelScript.Spares kind (step w).1

namespace Run.Spares

variable {α β : Type} {kind : Error → Bool}

theorem ofOutcome {x : Outcome α} (h : RelScript.Spares kind x) :
    Run.Spares kind (ofOutcome x) := by
  intro w
  cases x with
  | ok a => exact .ok a
  | error e => exact h

theorem bind {step : Run α} {next : α → Run β} (h : Run.Spares kind step)
    (hnext : ∀ a, Run.Spares kind (next a)) : Run.Spares kind (step >>= next) := by
  intro w
  rw [run_bind]
  cases hstep : (step w).1 with
  | ok a => exact hnext a (step w).2
  | error e => exact .of_error (h w e hstep)

theorem bind_ofOutcome {x : Outcome α} {next : α → Run β} (h : RelScript.Spares kind x)
    (hnext : ∀ a, x = .ok a → Run.Spares kind (next a)) :
    Run.Spares kind (RelScript.ofOutcome x >>= next) := by
  intro w
  cases x with
  | ok a => exact hnext a rfl w
  | error e => exact .of_error (h e rfl)

theorem of_quiet {step : Run Unit} (h : Run.Quiet step) : Run.Spares kind step := by
  intro w
  rw [(h w).1]
  exact .ok ()

theorem runParts {ctx : RunContext} {b : ScalarBindings} {step : List α → Outcome (List β)}
    (h : ∀ rows, RelScript.Spares kind (step rows)) (batches : List (List α)) :
    Run.Spares kind (runParts ctx b step batches) := by
  apply (of_quiet (Run.quiet_forM (fun _ => Run.quiet_forM Run.quiet_recordEvent _) _)).bind
  intro _
  apply bind_ofOutcome (.mapM fun part _ => .mapM fun rows _ => h rows)
  intro outputs _ w
  exact .ok _

theorem finish (ctx : RunContext) (o : Operator) (r : Relation) :
    Run.Spares kind (Operator.execute.finish ctx o r) :=
  (of_quiet (Run.quiet_recordEvent _)).bind fun _ _ => .ok r

end Run.Spares

/-! What each operator does itself, after its inputs have run. -/

section OwnSteps

variable {kind : Error → Bool} [ReadKind kind] {ctx : RunContext} {b : ScalarBindings}
  (o : Operator)

theorem spares_scan (source : String) (declared : RelationSchema) (size : Nat) :
    Run.Spares kind (do
      let table ← ofOutcome ((← get).catalog.get source)
      let r ← ofOutcome (scanTable size source declared table)
      Operator.execute.finish ctx o r) := by
  apply Run.Spares.bind fun w => .ok w
  intro w
  apply (Run.Spares.ofOutcome (w.catalog.spares_get source)).bind
  intro table
  apply (Run.Spares.ofOutcome (spares_scanTable _ _ _ table)).bind
  intro r
  exact .finish ctx o r

theorem spares_filter {predicate : Expr} (h : predicate.SparedIn kind b) (child : Relation) :
    Run.Spares kind (do
      let batches ← runParts ctx b (filterSlice predicate b) child.batches
      Operator.execute.finish ctx o ⟨child.schema, batches⟩) := by
  apply (Run.Spares.runParts (fun rows => spares_filterSlice h rows) child.batches).bind
  intro batches
  exact .finish ctx o _

theorem spares_project {columns : List (Named Expr)}
    (h : ∀ c ∈ columns, c.value.SparedIn kind b) (child : Relation) :
    Run.Spares kind (do
      let compiled ← ofOutcome (columns.mapM (compileOutput child.schema b))
      let batches ← runParts ctx b (projectSlice compiled) child.batches
      Operator.execute.finish ctx o ⟨_, batches⟩) := by
  have hcompile : Spares kind (columns.mapM (compileOutput child.schema b)) :=
    .mapM fun c hc => (h c hc).spares_compile.bind fun _ _ => .ok _
  apply (Run.Spares.ofOutcome hcompile).bind
  intro compiled
  apply (Run.Spares.runParts (spares_projectSlice compiled) child.batches).bind
  intro batches
  exact .finish ctx o _

theorem spares_hashAggregate {keys : List Expr} {aggregates : List (Named Aggregate)}
    (hkeys : ∀ k ∈ keys, k.SparedIn kind b)
    (haggregates : ∀ a ∈ aggregates, a.value.arg.SparedIn kind b) (child : Relation) :
    Run.Spares kind (do
      let r ← ofOutcome (aggregateRelation child keys aggregates b)
      Operator.execute.finish ctx o r) := by
  apply (Run.Spares.ofOutcome (spares_aggregateRelation hkeys haggregates child)).bind
  intro r
  exact .finish ctx o r

theorem spares_hashJoin {on : List (Expr × Expr)}
    (h : ∀ k ∈ on, k.1.SparedIn kind b ∧ k.2.SparedIn kind b) (l r : Relation) :
    Run.Spares kind (do
      let joined ← ofOutcome (joinRelations l r on b)
      Operator.execute.finish ctx o joined) := by
  apply (Run.Spares.ofOutcome (spares_joinRelations h l r)).bind
  intro joined
  exact .finish ctx o joined

theorem spares_store (target : String) (child : Relation) :
    Run.Spares kind (do
      let (_, catalog) ← ofOutcome ((← get).catalog.write target child)
      modify fun w => { w with catalog }
      Operator.execute.finish ctx o child) := by
  apply Run.Spares.bind fun w => .ok w
  intro w
  apply (Run.Spares.ofOutcome (w.catalog.spares_write target child)).bind
  intro written
  apply Run.Spares.bind fun w => .ok _
  intro _
  exact .finish ctx o child

end OwnSteps

/-- Every side input that the expression reads is listed. -/
def Expr.Within (ids : List SideInputId) (e : Expr) : Prop :=
  ∀ p ∈ e.placeholders, p.sideInput ∈ ids

namespace Operator

/-- The operators of the tree read only side inputs that are broadcast around them, or around the
tree. -/
def Covered : Operator → (around : List SideInputId) → Prop
  | scan _ _ _, _ => True
  | filter predicate input, around => predicate.Within around ∧ input.Covered around
  | project columns input, around =>
    (∀ c ∈ columns, c.value.Within around) ∧ input.Covered around
  | hashAggregate keys aggregates input, around =>
    ((∀ k ∈ keys, k.Within around) ∧ ∀ a ∈ aggregates, a.value.arg.Within around) ∧
      input.Covered around
  | hashJoin left right on, around =>
    (∀ k ∈ on, k.1.Within around ∧ k.2.Within around) ∧ left.Covered around ∧
      right.Covered around
  | limit _ input, around => input.Covered around
  | store _ input, around => input.Covered around
  | broadcast ids input, around => input.Covered (ids ++ around)

/-- Every broadcast in the tree finds the slots that it lists, and finds them written. -/
def FindsSlots (slots : List Slot) (o : Operator) : Prop :=
  ∀ n ∈ o.nodes, ∀ id ∈ n.ownSideInputs,
    ∃ slot, slots.find? (·.id = id) = some slot ∧ slot.state.isTerminal = true

theorem FindsSlots.child {o i : Operator} {slots : List Slot} (h : o.FindsSlots slots)
    (hi : i ∈ o.children) : i.FindsSlots slots :=
  fun n hn => h n (nodes_subset_of_child hi hn)

end Operator

namespace RunContext

variable {ctx : RunContext}

theorem spares_read {id : SideInputId} {slot : Slot} (hslot : ctx.slot? id = some slot)
    (hterminal : slot.state.isTerminal = true) : Spares Error.isSlotFault (ctx.read id) := by
  rw [read, hslot]
  change Spares Error.isSlotFault (resolve slot)
  unfold resolve Slot.resolve?
  cases hstate : slot.state with
  | unresolved | materializing =>
      rw [hstate] at hterminal
      cases hterminal
  | bound s r => exact .ok _
  | boundEmpty => exact .ok _
  | failed e => exact .of_error (e.isSlotFault_forReader _)

theorem spares_bindSideInputs {ids : List SideInputId}
    (h : ∀ id ∈ ids, ∃ slot, ctx.slot? id = some slot ∧ slot.state.isTerminal = true)
    (b : ScalarBindings) : Spares Error.isSlotFault (ctx.bindSideInputs ids b) := by
  induction ids generalizing b with
  | nil => exact .ok b
  | cons id rest ih =>
      obtain ⟨⟨slot, hslot, hterminal⟩, hrest⟩ := List.forall_mem_cons.mp h
      rw [bindSideInputs_cons]
      apply (spares_read hslot hterminal).bind
      intro x _
      exact ih hrest _

theorem isSome_lookup_of_bindSideInputs {ids : List SideInputId} {b b' : ScalarBindings}
    (h : ctx.bindSideInputs ids b = .ok b') {id : SideInputId}
    (hid : id ∈ ids ∨ (b.lookup id).isSome) : (b'.lookup id).isSome := by
  induction ids generalizing b with
  | nil =>
      cases h
      exact hid.resolve_left List.not_mem_nil
  | cons first rest ih =>
      rw [bindSideInputs_cons] at h
      obtain ⟨x, -, h⟩ := bind_eq_ok.mp h
      apply ih h
      rw [ScalarBindings.lookup_bind]
      by_cases hfirst : id = first
      · simp [hfirst]
      · rw [if_neg hfirst]
        exact hid.imp_left fun hmem => (List.mem_cons.mp hmem).resolve_left hfirst

end RunContext

theorem Expr.Within.sparedIn {ids : List SideInputId} {e : Expr} (h : e.Within ids)
    {b : ScalarBindings} (hb : ∀ id ∈ ids, (b.lookup id).isSome) (kind : Error → Bool) :
    e.SparedIn kind b :=
  fun p hp => Or.inl (hb p.sideInput (h p hp))

/-- A covered tree blames no slot, if its broadcasts find their slots. -/
theorem Operator.Covered.spares_execute {o : Operator} {around : List SideInputId}
    (h : o.Covered around) {ctx : RunContext} (hslots : o.FindsSlots ctx.slots)
    {b : ScalarBindings} (hb : ∀ id ∈ around, (b.lookup id).isSome) :
    Run.Spares Error.isSlotFault (o.execute ctx b) := by
  induction o generalizing around b with
  | scan source declared size => exact spares_scan _ source declared _
  | filter predicate input ih =>
      apply (ih h.2 (hslots.child (List.mem_singleton.mpr rfl)) hb).bind
      exact spares_filter _ (h.1.sparedIn hb _)
  | project columns input ih =>
      apply (ih h.2 (hslots.child (List.mem_singleton.mpr rfl)) hb).bind
      exact spares_project _ fun c hc => (h.1 c hc).sparedIn hb _
  | hashAggregate keys aggregates input ih =>
      apply (ih h.2 (hslots.child (List.mem_singleton.mpr rfl)) hb).bind
      exact spares_hashAggregate _ (fun k hk => (h.1.1 k hk).sparedIn hb _)
        fun a ha => (h.1.2 a ha).sparedIn hb _
  | hashJoin left right on ihl ihr =>
      apply (ihl h.2.1 (hslots.child List.mem_cons_self) hb).bind
      intro l
      apply (ihr h.2.2 (hslots.child (List.mem_cons_of_mem _ List.mem_cons_self)) hb).bind
      exact spares_hashJoin _ (fun k hk =>
        ⟨(h.1 k hk).1.sparedIn hb _, (h.1 k hk).2.sparedIn hb _⟩) l
  | limit count input ih =>
      apply (ih h (hslots.child (List.mem_singleton.mpr rfl)) hb).bind
      exact fun child => .finish ctx _ _
  | store target input ih =>
      apply (ih h (hslots.child (List.mem_singleton.mpr rfl)) hb).bind
      exact spares_store _ target
  | broadcast ids input ih =>
      have hown := hslots _ List.mem_cons_self
      apply Run.Spares.bind_ofOutcome (RunContext.spares_bindSideInputs hown b)
      intro bound hbound
      have haround : ∀ id ∈ ids ++ around, (bound.lookup id).isSome := by
        intro id hid
        apply RunContext.isSome_lookup_of_bindSideInputs hbound
        exact (List.mem_append.mp hid).imp_right (hb id)
      apply (ih h (hslots.child (List.mem_singleton.mpr rfl)) haround).bind
      exact fun r => .finish ctx _ r

section Slots

/-- A slot that is written, and not with a failure that blames a slot. -/
structure Slot.IsSettled (slot : Slot) : Prop where
  terminal : slot.state.isTerminal = true
  spares : ∀ e, slot.state = .failed e → e.isSlotFault = false

theorem Cell.eq_of_read_eq_error {t : DataType} {entry : t.Entry} {e : Error}
    (h : Cell.read entry = .error e) : e = .unsupported (.reading t) := by
  cases entry with
  | none => cases h
  | some v =>
      cases t with
      | null => exact nomatch v
      | date | duration =>
          cases h
          rfl
      | _ => cases h

theorem Row.exists_eq_of_size_eq_error {s : Schema} {r : Row s} {e : Error}
    (h : r.size = .error e) : ∃ t, e = .unsupported (.reading t) := by
  have hcells : ∀ {s : Schema} (r : Row s), .error e ∈ r.cells →
      ∃ t, e = .unsupported (.reading t) := by
    intro s r
    induction r with
    | nil => simp [Row.cells]
    | cons entry rest ih =>
        intro hmem
        rcases List.mem_cons.mp hmem with hfirst | hrest
        · exact ⟨_, Cell.eq_of_read_eq_error hfirst.symm⟩
        · exact ih hrest
  rw [Row.size] at h
  cases hread : r.cells.mapM id with
  | ok cells =>
      rw [hread] at h
      cases h
  | error f =>
      rw [hread] at h
      cases h
      obtain ⟨k, hk, -⟩ := mapM_id_eq_error.mp hread
      exact hcells r (List.mem_of_getElem? hk)

theorem blameless_of_freezeRow {aliasName : String} {limit : Nat} {s : Schema} {r : Row s}
    {f : BindFailure} (h : freezeRow aliasName limit r = .error f) :
    f.error.isSlotFault = false ∧ f.error.isOperandFault = false := by
  unfold freezeRow at h
  split at h
  · cases h
    exact ⟨rfl, rfl⟩
  · split at h
    · rename_i e he
      cases h
      obtain ⟨t, rfl⟩ := r.exists_eq_of_size_eq_error he
      exact ⟨rfl, rfl⟩
    · split at h
      · cases h
        exact ⟨rfl, rfl⟩
      · cases h

theorem Slot.cases_of_outcome {slot : Slot} {s : Schema} {batches : List (Batch s)}
    {state : SlotState} (h : slot.outcome batches = .ok state) :
    state = .boundEmpty ∨ ∃ row : Row s, state = .bound s row := by
  unfold outcome at h
  split at h
  · cases h
    exact Or.inl rfl
  · obtain ⟨row, -, rfl⟩ := map_eq_ok.mp h
    exact Or.inr ⟨row, rfl⟩
  · cases h

theorem Slot.blameless_of_outcome {slot : Slot} {s : Schema} {batches : List (Batch s)}
    {f : BindFailure} (h : slot.outcome batches = .error f) :
    f.error.isSlotFault = false ∧ f.error.isOperandFault = false := by
  unfold outcome at h
  split at h
  · cases h
  · rename_i row _
    exact blameless_of_freezeRow (map_eq_error.mp h)
  · cases h
    exact ⟨rfl, rfl⟩

theorem Slot.isTerminal_settled (slot : Slot) (result : Outcome Relation) :
    (slot.settled result).isTerminal = true := by
  cases result with
  | error e => rfl
  | ok r =>
      rw [settled]
      cases houtcome : slot.outcome r.batches with
      | error f => rfl
      | ok state => rcases cases_of_outcome houtcome with rfl | ⟨row, rfl⟩ <;> rfl

theorem Slot.spares_settled {kind : Error → Bool}
    (hkind : ∀ {e : Error}, e.isSlotFault = false → e.isOperandFault = false → kind e = false)
    {slot : Slot} {result : Outcome Relation} (h : Spares kind result) {e : Error}
    (hfailed : slot.settled result = .failed e) : kind e = false := by
  cases result with
  | error f =>
      cases hfailed
      exact h e rfl
  | ok r =>
      rw [settled] at hfailed
      cases houtcome : slot.outcome r.batches with
      | error f =>
          rw [houtcome] at hfailed
          cases hfailed
          obtain ⟨hslots, hoperands⟩ := blameless_of_outcome houtcome
          exact hkind hslots hoperands
      | ok state =>
          rw [houtcome] at hfailed
          rcases cases_of_outcome houtcome with rfl | ⟨row, rfl⟩ <;> cases hfailed

theorem materializeAll_append (settings : RunSettings) (before after : List SideInputPlan)
    (slots : List Slot) (w : EngineState) :
    materializeAll settings (before ++ after) slots w =
      materializeAll settings after (materializeAll settings before slots w).1
        (materializeAll settings before slots w).2 := by
  induction before generalizing slots w with
  | nil => rfl
  | cons p rest ih => exact ih _ _

/-- Settled slots, among them those of the given numbers. -/
structure SlotsReady (ids : List SideInputId) (slots : List Slot) : Prop where
  present : ∀ id ∈ ids, ∃ slot ∈ slots, slot.id = id
  settled : ∀ slot ∈ slots, slot.IsSettled

theorem SlotsReady.findsSlots {ids : List SideInputId} {slots : List Slot}
    (h : SlotsReady ids slots) {o : Operator} (ho : ∀ id ∈ o.sideInputs, id ∈ ids) :
    o.FindsSlots slots := by
  intro n hn id hid
  have hmem : id ∈ o.sideInputs :=
    Operator.mem_sideInputs.mpr (List.mem_flatMap.mpr ⟨n, hn, hid⟩)
  obtain ⟨slot, hslot, hslotid⟩ := h.present id (ho id hmem)
  cases hfound : slots.find? (·.id = id) with
  | none =>
      have hne := List.find?_eq_none.mp hfound slot hslot
      simp [hslotid] at hne
  | some found => exact ⟨found, rfl, (h.settled found (List.mem_of_find?_eq_some hfound)).terminal⟩

theorem SlotsReady.putSlot {ids : List SideInputId} {slots : List Slot} (h : SlotsReady ids slots)
    {slot : Slot} (hslot : slot.IsSettled) :
    SlotsReady (ids ++ [slot.id]) (RelScript.putSlot slot slots) := by
  constructor
  · intro id hid
    by_cases hsame : id = slot.id
    · exact ⟨slot, List.mem_append_right _ (List.mem_singleton.mpr rfl), hsame.symm⟩
    · have hids : id ∈ ids := by
        rcases List.mem_append.mp hid with hid | hid
        · exact hid
        · exact absurd (List.mem_singleton.mp hid) hsame
      obtain ⟨other, hother, rfl⟩ := h.present id hids
      refine ⟨other, List.mem_append_left _ (List.mem_filter.mpr ⟨hother, ?_⟩), rfl⟩
      simpa using hsame
  · intro other hother
    rcases List.mem_append.mp hother with hother | hother
    · exact h.settled other (List.mem_filter.mp hother).1
    · rw [List.mem_singleton.mp hother]
      exact hslot

theorem SlotsReady.materialize {ids : List SideInputId} {slots : List Slot}
    (h : SlotsReady ids slots) {p : SideInputPlan} (hcovered : p.plan.Covered [])
    (hwaits : ∀ id ∈ p.plan.sideInputs, id ∈ ids) (settings : RunSettings) (w : EngineState) :
    SlotsReady (ids ++ [p.id])
      (RelScript.putSlot (RelScript.materialize settings p slots w).1 slots) := by
  have hresult : SparesSlots (p.plan.execute (settings.context slots) [] w).1 :=
    hcovered.spares_execute (h.findsSlots hwaits) (by simp) w
  rw [← id_materialize settings p slots w]
  apply h.putSlot
  constructor
  · rw [state_materialize]
    exact Slot.isTerminal_settled _ _
  · intro e he
    rw [state_materialize] at he
    exact Slot.spares_settled (fun hslots _ => hslots) hresult he

/-- Every side input waits only for side inputs before it. -/
def InOrder (plans : List SideInputPlan) : Prop :=
  ∀ before p after, plans = before ++ p :: after →
    ∀ id ∈ p.plan.sideInputs, id ∈ before.map (·.id)

/-- Side inputs that run in order leave settled slots. -/
theorem materializeAll_ready (settings : RunSettings) {plans : List SideInputPlan}
    (hcovered : ∀ p ∈ plans, p.plan.Covered []) (horder : InOrder plans) (w : EngineState) :
    SlotsReady (plans.map (·.id)) (materializeAll settings plans [] w).1 := by
  induction plans using List.reverseRecOn with
  | nil => exact ⟨by simp, by simp [materializeAll]⟩
  | append_singleton before p ih =>
      have hbefore : InOrder before := by
        intro first q rest hsplit
        refine horder first q (rest ++ [p]) ?_
        rw [hsplit, List.append_assoc, List.cons_append]
      have hready := ih (fun q hq => hcovered q (List.mem_append_left _ hq)) hbefore
      rw [materializeAll_append, List.map_append]
      exact hready.materialize (hcovered p (List.mem_append_right _ (List.mem_singleton.mpr rfl)))
        (horder before p [] rfl) settings _

end Slots

end RelScript
