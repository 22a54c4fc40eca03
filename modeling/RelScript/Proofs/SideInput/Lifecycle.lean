import RelScript.Proofs.Execution.Failures
import RelScript.Proofs.Value.Cells
import RelScript.SideInput.Channel

/-!
The life of a slot. Its state only goes forward, it is terminal exactly when the writer is used up,
and from then on every reader gets one and the same answer. What a finished side input binds hangs
on the number of its rows alone, however they are cut into batches.
-/

namespace RelScript

namespace SlotState

/-- How far a slot has come. -/
def stage : SlotState → Nat
  | unresolved => 0
  | materializing => 1
  | bound _ _ | boundEmpty | failed _ => 2

theorem stage_of_isTerminal {state : SlotState} (h : state.isTerminal = true) :
    state.stage = 2 := by
  cases state <;> first | rfl | cases h

theorem stage_le_one {state : SlotState} (h : state.isTerminal = false) : state.stage ≤ 1 := by
  cases state with
  | unresolved => exact Nat.zero_le 1
  | materializing => exact le_refl 1
  | bound _ _ | boundEmpty | failed _ => cases h

end SlotState

section Rows

variable {s : Schema}

theorem Row.exists_cells (row : Row s) (hs : ∀ f ∈ s, f.type.isReadable = true) :
    ∃ cells : List Cell, row.cells = cells.map .ok := by
  induction row with
  | nil => exact ⟨[], rfl⟩
  | cons entry rest ih =>
      obtain ⟨hfirst, hrest⟩ := List.forall_mem_cons.mp hs
      obtain ⟨cell, hcell⟩ := Cell.exists_read hfirst entry
      obtain ⟨cells, hcells⟩ := ih hrest
      exact ⟨cell :: cells, by rw [Row.cells, hcell, hcells, List.map_cons]⟩

theorem Row.size_of_cells {row : Row s} {cells : List Cell} (h : row.cells = cells.map .ok) :
    row.size = .ok (cells.map Cell.size).sum := by
  have hread : row.cells.mapM id = .ok cells := by
    rw [h, mapM_eq_ok, List.forall₂_map_left_iff]
    exact List.forall₂_same.mpr fun _ _ => rfl
  rw [Row.size, hread, List.sum_eq_foldr, List.foldr_map]
  rfl

theorem freezeRow_of_cells (aliasName : String) (limit : Nat) (hs : s ≠ []) {row : Row s}
    {cells : List Cell} (h : row.cells = cells.map .ok) :
    freezeRow aliasName limit row =
      if limit < (cells.map Cell.size).sum then
        .error ⟨.rowSize, .execution (.rowTooLarge aliasName (cells.map Cell.size).sum limit)⟩
      else .ok row := by
  have hcolumns : s.isEmpty = false := by
    rw [List.isEmpty_eq_false_iff]
    exact hs
  rw [freezeRow, hcolumns, if_neg Bool.false_ne_true, Row.size_of_cells h]

end Rows

namespace Slot

variable {slot : Slot}

theorem isSome_resolve? (slot : Slot) : slot.resolve?.isSome = slot.state.isTerminal := by
  unfold resolve?
  cases slot.state <;> rfl

theorem complete_of_ok {rows : Relation} {state : SlotState}
    (h : slot.outcome rows.batches = .ok state) :
    slot.complete rows.batches = (.ok (), { slot with state }) := by
  simp only [complete, h, write]

theorem complete_of_error {rows : Relation} {f : BindFailure}
    (h : slot.outcome rows.batches = .error f) :
    slot.complete rows.batches = (.error ⟨f.reason, f.error.forReader slot.aliasName⟩,
      { slot with state := .failed f.error }) := by
  simp only [complete, h, write]

theorem outcome_of_row {rows : Relation} {row : Row rows.schema}
    (hrow : rows.batches.flatten = [row]) : slot.outcome rows.batches =
      (freezeRow slot.aliasName slot.limit row).map fun r => .bound rows.schema r := by
  rw [outcome, hrow]

end Slot

/-- Whether the step finishes the slot. -/
def SlotStep.finishes : SlotStep → Bool
  | complete _ | fail _ | drop => true
  | begin | state | resolve => false

/-- Whether the step is one of the writer's. -/
def SlotStep.needsWriter : SlotStep → Bool
  | begin | complete _ | fail _ | drop => true
  | state | resolve => false

theorem SlotStep.finishes_of_reads {step : SlotStep} (h : step.needsWriter = false) :
    step.finishes = false := by
  cases step with
  | state | resolve => rfl
  | begin | complete rows | fail e | drop => cases h

namespace Channel

variable {c c' : Channel}

theorem step_complete (hheld : c.held = true) (rows : Relation) :
    c.step (.complete rows) = some (.completed (c.slot.complete rows.batches).1,
      ⟨(c.slot.complete rows.batches).2, false⟩) := if_pos hheld

theorem step_complete_of_ok (hheld : c.held = true) {rows : Relation} {state : SlotState}
    (h : c.slot.outcome rows.batches = .ok state) :
    c.step (.complete rows) = some (.completed (.ok ()), ⟨{ c.slot with state }, false⟩) := by
  rw [step_complete hheld, Slot.complete_of_ok h]

theorem step_complete_of_error (hheld : c.held = true) {rows : Relation} {f : BindFailure}
    (h : c.slot.outcome rows.batches = .error f) :
    c.step (.complete rows) =
      some (.completed (.error ⟨f.reason, f.error.forReader c.slot.aliasName⟩),
        ⟨{ c.slot with state := .failed f.error }, false⟩) := by
  rw [step_complete hheld, Slot.complete_of_error h]

theorem step_of_needsWriter (hused : c.held = false) {step : SlotStep}
    (hstep : step.needsWriter = true) : c.step step = none := by
  have hnone : ∀ answer next, c.writes answer next = none := fun _ _ => by
    rw [writes, hused, if_neg Bool.false_ne_true]
  cases step with
  | begin | complete rows | fail e | drop => exact hnone _ _
  | state | resolve => cases hstep

/-- What the steps of the writer do as long as it is held. Beginning keeps it. Each of the others
writes a terminal state and uses it up, also where the rows cannot be bound; what the writer is told
then is what readers get. -/
structure Writes (c : Channel) : Prop where
  begin : c.step .begin = some (.done, ⟨{ c.slot with state := .materializing }, true⟩)
  complete : ∀ rows, ∃ result state, state.isTerminal = true ∧
    c.step (.complete rows) = some (.completed result, ⟨{ c.slot with state }, false⟩) ∧
    ∀ failure, result = .error failure →
      step ⟨{ c.slot with state }, false⟩ .resolve =
        some (.resolved (some (.error failure.error)), ⟨{ c.slot with state }, false⟩)
  fail : ∀ e, c.step (.fail e) = some (.done, ⟨{ c.slot with state := .failed e }, false⟩)
  drop : c.step .drop =
    some (.done, ⟨{ c.slot with state := .failed (Error.abandoned c.slot.aliasName) }, false⟩)

/-- What readers see: the state of the slot, and what it resolves to once it is written. -/
structure Reads (c : Channel) : Prop where
  state : c.step .state = some (.state c.slot.state, c)
  waits : c.slot.state.isTerminal = false → c.step .resolve = some (.resolved none, c)
  row : ∀ s row, c.slot.state = .bound s row →
    c.step .resolve = some (.resolved (some (.ok (.row s row))), c)
  empty : c.slot.state = .boundEmpty → c.step .resolve = some (.resolved (some (.ok .empty)), c)
  failure : ∀ e, c.slot.state = .failed e →
    c.step .resolve = some (.resolved (some (.error (e.forReader c.slot.aliasName))), c)

/-- What finishing a side input with some rows does, by their number. Without rows nothing is bound,
a single row is bound if it is small enough, and more rows violate the cardinality. The failure that
the writer is told is the one that readers get. -/
structure BindsByCount (c : Channel) (rows : Relation) : Prop where
  zero : (rows.batches.map List.length).sum = 0 → c.step (.complete rows) =
    some (.completed (.ok ()), ⟨{ c.slot with state := .boundEmpty }, false⟩)
  one : (rows.batches.map List.length).sum = 1 → ∃ (row : Row rows.schema) (cells : List Cell),
    rows.batches.flatten = [row] ∧ row.cells = cells.map .ok ∧
    ((cells.map Cell.size).sum ≤ c.slot.limit → c.step (.complete rows) =
      some (.completed (.ok ()), ⟨{ c.slot with state := .bound rows.schema row }, false⟩)) ∧
    (c.slot.limit < (cells.map Cell.size).sum → ∃ failure, failure.reason = .rowSize ∧
      c.step (.complete rows) = some (.completed (.error failure), ⟨{ c.slot with
        state := .failed (.execution
          (.rowTooLarge c.slot.aliasName (cells.map Cell.size).sum c.slot.limit)) }, false⟩))
  several : ∀ count, 2 ≤ count → (rows.batches.map List.length).sum = count →
    c.step (.complete rows) =
      some (.completed (.error ⟨.cardinality, .cardinality c.slot.aliasName count⟩),
        ⟨{ c.slot with state := .failed (.cardinality c.slot.aliasName count) }, false⟩)
  reported : ∀ failure c', c.step (.complete rows) = some (.completed (.error failure), c') →
    c'.step .resolve = some (.resolved (some (.error failure.error)), c')

theorem writes_of_held (hheld : c.held = true) : c.Writes where
  begin := if_pos hheld
  complete rows := by
    cases h : c.slot.outcome rows.batches with
    | ok state =>
        have hsettled := Slot.isTerminal_settled c.slot (.ok rows)
        rw [Slot.settled, h] at hsettled
        exact ⟨_, state, hsettled, step_complete_of_ok hheld h, fun _ hfailed => by cases hfailed⟩
    | error f =>
        refine ⟨_, .failed f.error, rfl, step_complete_of_error hheld h, fun failure hfailed => ?_⟩
        obtain rfl := Except.error.inj hfailed
        rfl
  fail _ := if_pos hheld
  drop := if_pos hheld

theorem reads (c : Channel) : c.Reads where
  state := rfl
  waits hopen := by
    have hnone : c.slot.resolve? = none := by
      rw [← Option.not_isSome_iff_eq_none, Slot.isSome_resolve?, hopen]
      exact Bool.false_ne_true
    rw [step, hnone]
  row s row h := by rw [step, Slot.resolve?, h]
  empty h := by rw [step, Slot.resolve?, h]
  failure e h := by rw [step, Slot.resolve?, h]

theorem bindsByCount (hheld : c.held = true) {rows : Relation} (hcolumns : rows.schema ≠ [])
    (hread : ∀ f ∈ rows.schema, f.type.isReadable = true) : c.BindsByCount rows := by
  have hcount : (rows.batches.map List.length).sum = rows.size := List.length_flatten.symm
  constructor
  · intro hzero
    apply step_complete_of_ok hheld
    have hrows : rows.batches.flatten = [] := List.length_eq_zero_iff.mp (hcount.symm.trans hzero)
    rw [Slot.outcome, hrows]
  · intro hone
    obtain ⟨row, hrow⟩ := List.length_eq_one_iff.mp (hcount.symm.trans hone)
    obtain ⟨cells, hcells⟩ := row.exists_cells hread
    have hfrozen := freezeRow_of_cells c.slot.aliasName c.slot.limit hcolumns hcells
    have houtcome : c.slot.outcome rows.batches = _ := Slot.outcome_of_row hrow
    rw [hfrozen] at houtcome
    refine ⟨row, cells, hrow, hcells, fun hsmall => ?_, fun hlarge => ?_⟩
    · rw [if_neg hsmall.not_gt] at houtcome
      exact step_complete_of_ok hheld houtcome
    · rw [if_pos hlarge] at houtcome
      exact ⟨_, rfl, step_complete_of_error hheld houtcome⟩
  · rintro count hseveral rfl
    rw [hcount] at hseveral ⊢
    exact step_complete_of_error hheld (Slot.outcome_of_rows c.slot rows hseveral)
  · intro failure c' hfailed
    obtain ⟨result, state, -, hstep, hreported⟩ := (writes_of_held hheld).complete rows
    rw [hstep] at hfailed
    cases hfailed
    exact hreported failure rfl

/-- The slot is terminal exactly when the writer is used up. -/
def IsSound (c : Channel) : Prop := c.slot.state.isTerminal = !c.held

theorem isSound_create (id : SideInputId) (aliasName : String) (limit : Nat) :
    (create id aliasName limit).IsSound := rfl

/-- A channel and a later one, with what the steps in between gave back. -/
structure Follows (answers : List SlotAnswer) (c c' : Channel) : Prop where
  id : c'.slot.id = c.slot.id
  aliasName : c'.slot.aliasName = c.slot.aliasName
  limit : c'.slot.limit = c.slot.limit
  stage : c.slot.state.stage ≤ c'.slot.state.stage
  final : c.held = false → c' = c ∧
    ∀ answer ∈ answers, answer = .state c.slot.state ∨ answer = .resolved c.slot.resolve?

theorem Follows.refl (c : Channel) : c.Follows [] c :=
  ⟨rfl, rfl, rfl, le_rfl, fun _ => ⟨rfl, List.forall_mem_nil _⟩⟩

theorem Follows.trans {d : Channel} {answers answers' : List SlotAnswer} (h : c.Follows answers d)
    (h' : d.Follows answers' c') : c.Follows (answers ++ answers') c' where
  id := h'.id.trans h.id
  aliasName := h'.aliasName.trans h.aliasName
  limit := h'.limit.trans h.limit
  stage := h.stage.trans h'.stage
  final hused := by
    obtain ⟨rfl, hfirst⟩ := h.final hused
    obtain ⟨rfl, hrest⟩ := h'.final hused
    exact ⟨rfl, List.forall_mem_append.mpr ⟨hfirst, hrest⟩⟩

/-- A step reads the slot and changes nothing; or the writer is held, and the step begins, or it
writes a terminal state and uses the writer up. -/
theorem step_cases {step : SlotStep} {answer : SlotAnswer} (h : c.step step = some (answer, c')) :
    (step.needsWriter = false ∧ c' = c ∧
      (answer = .state c.slot.state ∨ answer = .resolved c.slot.resolve?)) ∨
    (step = .begin ∧ c.held = true ∧ c' = ⟨{ c.slot with state := .materializing }, true⟩) ∨
    (step.finishes = true ∧ c.held = true ∧ ∃ state : SlotState, state.isTerminal = true ∧
      c' = ⟨{ c.slot with state }, false⟩) := by
  have hheld : step.needsWriter = true → c.held = true := by
    intro hstep
    by_contra hused
    rw [step_of_needsWriter (Bool.eq_false_of_not_eq_true hused) hstep] at h
    cases h
  cases step with
  | state | resolve =>
      cases h
      simp [SlotStep.needsWriter]
  | begin =>
      rw [(writes_of_held (hheld rfl)).begin] at h
      cases h
      exact Or.inr (Or.inl ⟨rfl, hheld rfl, rfl⟩)
  | complete rows =>
      obtain ⟨result, state, hterminal, hstep, -⟩ := (writes_of_held (hheld rfl)).complete rows
      rw [hstep] at h
      cases h
      exact Or.inr (Or.inr ⟨rfl, hheld rfl, state, hterminal, rfl⟩)
  | fail e =>
      rw [(writes_of_held (hheld rfl)).fail e] at h
      cases h
      exact Or.inr (Or.inr ⟨rfl, hheld rfl, .failed e, rfl, rfl⟩)
  | drop =>
      rw [(writes_of_held (hheld rfl)).drop] at h
      cases h
      exact Or.inr (Or.inr ⟨rfl, hheld rfl, .failed _, rfl, rfl⟩)

theorem IsSound.step {step : SlotStep} {answer : SlotAnswer} (hc : c.IsSound)
    (h : c.step step = some (answer, c')) :
    c'.IsSound ∧ c.Follows [answer] c' ∧
      (c'.held = true ↔ c.held = true ∧ step.finishes = false) := by
  have hopen : c.held = true → c.slot.state.stage ≤ 1 := by
    intro hheld
    apply SlotState.stage_le_one
    rw [hc, hheld, Bool.not_true]
  rcases step_cases h with ⟨hreads, rfl, hanswer⟩ | ⟨rfl, hheld, rfl⟩ |
    ⟨hfinishes, hheld, state, hterminal, rfl⟩
  · exact ⟨hc, ⟨rfl, rfl, rfl, le_rfl, fun _ => ⟨rfl, List.forall_mem_singleton.mpr hanswer⟩⟩,
      by simp [SlotStep.finishes_of_reads hreads]⟩
  · refine ⟨rfl, ⟨rfl, rfl, rfl, hopen hheld, fun hused => ?_⟩, by simp [hheld, SlotStep.finishes]⟩
    exact absurd hheld (Bool.eq_false_iff.mp hused)
  · have hstage := SlotState.stage_of_isTerminal hterminal
    refine ⟨hterminal, ⟨rfl, rfl, rfl, ?_, fun hused => ?_⟩, by simp [hfinishes]⟩
    · exact (Nat.le_succ_of_le (hopen hheld)).trans_eq hstage.symm
    · exact absurd hheld (Bool.eq_false_iff.mp hused)

theorem IsSound.run {steps : List SlotStep} {answers : List SlotAnswer} (hc : c.IsSound)
    (h : c.run steps = some (answers, c')) :
    c'.IsSound ∧ c.Follows answers c' ∧
      (c'.held = true ↔ c.held = true ∧ ∀ step ∈ steps, step.finishes = false) := by
  induction steps generalizing c answers with
  | nil =>
      cases h
      exact ⟨hc, .refl _, by simp⟩
  | cons step rest ih =>
      obtain ⟨⟨answer, d⟩, hd, h⟩ := Option.bind_eq_some_iff.mp h
      obtain ⟨⟨answers', e⟩, hrest, h⟩ := Option.bind_eq_some_iff.mp h
      cases h
      obtain ⟨hsound, hfirst, hheld⟩ := hc.step hd
      obtain ⟨hlast, hfollows, hheld'⟩ := ih hsound hrest
      refine ⟨hlast, hfirst.trans hfollows, ?_⟩
      rw [hheld', hheld, List.forall_mem_cons, and_assoc]

theorem state_of_step {step : SlotStep} {answer : SlotAnswer} (h : c.step step = some (answer, c'))
    (hheld : c'.held = true) :
    (step = .begin ∧ c'.slot.state = .materializing) ∨
      (step ≠ .begin ∧ c'.slot.state = c.slot.state) := by
  rcases step_cases h with ⟨hreads, rfl, -⟩ | ⟨hbegin, -, rfl⟩ | ⟨-, -, state, hterminal, rfl⟩
  · refine Or.inr ⟨?_, rfl⟩
    rintro rfl
    cases hreads
  · exact Or.inl ⟨hbegin, rfl⟩
  · cases hheld

theorem IsSound.state_of_run {steps : List SlotStep} {answers : List SlotAnswer} (hc : c.IsSound)
    (h : c.run steps = some (answers, c')) (hheld : c'.held = true) :
    (.begin ∈ steps → c'.slot.state = .materializing) ∧
      (.begin ∉ steps → c'.slot.state = c.slot.state) := by
  induction steps generalizing c answers with
  | nil =>
      cases h
      exact ⟨fun hbegin => absurd hbegin List.not_mem_nil, fun _ => rfl⟩
  | cons step rest ih =>
      obtain ⟨⟨answer, d⟩, hd, h⟩ := Option.bind_eq_some_iff.mp h
      obtain ⟨⟨answers', e⟩, hrest, h⟩ := Option.bind_eq_some_iff.mp h
      cases h
      obtain ⟨hsound, -, -⟩ := hc.step hd
      obtain ⟨-, -, hlater⟩ := hsound.run hrest
      obtain ⟨hbegun, hkept⟩ := ih hsound hrest
      rcases state_of_step hd (hlater.mp hheld).1 with ⟨rfl, hstate⟩ | ⟨hother, hstate⟩
      · refine ⟨fun _ => ?_, fun hnone => absurd List.mem_cons_self hnone⟩
        by_cases hagain : .begin ∈ rest
        · exact hbegun hagain
        · exact (hkept hagain).trans hstate
      · refine ⟨fun hbegin => hbegun ?_, fun hnone => (hkept ?_).trans hstate⟩
        · exact (List.mem_cons.mp hbegin).resolve_left hother.symm
        · exact fun hbegin => hnone (List.mem_cons_of_mem _ hbegin)

/-- The slot after some steps, and after some more: it was made with the given number, name and
limit, and is written once. The writer is held until a step finishes the slot, which is terminal
from then on; while it is held, the slot is materializing if that has begun, the steps of the writer
do what they say, and rows bind by their number. Afterwards the writer has no step, and every reader
is told the same. -/
structure SettlesOnce (id : SideInputId) (aliasName : String) (limit : Nat)
    (before : List SlotStep) (answers : List SlotAnswer) (c c' : Channel) : Prop where
  id : c.slot.id = id
  aliasName : c.slot.aliasName = aliasName
  limit : c.slot.limit = limit
  forward : c.slot.state.stage ≤ c'.slot.state.stage
  unresolved : c.held = true → .begin ∉ before → c.slot.state = .unresolved
  materializing : c.held = true → .begin ∈ before → c.slot.state = .materializing
  held_iff : c.held = true ↔ ∀ step ∈ before, step.finishes = false
  terminal_iff : c.slot.state.isTerminal = true ↔ c.held = false
  terminal_iff' : c'.slot.state.isTerminal = true ↔ c'.held = false
  writes : c.held = true → c.Writes
  binds : c.held = true → ∀ rows : Relation, rows.schema ≠ [] →
    (∀ f ∈ rows.schema, f.type.isReadable = true) → c.BindsByCount rows
  reads : c.Reads
  usedUp : c.held = false → ∀ step, step.needsWriter = true → c.step step = none
  final : c.held = false → c' = c ∧
    ∀ answer ∈ answers, answer = .state c.slot.state ∨ answer = .resolved c.slot.resolve?

/-- Whatever is done at the two ends of a new slot, it settles once. -/
theorem settlesOnce {id : SideInputId} {aliasName : String} {limit : Nat}
    {before after : List SlotStep} {told answers : List SlotAnswer}
    (h : (create id aliasName limit).run before = some (told, c))
    (h' : c.run after = some (answers, c')) :
    SettlesOnce id aliasName limit before answers c c' := by
  have hterminal : ∀ {c : Channel}, c.IsSound →
      (c.slot.state.isTerminal = true ↔ c.held = false) := by
    intro c hc
    rw [hc, Bool.not_eq_true_eq_eq_false]
  have hnew := isSound_create id aliasName limit
  obtain ⟨hc, hmade, hheld⟩ := hnew.run h
  obtain ⟨hc', hfollows, -⟩ := hc.run h'
  have hwaiting := hnew.state_of_run h
  exact {
    id := hmade.id
    aliasName := hmade.aliasName
    limit := hmade.limit
    forward := hfollows.stage
    unresolved := fun hheld => (hwaiting hheld).2
    materializing := fun hheld => (hwaiting hheld).1
    held_iff := hheld.trans (and_iff_right rfl)
    terminal_iff := hterminal hc
    terminal_iff' := hterminal hc'
    writes := writes_of_held
    binds := fun hheld _ => bindsByCount hheld
    reads := c.reads
    usedUp := fun hused _ => step_of_needsWriter hused
    final := hfollows.final }

/-- The row of one text. -/
def oneRow : Row [⟨"v", .utf8, true⟩] := .cons (some "kept" : DataType.Entry .utf8) .nil

/-- A single row, between empty batches. -/
def oneText : Relation := ⟨_, [[], [oneRow], []]⟩

theorem settlesOnce_oneText : ∃ c c' answers,
    (create 0 "host" 4).run [.begin, .state] = some ([.done, .state .materializing], c) ∧
      c.run [.complete oneText, .resolve, .state] = some (answers, c') ∧
        answers = [.completed (.ok ()), .resolved (some (.ok (.row _ oneRow))),
          .state (.bound _ oneRow)] ∧
        SettlesOnce 0 "host" 4 [.begin, .state] answers c c' :=
  ⟨_, _, _, rfl, rfl, rfl, settlesOnce (rfl : (create 0 "host" 4).run [.begin, .state] = some _)
    (rfl : run _ [.complete oneText, .resolve, .state] = some _)⟩

end Channel

end RelScript
