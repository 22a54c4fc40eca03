import RelScript.Proofs.Execution.Renumbering

/-!
What slots hold after all side inputs have run: what each side input gives when it reads the slots
as they are in the end.
-/

namespace RelScript

/-- What a state offers to readers. -/
def SlotState.binding? : SlotState → Option ScalarBinding
  | .bound s r => some (.row s r)
  | .boundEmpty => some .empty
  | _ => none

theorem toOption_resolve (slot : Slot) :
    (RunContext.resolve slot).toOption = slot.state.binding? := by
  unfold RunContext.resolve Slot.resolve?
  cases slot.state <;> rfl

/-- The state of a slot whose side input has finished. -/
def Slot.settled (slot : Slot) : Outcome Relation → SlotState
  | .ok r =>
    match slot.outcome r.batches with
    | .ok state => state
    | .error f => .failed f.error
  | .error e => .failed e

theorem settle_fst (slot : Slot) (result : Outcome Relation) :
    (settle slot result).1 = slot.write (slot.settled result) := by
  cases result with
  | error e => rfl
  | ok r =>
      rw [settle, Slot.complete, Slot.settled]
      cases slot.outcome r.batches <;> rfl

/-- What the readers of a side input get, by the rows that it gave. -/
def offered (limit : Nat) (result : Outcome Relation) : Option ScalarBinding :=
  ((Slot.create 0 "" limit).settled result).binding?

theorem binding?_settled (slot : Slot) (result : Outcome Relation) :
    (slot.settled result).binding? = offered slot.limit result := by
  cases result with
  | error e => rfl
  | ok r =>
      unfold offered Slot.settled Slot.outcome
      dsimp only
      cases r.batches.flatten with
      | nil => rfl
      | cons row rest =>
          cases rest with
          | nil =>
              unfold freezeRow
              dsimp only [Slot.create]
              cases List.isEmpty r.schema with
              | true => rfl
              | false =>
                  cases row.size with
                  | error e => rfl
                  | ok bytes =>
                      by_cases hlimit : slot.limit < bytes
                      · simp only [hlimit, if_true]
                        rfl
                      · simp only [hlimit, if_false]
          | cons => rfl

theorem offered_congr {limit : Nat} {result result' : Outcome Relation}
    (h : Alike Eq result result') : offered limit result = offered limit result' := by
  cases result with
  | error e =>
      obtain ⟨f, rfl⟩ := h.error_left
      rfl
  | ok r =>
      obtain ⟨_, rfl, rfl⟩ := h.ok_left
      rfl

theorem materialize_fst (settings : RunSettings) (p : SideInputPlan) (slots : List Slot)
    (w : EngineState) : (materialize settings p slots w).1 =
      (Slot.create p.id p.aliasName settings.rowLimit).begin.write
        ((Slot.create p.id p.aliasName settings.rowLimit).begin.settled
          (p.plan.execute (settings.context slots) [] w).1) :=
  settle_fst _ _

theorem id_materialize (settings : RunSettings) (p : SideInputPlan) (slots : List Slot)
    (w : EngineState) : (materialize settings p slots w).1.id = p.id := by
  rw [materialize_fst]
  rfl

theorem aliasName_materialize (settings : RunSettings) (p : SideInputPlan) (slots : List Slot)
    (w : EngineState) : (materialize settings p slots w).1.aliasName = p.aliasName := by
  rw [materialize_fst]
  rfl

theorem state_materialize (settings : RunSettings) (p : SideInputPlan) (slots : List Slot)
    (w : EngineState) : (materialize settings p slots w).1.state =
      (Slot.create p.id p.aliasName settings.rowLimit).begin.settled
        (p.plan.execute (settings.context slots) [] w).1 := by
  rw [materialize_fst]
  rfl

theorem toOption_resolve_materialize (settings : RunSettings) (p : SideInputPlan)
    (slots : List Slot) (w : EngineState) :
    (RunContext.resolve (materialize settings p slots w).1).toOption =
      offered settings.rowLimit (p.plan.execute (settings.context slots) [] w).1 := by
  rw [toOption_resolve, state_materialize]
  exact binding?_settled _ _

theorem catalog_materialize (settings : RunSettings) (p : SideInputPlan) (slots : List Slot)
    (w : EngineState) : (materialize settings p slots w).2.catalog =
      (p.plan.execute (settings.context slots) [] w).2.catalog := by
  have hrecord : ∀ (events : List MetricEvent) (w : EngineState),
      (events.foldl EngineState.record w).catalog = w.catalog := by
    intro events
    induction events with
    | nil => exact fun _ => rfl
    | cons e rest ih => exact fun w => ih (w.record e)
  exact hrecord _ _

theorem find?_putSlot (slot : Slot) (slots : List Slot) (id : SideInputId) :
    (putSlot slot slots).find? (·.id = id) =
      if id = slot.id then some slot else slots.find? (·.id = id) := by
  rw [putSlot, List.find?_append]
  by_cases hid : id = slot.id
  · have hnone : (slots.filter (·.id ≠ slot.id)).find? (·.id = id) = none := by
      refine List.find?_eq_none.mpr fun s hs => ?_
      have hne := (List.mem_filter.mp hs).2
      simp only [ne_eq, decide_not, Bool.not_eq_true', decide_eq_false_iff_not] at hne
      simpa [hid] using hne
    rw [hnone, if_pos hid]
    simp [hid]
  · have hsame : (slots.filter (·.id ≠ slot.id)).find? (·.id = id) =
        slots.find? (·.id = id) := by
      rw [List.find?_filter]
      congr 1
      funext s
      by_cases hs : s.id = id <;> simp [hs, hid]
    rw [hsame, if_neg hid]
    simp [Ne.symm hid]

theorem find?_materializeAll_of_ne (settings : RunSettings) {plans : List SideInputPlan}
    {id : SideInputId} (h : ∀ p ∈ plans, id ≠ p.id) (slots : List Slot) (w : EngineState) :
    (materializeAll settings plans slots w).1.find? (·.id = id) =
      slots.find? (·.id = id) := by
  induction plans generalizing slots w with
  | nil => rfl
  | cons p rest ih =>
      obtain ⟨hp, hrest⟩ := List.forall_mem_cons.mp h
      rw [materializeAll]
      dsimp only
      rw [ih hrest, find?_putSlot, id_materialize, if_neg hp]

/-- The slot of every side input is the one that was written when the slots before it were there. -/
theorem materializeAll_spec (settings : RunSettings) {plans : List SideInputPlan}
    (hsorted : plans.Pairwise fun p q => p.id < q.id) {c : Catalog}
    (hkeeps : ∀ p ∈ plans, ∀ slots w, w.catalog = c →
      (p.plan.execute (settings.context slots) [] w).2.catalog = c)
    (slots : List Slot) (w : EngineState) (hw : w.catalog = c) :
    (materializeAll settings plans slots w).2.catalog = c ∧
      (∀ id, (∀ p ∈ plans, id ≠ p.id) →
        (materializeAll settings plans slots w).1.find? (·.id = id) =
          slots.find? (·.id = id)) ∧
      ∀ p ∈ plans, ∃ slots' w', w'.catalog = c ∧
        (materializeAll settings plans slots w).1.find? (·.id = p.id) =
          some (materialize settings p slots' w').1 ∧
        ∀ id < p.id, (materializeAll settings plans slots w).1.find? (·.id = id) =
          slots'.find? (·.id = id) := by
  induction plans generalizing slots w with
  | nil => exact ⟨hw, fun _ _ => rfl, by simp⟩
  | cons p rest ih =>
      obtain ⟨hfirst, hrest⟩ := List.pairwise_cons.mp hsorted
      obtain ⟨hkeep, hkeeprest⟩ := List.forall_mem_cons.mp hkeeps
      have hcatalog : (materialize settings p slots w).2.catalog = c :=
        (catalog_materialize settings p slots w).trans (hkeep slots w hw)
      obtain ⟨hfinal, hother, hown⟩ := ih hrest hkeeprest
        (putSlot (materialize settings p slots w).1 slots) (materialize settings p slots w).2
        hcatalog
      refine ⟨hfinal, fun id hid => find?_materializeAll_of_ne settings hid slots w, ?_⟩
      rw [materializeAll]
      refine List.forall_mem_cons.mpr ⟨⟨slots, w, hw, ?_, ?_⟩, hown⟩
      · rw [hother p.id fun q hq => (hfirst q hq).ne, find?_putSlot, id_materialize, if_pos rfl]
      · intro id hid
        rw [hother id fun q hq => (hid.trans (hfirst q hq)).ne, find?_putSlot, id_materialize,
          if_neg hid.ne]

end RelScript
