import RelScript.Proofs.Execution.SlotReads

/-!
Failed slots and the operator trees that read them. A broadcast that lists a failed side input
fails, and so does every tree around it; and a tree whose run stops where a broadcast resolves a
failed side input fails with what the readers of that side input get.
-/

namespace RelScript

/-- Handing a failure on to further readers does not change it any more. -/
theorem Error.forReader_forReader (a b : String) (e : Error) :
    (e.forReader a).forReader b = e.forReader a := by
  cases e <;> rfl

theorem Error.forReader_cases (a : String) (e : Error) :
    (∃ b rows, e = .cardinality b rows ∧ e.forReader a = .cardinality b rows) ∨
      (∀ b rows, e ≠ .cardinality b rows) ∧ ∃ text, e.forReader a = .cancelled text := by
  cases e with
  | cardinality b rows => exact Or.inl ⟨b, rows, rfl, rfl⟩
  | _ => exact Or.inr ⟨nofun, _, rfl⟩

theorem Run.bind_error {α β : Type} {step : Run α} {w : EngineState} {e : Error}
    (h : (step w).1 = .error e) (next : α → Run β) : ((step >>= next) w).1 = .error e := by
  rw [run_bind, h]

theorem Run.error_of_bind {α β : Type} {step : Run α} {next : α → Run β} {w : EngineState}
    {e : Error} (h : ((step >>= next) w).1 = .error e) :
    (step w).1 = .error e ∨
      ∃ a, (step w).1 = .ok a ∧ (next a (step w).2).1 = .error e := by
  rw [run_bind] at h
  cases hstep : (step w).1 with
  | error e' =>
      rw [hstep] at h
      cases h
      exact Or.inl rfl
  | ok a =>
      rw [hstep] at h
      exact Or.inr ⟨a, rfl, h⟩

theorem Run.ofOutcome_bind_error {α β : Type} {x : Outcome α} {e : Error} (h : x = .error e)
    (next : α → Run β) (w : EngineState) : ((ofOutcome x >>= next) w).1 = .error e := by
  subst h
  rfl

namespace RunContext

variable {ctx : RunContext}

theorem bindSideInputs_append (ctx : RunContext) (before after : List SideInputId)
    (b : ScalarBindings) : ctx.bindSideInputs (before ++ after) b =
      (ctx.bindSideInputs before b >>= ctx.bindSideInputs after) := by
  induction before generalizing b with
  | nil => rfl
  | cons id rest ih =>
      rw [List.cons_append, bindSideInputs_cons, bindSideInputs_cons]
      cases ctx.read id with
      | error e => rfl
      | ok x => exact ih (b.bind id x)

theorem bindSideInputs_error {before after : List SideInputId} {id : SideInputId}
    {b bound : ScalarBindings} {e : Error} (hbefore : ctx.bindSideInputs before b = .ok bound)
    (hread : ctx.read id = .error e) :
    ctx.bindSideInputs (before ++ id :: after) b = .error e := by
  rw [bindSideInputs_append, hbefore]
  change ctx.bindSideInputs (id :: after) bound = _
  rw [bindSideInputs_cons, hread]
  rfl

theorem exists_bindSideInputs_error {ids : List SideInputId} {id : SideInputId} (hid : id ∈ ids)
    {e : Error} (hread : ctx.read id = .error e) (b : ScalarBindings) :
    ∃ e', ctx.bindSideInputs ids b = .error e' := by
  cases hbound : ctx.bindSideInputs ids b with
  | error e' => exact ⟨e', rfl⟩
  | ok bound =>
      obtain ⟨x, hx, -⟩ := offers_of_bindSideInputs hbound (Or.inl hid)
      rw [hread] at hx
      cases hx

theorem exists_read_of_bindSideInputs {ids : List SideInputId} {b : ScalarBindings} {e : Error}
    (h : ctx.bindSideInputs ids b = .error e) :
    ∃ before id after bound, ids = before ++ id :: after ∧
      ctx.bindSideInputs before b = .ok bound ∧ ctx.read id = .error e := by
  induction ids generalizing b with
  | nil => cases h
  | cons first rest ih =>
      rw [bindSideInputs_cons] at h
      cases hread : ctx.read first with
      | error e' =>
          rw [hread] at h
          cases h
          exact ⟨[], first, rest, b, rfl, rfl, hread⟩
      | ok x =>
          rw [hread] at h
          obtain ⟨before, id, after, bound, rfl, hbefore, hid⟩ := ih h
          refine ⟨first :: before, id, after, bound, rfl, ?_, hid⟩
          rw [bindSideInputs_cons, hread]
          exact hbefore

end RunContext

namespace Operator

variable {ctx : RunContext} {id : SideInputId}

theorem mem_sideInputs_of_broadcast {o input : Operator} {ids : List SideInputId}
    (hnode : .broadcast ids input ∈ o.nodes) (hid : id ∈ ids) : id ∈ o.sideInputs :=
  mem_sideInputs.mpr (List.mem_flatMap.mpr ⟨_, hnode, hid⟩)

/-- The run of the tree stops where a broadcast resolves a side input that has failed: whatever runs
before succeeds. -/
def StopsAt (ctx : RunContext) (id : SideInputId) :
    Operator → ScalarBindings → EngineState → Prop
  | scan _ _ _, _, _ => False
  | filter _ input, b, w | project _ input, b, w | hashAggregate _ _ input, b, w
  | limit _ input, b, w | store _ input, b, w => input.StopsAt ctx id b w
  | hashJoin left right _, b, w => left.StopsAt ctx id b w ∨
    (∃ l, (left.execute ctx b w).1 = .ok l) ∧ right.StopsAt ctx id b (left.execute ctx b w).2
  | broadcast ids input, b, w =>
    (∃ before after bound, ids = before ++ id :: after ∧
      ctx.bindSideInputs before b = .ok bound ∧ ∃ e, ctx.read id = .error e) ∨
    ∃ bound, ctx.bindSideInputs ids b = .ok bound ∧ input.StopsAt ctx id bound w

theorem StopsAt.execute_eq {o : Operator} {b : ScalarBindings} {w : EngineState}
    (h : o.StopsAt ctx id b w) :
    ∃ e, ctx.read id = .error e ∧ (o.execute ctx b w).1 = .error e := by
  induction o generalizing b w with
  | scan source declared size => cases h
  | filter predicate input ih | project columns input ih | hashAggregate keys aggregates input ih
  | limit count input ih | store target input ih =>
      obtain ⟨e, hread, hinput⟩ := ih h
      exact ⟨e, hread, Run.bind_error hinput _⟩
  | hashJoin left right on ihl ihr =>
      rcases h with h | ⟨⟨l, hl⟩, h⟩
      · obtain ⟨e, hread, hleft⟩ := ihl h
        exact ⟨e, hread, Run.bind_error hleft _⟩
      · obtain ⟨e, hread, hright⟩ := ihr h
        refine ⟨e, hread, ?_⟩
        rw [execute, run_bind, hl]
        exact Run.bind_error hright _
  | broadcast ids input ih =>
      rcases h with ⟨before, after, bound, rfl, hbefore, e, hread⟩ | ⟨bound, hbound, h⟩
      · exact ⟨e, hread,
          Run.ofOutcome_bind_error (RunContext.bindSideInputs_error hbefore hread) _ w⟩
      · obtain ⟨e, hread, hinput⟩ := ih h
        refine ⟨e, hread, ?_⟩
        rw [execute, hbound]
        exact Run.bind_error hinput _

theorem StopsAt.mem_sideInputs {o : Operator} {b : ScalarBindings} {w : EngineState}
    (h : o.StopsAt ctx id b w) : id ∈ o.sideInputs := by
  induction o generalizing b w with
  | scan source declared size => cases h
  | filter predicate input ih | project columns input ih | hashAggregate keys aggregates input ih
  | limit count input ih | store target input ih =>
      exact sideInputs_subset_of_child (List.mem_singleton.mpr rfl) (ih h)
  | hashJoin left right on ihl ihr =>
      rcases h with h | ⟨-, h⟩
      · exact sideInputs_subset_of_child List.mem_cons_self (ihl h)
      · exact sideInputs_subset_of_child (List.mem_cons_of_mem _ List.mem_cons_self) (ihr h)
  | broadcast ids input ih =>
      rcases h with ⟨before, after, bound, rfl, -⟩ | ⟨bound, -, h⟩
      · exact Operator.mem_sideInputs.mpr (List.mem_append_left _ (by simp [ownSideInputs]))
      · exact sideInputs_subset_of_child (List.mem_singleton.mpr rfl) (ih h)

/-- A failure that the readers of failed side inputs get comes from such a read: no operator fails
like that by itself. -/
theorem exists_stopsAt {o : Operator} {b : ScalarBindings} {w : EngineState} {e : Error}
    (h : (o.execute ctx b w).1 = .error e) (he : e.isHandedOn = true) :
    ∃ id, o.StopsAt ctx id b w := by
  -- What an operator does once its inputs are there never fails like this.
  have hspared : ∀ {α : Type} {step : Run α} {w : EngineState},
      Run.Spares Error.isHandedOn step → (step w).1 ≠ .error e := by
    intro α step w hstep hfails
    rw [hstep w e hfails] at he
    cases he
  have hreads := fun (b : ScalarBindings) (e : Expr) => e.sparedIn_isHandedOn b
  induction o generalizing b w with
  | scan source declared size => exact absurd h (hspared (spares_scan _ source declared _))
  | filter predicate input ih =>
      rcases Run.error_of_bind h with hinput | ⟨child, -, hown⟩
      · exact ih hinput
      · exact absurd hown (hspared (spares_filter _ (hreads b _) child))
  | project columns input ih =>
      rcases Run.error_of_bind h with hinput | ⟨child, -, hown⟩
      · exact ih hinput
      · exact absurd hown (hspared (spares_project _ (fun _ _ => hreads b _) child))
  | hashAggregate keys aggregates input ih =>
      rcases Run.error_of_bind h with hinput | ⟨child, -, hown⟩
      · exact ih hinput
      · exact absurd hown (hspared
          (spares_hashAggregate _ (fun _ _ => hreads b _) (fun _ _ => hreads b _) child))
  | hashJoin left right on ihl ihr =>
      rcases Run.error_of_bind h with hleft | ⟨l, hl, h⟩
      · obtain ⟨id, hstops⟩ := ihl hleft
        exact ⟨id, Or.inl hstops⟩
      · rcases Run.error_of_bind h with hright | ⟨r, -, hown⟩
        · obtain ⟨id, hstops⟩ := ihr hright
          exact ⟨id, Or.inr ⟨⟨l, hl⟩, hstops⟩⟩
        · exact absurd hown (hspared
            (spares_hashJoin _ (fun _ _ => ⟨hreads b _, hreads b _⟩) l r))
  | limit count input ih =>
      rcases Run.error_of_bind h with hinput | ⟨child, -, hown⟩
      · exact ih hinput
      · exact absurd hown (hspared (.finish ctx _ _))
  | store target input ih =>
      rcases Run.error_of_bind h with hinput | ⟨child, -, hown⟩
      · exact ih hinput
      · exact absurd hown (hspared (spares_store _ target child))
  | broadcast ids input ih =>
      cases hbound : ctx.bindSideInputs ids b with
      | error e' =>
          obtain ⟨before, id, after, bound, rfl, hbefore, hread⟩ :=
            RunContext.exists_read_of_bindSideInputs hbound
          exact ⟨id, Or.inl ⟨before, after, bound, rfl, hbefore, _, hread⟩⟩
      | ok bound =>
          rw [execute, hbound] at h
          change ((input.execute ctx bound >>=
            execute.finish ctx (.broadcast ids input)) w).1 = _ at h
          rcases Run.error_of_bind h with hinput | ⟨r, -, hown⟩
          · obtain ⟨id, hstops⟩ := ih hinput
            exact ⟨id, Or.inr ⟨bound, hbound, hstops⟩⟩
          · exact absurd hown (hspared (.finish ctx _ r))

theorem exists_execute_error {o : Operator} {e : Error} (hid : id ∈ o.sideInputs)
    (hread : ctx.read id = .error e) (b : ScalarBindings) (w : EngineState) :
    ∃ e', (o.execute ctx b w).1 = .error e' := by
  rw [mem_sideInputs] at hid
  induction o generalizing b w with
  | scan source declared size => cases hid
  | filter predicate input ih | project columns input ih | hashAggregate keys aggregates input ih
  | limit count input ih | store target input ih =>
      obtain ⟨e', hinput⟩ := ih hid b w
      exact ⟨e', Run.bind_error hinput _⟩
  | hashJoin left right on ihl ihr =>
      change id ∈ (left.nodes ++ right.nodes).flatMap ownSideInputs at hid
      rw [List.flatMap_append, List.mem_append] at hid
      cases hl : (left.execute ctx b w).1 with
      | error e' => exact ⟨e', Run.bind_error hl _⟩
      | ok l =>
          rcases hid with hid | hid
          · obtain ⟨e', hleft⟩ := ihl hid b w
            rw [hl] at hleft
            cases hleft
          · obtain ⟨e', hright⟩ := ihr hid b (left.execute ctx b w).2
            refine ⟨e', ?_⟩
            rw [execute, run_bind, hl]
            exact Run.bind_error hright _
  | broadcast ids input ih =>
      change id ∈ ids ++ input.nodes.flatMap ownSideInputs at hid
      cases hbound : ctx.bindSideInputs ids b with
      | error e' => exact ⟨e', Run.ofOutcome_bind_error hbound _ w⟩
      | ok bound =>
          rcases List.mem_append.mp hid with hid | hid
          · obtain ⟨e', herror⟩ := RunContext.exists_bindSideInputs_error hid hread b
            rw [hbound] at herror
            cases herror
          · obtain ⟨e', hinput⟩ := ih hid bound w
            refine ⟨e', ?_⟩
            rw [execute, hbound]
            exact Run.bind_error hinput _

end Operator

section Slots

theorem read_of_find? (settings : RunSettings) {slots : List Slot} {id : SideInputId} {slot : Slot}
    (hslot : slots.find? (·.id = id) = some slot) {e : Error} (hstate : slot.state = .failed e) :
    (settings.context slots).read id = .error (e.forReader slot.aliasName) := by
  have hfound : (settings.context slots).slot? id = some slot := hslot
  rw [RunContext.read, hfound]
  change RunContext.resolve slot = _
  rw [RunContext.resolve, Slot.resolve?, hstate]

theorem Slot.outcome_of_rows (slot : Slot) (r : Relation) (h : 2 ≤ r.size) :
    slot.outcome r.batches =
      .error ⟨.cardinality, .cardinality slot.aliasName r.size⟩ := by
  rw [Relation.size, Relation.rows] at h ⊢
  unfold outcome
  split
  · rename_i hrows
    simp [hrows] at h
  · rename_i row hrows
    simp [hrows] at h
  · rfl

end Slots

end RelScript
