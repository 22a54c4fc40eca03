import RelScript.Execution.UnitRun
import RelScript.Proofs.Execution.TypedGroups

/-!
Typed operator trees are safe: from every state, whatever the catalog holds, they give rows of their
schema or fail for another reason than the types of operands.
-/

namespace RelScript

theorem safe_rowKeys {s : Schema} {keys : List Expr} (hkeys : ∀ k ∈ keys, ∃ t, k.HasType s t)
    (bindings : ScalarBindings) (rows : Batch s) :
    Safe (fun _ => True) (rowKeys bindings keys rows) := by
  have hcolumn : ∀ k ∈ keys, Safe (fun column => ∀ x ∈ column, Safe (fun _ => True) x) (do
      let e ← k.compile s bindings
      return (← e.2.eval rows).map Cell.read) := by
    intro k hk
    obtain ⟨t, ht⟩ := hkeys k hk
    refine (ht.safe_compile bindings).bind fun e he => ?_
    refine (he.2.safe_eval rows).bind fun column _ x hx => ?_
    obtain ⟨entry, -, rfl⟩ := List.mem_map.mp hx
    exact (Cell.safe_read entry).mono fun _ _ => trivial
  refine (Safe.mapM hcolumn).bind fun columns hcolumns => ?_
  refine (Safe.mapM (R := fun _ _ => True) fun row hrow => ?_).mono fun _ _ => trivial
  have hcells := forall₂_of_mem_transposeCells hcolumns hrow
  exact (Safe.mapM₂ (R := fun _ _ => True) hcells.flip fun _ _ hx => hx).mono fun _ _ => trivial

theorem safe_joinRelations {left right : Relation} {on : List (Expr × Expr)}
    (hon : ∀ k ∈ on, ∃ t, k.1.HasType left.schema t ∧ k.2.HasType right.schema t)
    (bindings : ScalarBindings) :
    Safe (fun r => r.schema = left.schema ++ right.schema)
      (joinRelations left right on bindings) := by
  have hleft : ∀ k ∈ on.map (·.1), ∃ t, k.HasType left.schema t := by
    rw [List.forall_mem_map]
    exact fun k hk => (hon k hk).imp fun _ ht => ht.1
  have hright : ∀ k ∈ on.map (·.2), ∃ t, k.HasType right.schema t := by
    rw [List.forall_mem_map]
    exact fun k hk => (hon k hk).imp fun _ ht => ht.2
  refine (safe_rowKeys hleft bindings _).bind fun leftKeys _ => ?_
  refine (safe_rowKeys hright bindings _).bind fun rightKeys _ => ?_
  dsimp only
  split
  · rfl
  · exact (Batch.safe_check _ _).bind fun _ _ => rfl

theorem safe_scanColumns {s : Schema} (rows : Batch s) (index : Nat) (declared : Schema) :
    Safe (fun _ => True) (scanColumns rows index declared) := by
  induction declared generalizing index with
  | nil => trivial
  | cons f rest ih =>
      refine Safe.bind (P := fun _ => True) ?_ fun c _ => (ih (index + 1)).bind fun _ _ => trivial
      unfold scanColumn
      split
      · exact Column.safe_cast _ _
      · trivial

theorem safe_scanTable (batchSize : Nat) (source : String) (declared : Schema) (table : Relation) :
    Safe (fun r => r.schema = declared) (scanTable batchSize source (some declared) table) := by
  refine (Safe.mapM (R := fun _ _ => True) fun rows _ => ?_).bind fun _ _ => rfl
  exact (safe_scanColumns rows 0 declared).bind fun b _ => b.safe_check _

theorem safe_filterSlice {s : Schema} {predicate : Expr} (h : predicate.HasType s .boolean)
    (bindings : ScalarBindings) (rows : Batch s) :
    Safe (fun _ => True) (filterSlice predicate bindings rows) := by
  refine (h.safe_compile bindings).bind fun e he => ?_
  obtain ⟨t, e⟩ := e
  obtain ⟨rfl, he⟩ := he
  exact (he.safe_eval rows).bind fun mask _ => (mask.safe_expect _).bind fun _ _ => trivial

theorem safe_projectColumns {s : Schema} {columns : List (OutputColumn s)}
    (h : ∀ c ∈ columns, c.value.2.Sound) (rows : Batch s) (index : Nat) :
    Safe (fun _ => True) (projectColumns rows index columns) := by
  induction columns generalizing index with
  | nil => trivial
  | cons c rest ih =>
      obtain ⟨hc, hrest⟩ := List.forall_mem_cons.mp h
      refine (hc.safe_eval rows).bind fun column _ => (ih hrest (index + 1)).bind fun b _ => ?_
      split <;> trivial

theorem safe_projectSlice {s : Schema} {columns : List (OutputColumn s)}
    (h : ∀ c ∈ columns, c.value.2.Sound) (rows : Batch s) :
    Safe (fun _ => True) (projectSlice columns rows) := by
  refine (safe_projectColumns h rows 0).bind fun b _ => ?_
  refine (Safe.mapError (P := fun _ => True) (fun _ _ => trivial) fun _ => rfl).bind fun b _ => ?_
  exact b.safe_check _

theorem Expr.HasType.safe_compileOutput {s : Schema} {c : Named Expr} {f : Field}
    (h : c.value.HasType s f.type) (hf : f = ⟨c.name, f.type, true⟩) (bindings : ScalarBindings) :
    Safe (fun o : OutputColumn s => o.value.2.Sound ∧ o.field = f)
      (compileOutput s bindings c) := by
  refine (h.safe_compile bindings).bind fun e he => ⟨he.2, ?_⟩
  rw [hf]
  exact congrArg (Field.mk c.name · true) (he.2.declared.trans he.1)

theorem RunContext.safe_bindSideInputs (ctx : RunContext) (ids : List SideInputId)
    (bindings : ScalarBindings) : Safe (fun _ => True) (ctx.bindSideInputs ids bindings) := by
  induction ids generalizing bindings with
  | nil => trivial
  | cons id rest ih =>
      rw [bindSideInputs]
      split
      · rfl
      · rename_i slot _
        refine Safe.bind (P := fun _ => True) ?_ fun binding _ => ih _
        unfold resolve Slot.resolve?
        cases slot.state with
        | failed e => exact Error.isOperandFault_forReader _ e
        | bound | boundEmpty => trivial
        | unresolved | materializing => rfl

theorem safe_get (c : Catalog) (name : String) : Safe (fun _ => True) (c.get name) := by
  unfold Catalog.get
  split
  · trivial
  · rfl

theorem safe_write (c : Catalog) (name : String) (rows : Relation) :
    Safe (fun _ => True) (c.write name rows) := by
  have hbuild : ∀ cells : List Cell, Safe (fun _ => True) (Cell.build .binary cells) := by
    intro cells
    refine (Safe.mapM (R := fun _ _ => True) fun c _ => ?_).mono fun _ _ => trivial
    cases c <;> trivial
  refine Safe.bind (P := fun _ => True) ?_ fun _ _ => trivial
  refine (Safe.mapM (R := fun _ _ => True) fun b _ => ?_).bind fun _ _ => trivial
  refine (Safe.mapM (R := fun _ _ => True) fun column hcolumn => ?_).bind fun _ _ => trivial
  obtain ⟨i, -, rfl⟩ := List.mem_map.mp hcolumn
  refine (Safe.mapM (R := fun _ _ => True) fun x hx => ?_).bind fun cells _ => hbuild cells
  obtain ⟨entry, -, rfl⟩ := List.mem_map.mp hx
  exact (Cell.safe_read entry).mono fun _ _ => trivial

theorem safe_runParts {α β : Type} (ctx : RunContext) (bindings : ScalarBindings)
    {step : List α → Outcome (List β)} (hstep : ∀ rows, Safe (fun _ => True) (step rows))
    (batches : List (List α)) :
    Run.Safe (fun _ => True) (runParts ctx bindings step batches) := by
  refine (Run.Safe.forM (fun _ => Run.Safe.forM (fun _ => Run.Safe.modify _) _) _).bind
    fun _ _ => ?_
  refine (Run.Safe.ofOutcome (P := fun _ => True) ?_).bind fun _ _ => Run.Safe.pure trivial
  refine (Safe.mapM (R := fun _ _ => True) fun part _ => ?_).mono fun _ _ => trivial
  exact (Safe.mapM (R := fun _ _ => True) fun rows _ => hstep rows).mono fun _ _ => trivial

theorem safe_finish (ctx : RunContext) (o : Operator) {s : Schema} {r : Relation}
    (h : r.schema = s) : Run.Safe (fun r => r.schema = s) (Operator.execute.finish ctx o r) :=
  (Run.Safe.modify _).bind fun _ _ => Run.Safe.pure h

/-- A typed operator tree gives rows of its schema, or fails for another reason than the types of
operands. -/
theorem Operator.Typed.safe_execute {o : Operator} {s : Schema} (h : o.Typed s) (ctx : RunContext)
    (bindings : ScalarBindings) :
    Run.Safe (fun r => r.schema = s) (o.execute ctx bindings) := by
  induction h generalizing bindings with
  | scan source s size =>
      refine Run.Safe.get.bind fun w _ => ?_
      refine (Run.Safe.ofOutcome (safe_get _ _)).bind fun table _ => ?_
      refine (Run.Safe.ofOutcome (safe_scanTable _ _ _ table)).bind fun r hr => ?_
      exact safe_finish ctx _ hr
  | filter _ he ih =>
      refine (ih bindings).bind fun child hchild => ?_
      subst hchild
      refine (safe_runParts ctx bindings (safe_filterSlice he bindings) _).bind fun _ _ => ?_
      exact safe_finish ctx _ rfl
  | @project o s fields columns _ hcolumns ih =>
      refine (ih bindings).bind fun child hchild => ?_
      subst hchild
      refine (Run.Safe.ofOutcome (Safe.mapM₂
        (R := fun f (c : OutputColumn child.schema) => c.value.2.Sound ∧ c.field = f) hcolumns
          fun c f hc => hc.1.safe_compileOutput hc.2 bindings)).bind fun compiled hcompiled => ?_
      have hsound : ∀ c ∈ compiled, c.value.2.Sound := fun c hc => by
        obtain ⟨f, -, h, -⟩ := forall_right_of_forall₂ hcompiled c hc
        exact h
      -- The columns come out under the fields that the type says, in their order.
      have hfields : compiled.map OutputColumn.field = fields := by
        have heq : List.Forall₂ Eq fields (compiled.map OutputColumn.field) := by
          rw [List.forall₂_map_right_iff]
          exact hcompiled.imp fun _ _ hc => hc.2.symm
        rw [List.forall₂_eq_eq_eq] at heq
        exact heq.symm
      refine (safe_runParts ctx bindings (safe_projectSlice hsound) _).bind fun _ _ => ?_
      exact safe_finish ctx _ hfields
  | hashAggregate _ hkeys haggregates ih =>
      refine (ih bindings).bind fun child hchild => ?_
      subst hchild
      refine (Run.Safe.ofOutcome (safe_aggregateRelation hkeys haggregates bindings)).bind
        fun r hr => ?_
      exact safe_finish ctx _ hr
  | hashJoin _ _ hon ihl ihr =>
      refine (ihl bindings).bind fun l hl => (ihr bindings).bind fun r hr => ?_
      subst hl hr
      refine (Run.Safe.ofOutcome (safe_joinRelations hon bindings)).bind fun joined hjoined => ?_
      exact safe_finish ctx _ hjoined
  | limit count _ ih => exact (ih bindings).bind fun child hchild => safe_finish ctx _ hchild
  | store target _ ih =>
      refine (ih bindings).bind fun child hchild => Run.Safe.get.bind fun w _ => ?_
      refine (Run.Safe.ofOutcome (safe_write _ _ child)).bind fun written _ => ?_
      exact (Run.Safe.modify _).bind fun _ _ => safe_finish ctx _ hchild
  | broadcast ids _ ih =>
      refine (Run.Safe.ofOutcome (ctx.safe_bindSideInputs ids bindings)).bind fun bound _ => ?_
      exact (ih bound).bind fun r hr => safe_finish ctx _ hr

end RelScript
