import RelScript.Execution.UnitRun
import RelScript.Proofs.Execution.TypedGroups

/-!
Failures that come from reading scalars. They blame a slot, one that is missing, one that is not
written, or one that is read where it is not bound, or they are what the readers of a failed side
input get. Nothing that operators do to rows ends in such a failure.
-/

namespace RelScript

/-- Whether a failure blames a slot. -/
def Error.isSlotFault : Error → Bool
  | execution (.unboundPlaceholder _ _ _) => true
  | execution (.noSlot _) => true
  | execution (.notTerminal _ _) => true
  | _ => false

/-- Whether a failure is one that the readers of a failed side input get. -/
def Error.isHandedOn : Error → Bool
  | cardinality _ _ | cancelled _ => true
  | _ => false

theorem Error.isSlotFault_forReader (aliasName : String) (e : Error) :
    (e.forReader aliasName).isSlotFault = false := by
  cases e <;> rfl

/-- If the result is a failure, it blames no slot. -/
def SparesSlots {α : Type} (x : Outcome α) : Prop := ∀ e, x = .error e → e.isSlotFault = false

/-- If the result is a failure, it is not of the kind. -/
def Spares (kind : Error → Bool) {α : Type} (x : Outcome α) : Prop :=
  ∀ e, x = .error e → kind e = false

theorem Safe.spares {α : Type} {P : α → Prop} {x : Outcome α} (h : Safe P x) :
    Spares Error.isOperandFault x := by
  rintro _ rfl
  exact h

/-- A kind of failures that only reads of scalars end in. -/
class ReadKind (kind : Error → Bool) : Prop where
  spared {e : Error} : (e.isSlotFault || e.isHandedOn) = false → kind e = false

instance : ReadKind Error.isSlotFault := ⟨fun h => (Bool.or_eq_false_iff.mp h).1⟩

instance : ReadKind Error.isHandedOn := ⟨fun h => (Bool.or_eq_false_iff.mp h).2⟩

namespace Spares

variable {α β : Type} {kind : Error → Bool} {x : Outcome α}

theorem ok (a : α) : Spares kind (.ok a) := by
  intro e h
  cases h

theorem of_error {e : Error} (h : kind e = false) : Spares kind (.error e : Outcome α) := by
  rintro _ ⟨⟩
  exact h

theorem error [ReadKind kind] {e : Error} (h : (e.isSlotFault || e.isHandedOn) = false) :
    Spares kind (.error e : Outcome α) :=
  of_error (ReadKind.spared h)

theorem bind {f : α → Outcome β} (h : Spares kind x)
    (hf : ∀ a, x = .ok a → Spares kind (f a)) : Spares kind (x >>= f) := by
  cases x with
  | ok a => exact hf a rfl
  | error e => exact of_error (h e rfl)

theorem map (f : α → β) (h : Spares kind x) : Spares kind (x.map f) := by
  cases x with
  | ok a => exact ok (f a)
  | error e => exact of_error (h e rfl)

theorem mapError [ReadKind kind] {ε : Type} {y : Except ε α} {f : ε → Error}
    (hf : ∀ e, ((f e).isSlotFault || (f e).isHandedOn) = false) : Spares kind (y.mapError f) := by
  cases y with
  | ok a => exact ok a
  | error e => exact error (hf e)

theorem mapM {f : α → Outcome β} {items : List α} (hf : ∀ a ∈ items, Spares kind (f a)) :
    Spares kind (items.mapM f) := by
  induction items with
  | nil => exact ok []
  | cons a items ih =>
      rw [List.mapM_cons]
      obtain ⟨hfirst, hrest⟩ := List.forall_mem_cons.mp hf
      apply hfirst.bind
      intro b _
      apply (ih hrest).bind
      intro bs _
      exact ok (b :: bs)

theorem foldlM {f : β → α → Outcome β} {items : List α}
    (hf : ∀ b, ∀ a ∈ items, Spares kind (f b a)) (b : β) : Spares kind (items.foldlM f b) := by
  induction items generalizing b with
  | nil => exact ok b
  | cons a items ih =>
      rw [List.foldlM_cons]
      apply (hf b a List.mem_cons_self).bind
      intro b' _
      exact ih (fun b c hc => hf b c (List.mem_cons_of_mem _ hc)) b'

end Spares

variable {kind : Error → Bool} [ReadKind kind]

open Spares

section Values

theorem Column.spares_cast {a : DataType} (c : Column a) (b : DataType) :
    Spares kind (c.cast b) := by
  unfold Column.cast
  split
  · apply (mapError fun _ => rfl).bind
    intro text _
    exact mapError fun _ => rfl
  · exact mapError fun _ => rfl

theorem Column.spares_expect {t : DataType} (c : Column t) (u : DataType)
    {fault : ExecutionFault}
    (h : ((Error.execution fault).isSlotFault || (Error.execution fault).isHandedOn) = false) :
    Spares kind (c.expect u fault) := by
  unfold Column.expect
  split
  · exact ok _
  · exact error h

theorem Arithmetic.spares_column (op : Arithmetic) {a b : DataType} (l : Column a)
    (r : Column b) : Spares kind (op.column l r) := by
  cases op with
  | divide =>
      apply (mapError fun _ => rfl).bind
      intro right _
      exact mapError fun _ => rfl
  | _ => exact mapError fun _ => rfl

theorem Cell.spares_read {t : DataType} (entry : t.Entry) :
    Spares kind (Cell.read entry) := by
  cases entry with
  | none => exact ok _
  | some v =>
      cases t with
      | null => exact nomatch v
      | date | duration => exact error rfl
      | _ => exact ok _

theorem Cell.spares_narrow (t : DataType) (c : Cell) : Spares kind (Cell.narrow t c) := by
  unfold Cell.narrow
  split
  all_goals first | exact ok _ | exact error rfl

theorem Cell.spares_build (t : DataType) (cells : List Cell) :
    Spares kind (Cell.build t cells) := by
  cases t with
  | date | duration => exact error rfl
  | _ => exact mapM fun c _ => Cell.spares_narrow _ c

theorem Cell.spares_compare (a b : Cell) : Spares kind (a.compare b) := by
  unfold Cell.compare
  split
  all_goals first | exact ok _ | exact error rfl

end Values

section Expressions

variable {s : Schema} {b : ScalarBindings}

theorem Compiled.spares_eval {t : DataType} (e : Compiled s t) (rows : Batch s) :
    Spares kind (e.eval rows) := by
  induction e with
  | column | missing | literal | bound => exact ok _
  | cast e t ih =>
      apply ih.bind
      intro c _
      exact c.spares_cast t
  | not e ih =>
      apply ih.bind
      intro c _
      exact (c.spares_expect _ rfl).bind fun _ _ => ok _
  | junction j l r ihl ihr | concat l r ihl ihr =>
      apply ihl.bind
      intro left _
      apply ihr.bind
      intro right _
      apply (left.spares_expect _ rfl).bind
      intro _ _
      exact (right.spares_expect _ rfl).bind fun _ _ => ok _
  | compare c l r ihl ihr =>
      apply ihl.bind
      intro left _
      apply ihr.bind
      intro right _
      exact (left.spares_expect _ rfl).bind fun _ _ => ok _
  | arith op l r ihl ihr =>
      apply ihl.bind
      intro left _
      apply ihr.bind
      intro right _
      exact op.spares_column left right

theorem Placeholder.spares_value (p : Placeholder) (x : ScalarBinding) :
    Spares kind (p.value x) := by
  cases x with
  | empty => exact ok none
  | row s r =>
      rw [Placeholder.value]
      split
      · exact ok none
      · exact (Column.spares_cast _ _).bind fun _ _ => ok _

/-- The bindings hold every side input that the expression reads, unless a read of an unbound one is
not of the kind. -/
def Expr.SparedIn (kind : Error → Bool) (b : ScalarBindings) (e : Expr) : Prop :=
  ∀ p ∈ e.placeholders, (b.lookup p.sideInput).isSome ∨
    kind (.execution (.unboundPlaceholder p.aliasName p.index p.sideInput)) = false

theorem Expr.sparedIn_isHandedOn (b : ScalarBindings) (e : Expr) :
    e.SparedIn Error.isHandedOn b :=
  fun _ _ => Or.inr rfl

theorem Expr.SparedIn.spares_compile {e : Expr} (h : e.SparedIn kind b) :
    Spares kind (e.compile s b) := by
  induction e with
  | column name =>
      rw [compile]
      split
      · exact ok _
      · exact error rfl
  | position | columnRef | literal => exact ok _
  | scalarRef | relationRef => exact error rfl
  | placeholder p =>
      rw [compile]
      cases hx : b.lookup p.sideInput with
      | none =>
          have hspared := h p (List.mem_singleton.mpr rfl)
          rw [hx] at hspared
          exact of_error (hspared.resolve_left Bool.false_ne_true)
      | some x => exact (p.spares_value x).bind fun _ _ => ok _
  | cast e t ih =>
      rw [SparedIn, placeholders_cast] at h
      exact (ih h).bind fun _ _ => ok _
  | not e ih =>
      rw [SparedIn, placeholders_not] at h
      exact (ih h).bind fun _ _ => ok _
  | junction j l r ihl ihr =>
      rw [SparedIn, placeholders_junction] at h
      obtain ⟨hl, hr⟩ := List.forall_mem_append.mp h
      exact (ihl hl).bind fun _ _ => (ihr hr).bind fun _ _ => ok _
  | binary l op r ihl ihr =>
      rw [SparedIn, placeholders_binary] at h
      obtain ⟨hl, hr⟩ := List.forall_mem_append.mp h
      rw [compile]
      apply (ihl hl).bind
      intro left _
      apply (ihr hr).bind
      intro right _
      cases op with
      | compare c => exact ok _
      | concat => exact ok _
      | arith op =>
          dsimp only
          split
          · exact ok _
          · exact error rfl

end Expressions

section Rows

variable {s : Schema} {b : ScalarBindings}

omit [ReadKind kind] in
theorem spares_of_mem_transposeCells {columns : List (List (Outcome Cell))}
    (h : ∀ column ∈ columns, ∀ x ∈ column, Spares kind x) {count : Nat}
    {row : List (Outcome Cell)} (hrow : row ∈ transposeCells count columns) :
    ∀ x ∈ row, Spares kind x := by
  have hcells := forall₂_of_mem_transposeCells (P := fun _ x => Spares kind x)
    (List.forall₂_same.mpr h) hrow
  intro x hx
  obtain ⟨_, _, hspares⟩ := forall_right_of_forall₂ hcells x hx
  exact hspares

theorem AnyCompiled.spares_cells {e : AnyCompiled s} {rows : Batch s}
    {cells : List (Outcome Cell)} (h : (do return (← e.2.eval rows).map Cell.read) = .ok cells) :
    ∀ x ∈ cells, Spares kind x := by
  obtain ⟨column, -, h⟩ := bind_eq_ok.mp h
  cases h
  intro x hx
  obtain ⟨entry, -, rfl⟩ := List.mem_map.mp hx
  exact Cell.spares_read entry

theorem spares_evalCells (es : List (AnyCompiled s)) (rows : Batch s) :
    Spares kind (evalCells es rows) := by
  apply (mapM fun e _ => ?_).bind fun _ _ => ok _
  exact (e.2.spares_eval rows).bind fun _ _ => ok _

theorem spares_of_evalCells {es : List (AnyCompiled s)} {rows : Batch s}
    {cells : List (List (Outcome Cell))} (h : evalCells es rows = .ok cells) :
    ∀ row ∈ cells, ∀ x ∈ row, Spares kind x := by
  obtain ⟨columns, hcolumns, h⟩ := bind_eq_ok.mp h
  cases h
  intro row hrow
  refine spares_of_mem_transposeCells (fun column hcolumn => ?_) hrow
  obtain ⟨e, -, he⟩ := forall_right_of_forall₂ (mapM_eq_ok.mp hcolumns) column hcolumn
  exact AnyCompiled.spares_cells he

theorem spares_rowKeys {keys : List Expr} (h : ∀ k ∈ keys, k.SparedIn kind b) (rows : Batch s) :
    Spares kind (rowKeys b keys rows) := by
  apply (mapM fun k hk => ?_).bind
  · intro columns hcolumns
    apply mapM
    intro row hrow
    apply mapM
    refine spares_of_mem_transposeCells (fun column hcolumn => ?_) hrow
    obtain ⟨k, -, hk⟩ := forall_right_of_forall₂ (mapM_eq_ok.mp hcolumns) column hcolumn
    obtain ⟨e, -, he⟩ := bind_eq_ok.mp hk
    exact AnyCompiled.spares_cells he
  · exact (h k hk).spares_compile.bind fun e _ =>
      (e.2.spares_eval rows).bind fun _ _ => ok _

theorem Batch.spares_check (site : BatchSite) (rows : Batch s) :
    Spares kind (rows.check site) := by
  unfold Batch.check
  split
  · exact error rfl
  · split
    · exact error rfl
    · exact ok rows

end Rows

section Groups

variable {s : Schema} {b : ScalarBindings}

theorem Accumulator.spares_add (v : Cell) (a : Accumulator) : Spares kind (a.add v) := by
  have hvalue : Spares kind (a.addValue v) := by
    cases a with
    | count n =>
        rw [addValue]
        split
        · exact ok _
        · exact error rfl
    | sumInt total =>
        cases v with
        | int n =>
            rw [addValue]
            split
            · exact ok _
            · exact error rfl
        | _ => exact ok _
    | sumFloat total | average total n =>
        rw [addValue]
        split <;> exact ok _
    | least found | greatest found =>
        cases found with
        | none => exact ok _
        | some c => exact (v.spares_compare c).bind fun _ _ => ok _
  unfold add
  split
  · exact ok a
  · exact hvalue

theorem spares_addToGroups (start : List Accumulator) (key : List Cell)
    {args : List (Outcome Cell)} (h : ∀ x ∈ args, Spares kind x) (groups : List Group) :
    Spares kind (addToGroups start key args groups) := by
  have hgroup : ∀ g : Group, Spares kind (Group.add args g) := by
    intro g
    apply (mapM fun x hx => ?_).bind fun _ _ => ok _
    exact (h x.2 (List.of_mem_zip hx).2).bind fun v _ => x.1.spares_add v
  induction groups with
  | nil => exact (hgroup _).bind fun _ _ => ok _
  | cons g rest ih =>
      rw [addToGroups]
      split
      · exact (hgroup g).bind fun _ _ => ok _
      · exact ih.bind fun _ _ => ok _

theorem spares_addBatch (keys : List (AnyCompiled s)) (measures : List (Measure s))
    (groups : List Group) (rows : Batch s) :
    Spares kind (addBatch keys measures groups rows) := by
  apply (spares_evalCells keys rows).bind
  intro keyRows hkeyRows
  apply (spares_evalCells _ rows).bind
  intro argRows hargRows
  apply foldlM
  intro groups row hrow
  obtain ⟨hkey, hargs⟩ := List.of_mem_zip hrow
  apply (mapM (spares_of_evalCells hkeyRows _ hkey)).bind
  intro key _
  exact spares_addToGroups _ key (spares_of_evalCells hargRows _ hargs) groups

theorem spares_groupsToRelation (columns : List (Field × List Cell)) (groups : List Group) :
    Spares kind (groupsToRelation columns groups) := by
  have hcells : ∀ columns, Spares kind (Batch.ofCells groups.length columns) := by
    intro columns
    induction columns with
    | nil => exact ok _
    | cons column rest ih =>
        exact (Cell.spares_build _ _).bind fun _ _ => ih.bind fun _ _ => ok _
  unfold groupsToRelation
  split
  · exact ok _
  · exact (hcells columns).bind fun rows _ => (rows.spares_check _).bind fun _ _ => ok _

theorem spares_aggregateRelation {keys : List Expr} {aggregates : List (Named Aggregate)}
    (hkeys : ∀ k ∈ keys, k.SparedIn kind b)
    (haggregates : ∀ a ∈ aggregates, a.value.arg.SparedIn kind b)
    (input : Relation) : Spares kind (aggregateRelation input keys aggregates b) := by
  apply (mapM fun k hk => (hkeys k hk).spares_compile.bind fun _ _ => ok _).bind
  intro keys _
  apply (mapM fun a ha => (haggregates a ha).spares_compile.bind fun _ _ => ok _).bind
  intro measures _
  apply (foldlM (fun groups rows _ => spares_addBatch _ measures groups rows) []).bind
  intro groups _
  exact spares_groupsToRelation _ groups

end Groups

section Operators

variable {s : Schema} {b : ScalarBindings}

theorem spares_joinRelations {on : List (Expr × Expr)}
    (h : ∀ k ∈ on, k.1.SparedIn kind b ∧ k.2.SparedIn kind b) (left right : Relation) :
    Spares kind (joinRelations left right on b) := by
  apply (spares_rowKeys (List.forall_mem_map.mpr fun k hk => (h k hk).1) left.rows).bind
  intro leftKeys _
  apply (spares_rowKeys (List.forall_mem_map.mpr fun k hk => (h k hk).2) right.rows).bind
  intro rightKeys _
  dsimp only
  split
  · exact ok _
  · exact (Batch.spares_check _ _).bind fun _ _ => ok _

theorem spares_scanTable (batchSize : Nat) (source : String) (declared : RelationSchema)
    (table : Relation) : Spares kind (scanTable batchSize source declared table) := by
  have hcolumns : ∀ {s : Schema} (rows : Batch s) (fields : Schema) (index : Nat),
      Spares kind (scanColumns rows index fields) := by
    intro s rows fields
    induction fields with
    | nil => exact fun _ => ok _
    | cons f rest ih =>
        intro index
        rw [scanColumns]
        apply Spares.bind ?_ fun _ _ => (ih _).bind fun _ _ => ok _
        unfold scanColumn
        split
        · exact Column.spares_cast _ _
        · exact ok _
  cases declared with
  | none => exact ok _
  | some fields =>
      apply (mapM fun rows _ => ?_).bind fun _ _ => ok _
      exact (hcolumns rows fields 0).bind fun rows _ => rows.spares_check _

theorem spares_filterSlice {predicate : Expr} (h : predicate.SparedIn kind b) (rows : Batch s) :
    Spares kind (filterSlice predicate b rows) := by
  apply h.spares_compile.bind
  intro e _
  apply (e.2.spares_eval rows).bind
  intro mask _
  exact (mask.spares_expect _ rfl).bind fun _ _ => ok _

theorem spares_projectSlice (columns : List (OutputColumn s)) (rows : Batch s) :
    Spares kind (projectSlice columns rows) := by
  have hcolumns : ∀ (columns : List (OutputColumn s)) (index : Nat),
      Spares kind (projectColumns rows index columns) := by
    intro columns
    induction columns with
    | nil => exact fun _ => ok _
    | cons c rest ih =>
        intro index
        rw [projectColumns]
        apply (c.value.2.spares_eval rows).bind
        intro column _
        apply (ih (index + 1)).bind
        intro others _
        split <;> exact ok _
  apply (hcolumns columns 0).bind
  intro projected _
  exact (mapError fun _ => rfl).bind fun rows _ => rows.spares_check _

theorem Catalog.spares_write (c : Catalog) (target : String) (r : Relation) :
    Spares kind (c.write target r) := by
  have hcells : ∀ {s : Schema} (rows : Batch s), ∀ column ∈ rows.cellColumns, ∀ x ∈ column,
      Spares kind x := by
    intro s rows column hcolumn x hx
    obtain ⟨i, -, rfl⟩ := List.mem_map.mp hcolumn
    obtain ⟨entry, -, rfl⟩ := List.mem_map.mp hx
    exact Cell.spares_read entry
  apply Spares.bind ?_ fun _ _ => ok _
  apply (mapM fun rows _ => ?_).bind fun _ _ => ok _
  apply (mapM fun column hcolumn => ?_).bind fun _ _ => ok _
  exact (mapM (hcells rows column hcolumn)).bind fun cells _ => Cell.spares_build _ cells

theorem Catalog.spares_get (c : Catalog) (name : String) : Spares kind (c.get name) := by
  unfold Catalog.get
  split
  · exact ok _
  · exact error rfl

end Operators

end RelScript
