import RelScript.Execution.UnitRun
import RelScript.Proofs.Execution.Alike
import RelScript.Proofs.Outcome
import RelScript.Proofs.Plan.Substitution

/-!
Plans whose side inputs are numbered in another way. If the slots of two runs hold the same for
every placeholder and for what becomes of it, a plan and its renumbered form give alike results.
-/

namespace RelScript

theorem lookup_filter_of_ne {α β : Type} [DecidableEq α] {key other : α} (h : key ≠ other)
    (entries : List (α × β)) : (entries.filter (·.1 ≠ other)).lookup key = entries.lookup key := by
  induction entries with
  | nil => rfl
  | cons head rest ih =>
      obtain ⟨k, y⟩ := head
      rw [List.filter_cons]
      split
      · rw [List.lookup_cons, List.lookup_cons, ih]
      · rename_i hk
        have hother : k = other := by simpa using hk
        rw [ih, List.lookup_cons, hother, beq_false_of_ne h]

theorem ScalarBindings.lookup_bind (b : ScalarBindings) (id id' : SideInputId)
    (x : ScalarBinding) :
    (b.bind id x).lookup id' = if id' = id then some x else b.lookup id' := by
  rw [bind, List.lookup_cons]
  by_cases hid : id' = id
  · simp [hid]
  · rw [if_neg hid, beq_false_of_ne hid]
    exact lookup_filter_of_ne hid b

namespace RunContext

/-- What a reader of a side input gets. -/
def read (ctx : RunContext) (id : SideInputId) : Outcome ScalarBinding :=
  match ctx.slot? id with
  | none => .error (.execution (.noSlot id))
  | some slot => resolve slot

theorem bindSideInputs_cons (ctx : RunContext) (id : SideInputId) (rest : List SideInputId)
    (b : ScalarBindings) :
    ctx.bindSideInputs (id :: rest) b =
      (ctx.read id >>= fun x => ctx.bindSideInputs rest (b.bind id x)) := by
  rw [bindSideInputs, read]
  cases ctx.slot? id <;> rfl

/-- The bindings hold what the slot of the side input does. -/
def Offers (ctx : RunContext) (b : ScalarBindings) (id : SideInputId) : Prop :=
  ∃ x, ctx.read id = .ok x ∧ b.lookup id = some x

theorem offers_of_bindSideInputs {ctx : RunContext} {ids : List SideInputId}
    {b b' : ScalarBindings} (h : ctx.bindSideInputs ids b = .ok b') {id : SideInputId}
    (hid : id ∈ ids ∨ ctx.Offers b id) : ctx.Offers b' id := by
  induction ids generalizing b with
  | nil =>
      cases h
      exact hid.resolve_left List.not_mem_nil
  | cons first rest ih =>
      rw [bindSideInputs_cons] at h
      obtain ⟨x, hx, h⟩ := bind_eq_ok.mp h
      apply ih h
      by_cases hfirst : id = first
      · subst hfirst
        exact Or.inr ⟨x, hx, by rw [ScalarBindings.lookup_bind, if_pos rfl]⟩
      · rcases hid with hid | ⟨y, hy, hlookup⟩
        · exact Or.inl ((List.mem_cons.mp hid).resolve_left hfirst)
        · exact Or.inr ⟨y, hy, by rw [ScalarBindings.lookup_bind, if_neg hfirst, hlookup]⟩

theorem exists_bindSideInputs {ctx : RunContext} {ids : List SideInputId}
    (h : ∀ id ∈ ids, ∃ x, ctx.read id = .ok x) (b : ScalarBindings) :
    ∃ b', ctx.bindSideInputs ids b = .ok b' := by
  induction ids generalizing b with
  | nil => exact ⟨b, rfl⟩
  | cons id rest ih =>
      obtain ⟨x, hx⟩ := h id List.mem_cons_self
      obtain ⟨b', hb'⟩ := ih (fun k hk => h k (List.mem_cons_of_mem _ hk)) (b.bind id x)
      exact ⟨b', by rw [bindSideInputs_cons, hx]; exact hb'⟩

theorem exists_bindSideInputs_iff {ctx : RunContext} {ids : List SideInputId}
    {b : ScalarBindings} :
    (∃ b', ctx.bindSideInputs ids b = .ok b') ↔ ∀ id ∈ ids, ∃ x, ctx.read id = .ok x := by
  constructor
  · rintro ⟨b', hb'⟩ id hid
    obtain ⟨x, hx, -⟩ := offers_of_bindSideInputs hb' (Or.inl hid)
    exact ⟨x, hx⟩
  · exact fun h => exists_bindSideInputs h b

end RunContext

section Renumbering

variable {ids : String → SideInputId} {ctx ctx' : RunContext} {b b' : ScalarBindings}

/-- The bindings hold the same for the placeholders and for what becomes of them. -/
def Matches (ids : String → SideInputId) (b b' : ScalarBindings) (ps : List Placeholder) : Prop :=
  ∀ p ∈ ps, b'.lookup (ids p.aliasName) = b.lookup p.sideInput

/-- The slots of two runs hold the same for the placeholders and for what becomes of them. -/
def SlotsMatch (ids : String → SideInputId) (ctx ctx' : RunContext) (ps : List Placeholder) :
    Prop :=
  ∀ p ∈ ps, Alike Eq (ctx.read p.sideInput) (ctx'.read (ids p.aliasName))

theorem SlotsMatch.bindSideInputs {ps : List Placeholder} (h : SlotsMatch ids ctx ctx' ps)
    {used used' : List SideInputId} (hused : ∀ id, id ∈ used ↔ id ∈ ps.map (·.sideInput))
    (hused' : ∀ id, id ∈ used' ↔ id ∈ ps.map fun p => ids p.aliasName) (b b' : ScalarBindings) :
    Alike (fun b b' => Matches ids b b' ps) (ctx.bindSideInputs used b)
      (ctx'.bindSideInputs used' b') := by
  have hreads : (∀ id ∈ used, ∃ x, ctx.read id = .ok x) ↔
      ∀ id ∈ used', ∃ x, ctx'.read id = .ok x := by
    simp only [hused, hused', List.forall_mem_map]
    exact forall₂_congr fun p hp => (h p hp).exists_ok_iff
  refine .of_ok_iff ?_ fun bound bound' hb hb' p hp => ?_
  · rw [RunContext.exists_bindSideInputs_iff, RunContext.exists_bindSideInputs_iff, hreads]
  · obtain ⟨x, hx, hlookup⟩ := RunContext.offers_of_bindSideInputs hb
      (Or.inl ((hused _).mpr (List.mem_map_of_mem hp)))
    obtain ⟨y, hy, hlookup'⟩ := RunContext.offers_of_bindSideInputs hb'
      (Or.inl ((hused' _).mpr (List.mem_map_of_mem hp)))
    have hxy : Alike Eq (.ok x) (.ok y) := hx ▸ hy ▸ h p hp
    rw [hlookup, hlookup', show x = y from hxy]

theorem Expr.compile_reassign {e : Expr} (h : Matches ids b b' e.placeholders) (s : Schema) :
    Alike Eq (e.compile s b) ((e.reassign ids).compile s b') := by
  induction e with
  | binary l op r ihl ihr =>
      rw [Expr.placeholders_binary] at h
      refine (ihl fun p hp => h p (List.mem_append_left _ hp)).bind_eq fun l => ?_
      refine (ihr fun p hp => h p (List.mem_append_right _ hp)).bind_eq fun r => ?_
      exact Alike.refl _
  | junction j l r ihl ihr =>
      rw [Expr.placeholders_junction] at h
      refine (ihl fun p hp => h p (List.mem_append_left _ hp)).bind_eq fun l => ?_
      refine (ihr fun p hp => h p (List.mem_append_right _ hp)).bind_eq fun r => ?_
      exact Alike.refl _
  | cast e t ih =>
      rw [Expr.placeholders_cast] at h
      exact (ih h).bind_eq fun e => Alike.refl _
  | not e ih =>
      rw [Expr.placeholders_not] at h
      exact (ih h).bind_eq fun e => Alike.refl _
  | placeholder p =>
      have hlookup : b'.lookup (p.reassign ids).sideInput = b.lookup p.sideInput :=
        h p (List.mem_singleton.mpr rfl)
      show Alike Eq _ ((Expr.placeholder (p.reassign ids)).compile s b')
      rw [compile, compile, hlookup]
      cases b.lookup p.sideInput with
      | none => trivial
      | some x => exact (Alike.refl (p.value x)).bind_eq fun _ => Alike.refl _
  | _ => exact Alike.refl _

theorem filterSlice_alike {predicate : Expr} (h : Matches ids b b' predicate.placeholders)
    {s : Schema} (rows : Batch s) :
    Alike Eq (filterSlice predicate b rows) (filterSlice (predicate.reassign ids) b' rows) :=
  (Expr.compile_reassign h s).bind_eq fun _ => Alike.refl _

theorem compileOutputs_alike {columns : List (Named Expr)}
    (h : ∀ c ∈ columns, Matches ids b b' c.value.placeholders) (s : Schema) :
    Alike Eq (columns.mapM (compileOutput s b))
      ((columns.map fun c => ⟨c.value.reassign ids, c.name⟩).mapM (compileOutput s b')) := by
  rw [List.mapM_map]
  exact Alike.mapM_eq fun c hc =>
    (Expr.compile_reassign (h c hc) s).bind_eq fun _ => Alike.refl _

theorem rowKeys_alike {keys : List Expr} (h : ∀ k ∈ keys, Matches ids b b' k.placeholders)
    {s : Schema} (rows : Batch s) :
    Alike Eq (rowKeys b keys rows) (rowKeys b' (keys.map (·.reassign ids)) rows) := by
  unfold rowKeys
  rw [List.mapM_map]
  refine (Alike.mapM_eq fun k hk => ?_).bind_eq fun columns => Alike.refl _
  exact (Expr.compile_reassign (h k hk) s).bind_eq fun e => Alike.refl _

theorem joinRelations_alike {on : List (Expr × Expr)}
    (h : ∀ k ∈ on, Matches ids b b' k.1.placeholders ∧ Matches ids b b' k.2.placeholders)
    (left right : Relation) :
    Alike Eq (joinRelations left right on b)
      (joinRelations left right (on.map fun k => (k.1.reassign ids, k.2.reassign ids)) b') := by
  have hkeys : ∀ k ∈ on.map (·.1), Matches ids b b' k.placeholders :=
    List.forall_mem_map.mpr fun k hk => (h k hk).1
  have hothers : ∀ k ∈ on.map (·.2), Matches ids b b' k.placeholders :=
    List.forall_mem_map.mpr fun k hk => (h k hk).2
  have hleft := rowKeys_alike hkeys left.rows
  have hright := rowKeys_alike hothers right.rows
  rw [List.map_map] at hleft hright
  unfold joinRelations
  rw [List.map_map, List.map_map]
  exact hleft.bind_eq fun _ => hright.bind_eq fun _ => Alike.refl _

theorem keyColumns_eq {s : Schema} (keys : List (Expr × AnyCompiled s)) (groups : List Group) :
    keyColumns keys groups = (keys.map fun k => (k.1.groupName, k.2)).zipIdx.map fun k =>
      (⟨k.1.1, k.1.2.2.declared, true⟩, groups.map fun g => g.key[k.2]?.getD .missing) := by
  rw [keyColumns, List.zipIdx_map, List.map_map]
  rfl

theorem aggregateRelation_alike {keys : List Expr} {aggregates : List (Named Aggregate)}
    (hkeys : ∀ k ∈ keys, Matches ids b b' k.placeholders)
    (haggregates : ∀ a ∈ aggregates, Matches ids b b' a.value.arg.placeholders)
    (input : Relation) :
    Alike Eq (aggregateRelation input keys aggregates b)
      (aggregateRelation input (keys.map (·.reassign ids))
        (aggregates.map fun a => ⟨⟨a.value.fn, a.value.arg.reassign ids⟩, a.name⟩) b') := by
  unfold aggregateRelation
  rw [List.mapM_map, List.mapM_map]
  refine Alike.bind (R := List.Forall₂ fun (x y : Expr × AnyCompiled input.schema) =>
    (x.1.groupName, x.2) = (y.1.groupName, y.2)) (Alike.mapM fun k hk => ?_) fun ks ks' hks => ?_
  · refine (Expr.compile_reassign (hkeys k hk) input.schema).bind ?_
    rintro e _ rfl
    show (k.groupName, e) = ((k.reassign ids).groupName, e)
    rw [Expr.groupName_reassign]
  · have hnamed : ks.map (fun k => (k.1.groupName, k.2)) =
        ks'.map fun k => (k.1.groupName, k.2) := by
      rw [← List.forall₂_eq_eq_eq, List.forall₂_map_left_iff, List.forall₂_map_right_iff]
      exact hks
    have hcompiled : ks.map (·.2) = ks'.map (·.2) := by
      have h := congrArg (List.map (·.2)) hnamed
      rwa [List.map_map, List.map_map] at h
    refine (Alike.mapM_eq fun a ha => ?_).bind_eq fun measures => ?_
    · exact (Expr.compile_reassign (haggregates a ha) input.schema).bind_eq fun _ => Alike.refl _
    · simp only [keyColumns_eq, hnamed, hcompiled]
      exact Alike.refl _

variable {c c' : Catalog}

theorem runParts_alike {α β : Type} (hparallelism : ctx'.parallelism = ctx.parallelism)
    {step step' : List α → Outcome (List β)} (h : ∀ rows, Alike Eq (step rows) (step' rows))
    (b b' : ScalarBindings) (batches : List (List α)) :
    Run.Alike c c' Eq (runParts ctx b step batches) (runParts ctx' b' step' batches) := by
  intro w w' hw hw'
  obtain ⟨v, hrun, hv⟩ := Run.run_runParts ctx b step batches w
  obtain ⟨v', hrun', hv'⟩ := Run.run_runParts ctx' b' step' batches w'
  rw [hrun, hrun', hv, hv', hparallelism]
  exact ⟨Alike.mapM_eq fun rows _ => h rows, hw, hw'⟩

/-- Operator trees that give alike results whatever is bound around them. -/
def ExecutesAlike (c c' : Catalog) (ctx ctx' : RunContext) (o o' : Operator) : Prop :=
  ∀ b b', Run.Alike c c' Eq (o.execute ctx b) (o'.execute ctx' b')

theorem executesAlike_listed {n n' : Plan} {size size' : Nat} {o o' : Operator}
    (ho : n.listed.lower size = .ok o) (ho' : n'.listed.lower size' = .ok o')
    (hexprs : n'.exprs = n.exprs.map (·.reassign ids))
    (hslots : SlotsMatch ids ctx ctx' (n.exprs.flatMap Expr.placeholders))
    (hnode : ∀ i i', n.lower size = .ok i → n'.lower size' = .ok i' → ∀ b b',
      (∀ e ∈ n.exprs, Matches ids b b' e.placeholders) →
        Run.Alike c c' Eq (i.execute ctx b) (i'.execute ctx' b')) :
    ExecutesAlike c c' ctx ctx' o o' := by
  have hreads : n'.reads =
      (n.exprs.flatMap Expr.placeholders).map fun p => ids p.aliasName := by
    rw [Plan.reads, hexprs, List.flatMap_map, List.map_flatMap, List.map_flatMap]
    refine List.flatMap_congr fun e _ => ?_
    rw [Expr.placeholders_reassign, List.map_map]
    rfl
  intro b b'
  -- Both nodes have a list, of the same side inputs under two numberings, or neither has one.
  rcases Plan.wrap_cases n n.reads with ⟨hnil, hw⟩ | ⟨hne, hw⟩
  · have hnone : n.exprs.flatMap Expr.placeholders = [] := List.map_eq_nil_iff.mp hnil
    have hw' : n'.listed = n' := by rw [Plan.listed, hreads, hnone]; rfl
    rw [Plan.listed, hw] at ho
    rw [hw'] at ho'
    refine hnode o o' ho ho' b b' fun e he p hp => ?_
    rw [List.flatMap_eq_nil_iff.mp hnone e he] at hp
    cases hp
  · have hw' : n'.listed = .sideInputs (ascending n'.reads) n' := by
      rcases Plan.wrap_cases n' n'.reads with ⟨hnil, -⟩ | ⟨-, hw'⟩
      · rw [hreads, List.map_eq_nil_iff] at hnil
        exact absurd (List.map_eq_nil_iff.mpr hnil) hne
      · exact hw'
    rw [Plan.listed, hw] at ho
    rw [hw'] at ho'
    obtain ⟨i, hi, ho⟩ := bind_eq_ok.mp ho
    obtain ⟨i', hi', ho'⟩ := bind_eq_ok.mp ho'
    cases ho
    cases ho'
    refine (Run.Alike.ofOutcome (hslots.bindSideInputs (Plan.lists_ascending _).2 (fun id => ?_)
      b b')).bind fun bound bound' hbound => ?_
    · rw [(Plan.lists_ascending _).2, hreads]
    · refine (hnode i i' hi hi' bound bound' fun e he p hp => ?_).bind_eq fun r =>
        Run.Alike.finish rfl
      exact hbound p (List.mem_flatMap.mpr ⟨e, he, hp⟩)

theorem SlotsMatch.subset {ps qs : List Placeholder} (h : SlotsMatch ids ctx ctx' qs)
    (hsub : ps ⊆ qs) : SlotsMatch ids ctx ctx' ps :=
  fun p hp => h p (hsub hp)

theorem Plan.own_placeholders_subset (q : Plan) :
    q.exprs.flatMap Expr.placeholders ⊆ q.placeholders := by
  rw [placeholders, allExprs_eq, List.flatMap_append]
  exact List.subset_append_left _ _

theorem Plan.placeholders_subset_of_child {q child : Plan} (h : child ∈ q.children) :
    child.placeholders ⊆ q.placeholders := by
  rw [placeholders, placeholders, allExprs_eq q, List.flatMap_append, List.flatMap_assoc]
  intro p hp
  exact List.mem_append_right _ (List.mem_flatMap.mpr ⟨child, h, hp⟩)

/-- Two runs in which a plan that stores nothing meets the same tables and the same scalars. -/
structure Plan.MeetsSame (ids : String → SideInputId) (c c' : Catalog) (ctx ctx' : RunContext)
    (q : Plan) : Prop where
  batchSize : ctx'.batchSize = ctx.batchSize
  parallelism : ctx'.parallelism = ctx.parallelism
  slots : SlotsMatch ids ctx ctx' q.placeholders
  loads : ∀ source schema, Access.load source schema ∈ q.accesses → c'.get source = c.get source
  storesNothing : ∀ target, Access.store target ∉ q.accesses

theorem Plan.MeetsSame.child {q child : Plan} (h : q.MeetsSame ids c c' ctx ctx')
    (hchild : child ∈ q.children) : child.MeetsSame ids c c' ctx ctx' where
  batchSize := h.batchSize
  parallelism := h.parallelism
  slots := h.slots.subset (placeholders_subset_of_child hchild)
  loads := fun source schema hload => h.loads source schema (accesses_subset_of_child hchild hload)
  storesNothing := fun target hstore =>
    h.storesNothing target (accesses_subset_of_child hchild hstore)

theorem Plan.MeetsSame.own {q : Plan} (h : q.MeetsSame ids c c' ctx ctx') :
    SlotsMatch ids ctx ctx' (q.exprs.flatMap Expr.placeholders) :=
  h.slots.subset q.own_placeholders_subset

section Nodes

variable {i i' : Operator}

theorem executesAlike_scan {source : String} {schema : RelationSchema}
    (hbatch : ctx'.batchSize = ctx.batchSize) (hload : c'.get source = c.get source)
    (size size' : Nat) :
    ExecutesAlike c c' ctx ctx' (.scan source schema size) (.scan source schema size') := by
  intro b b'
  refine Run.Alike.bind (R := fun w w' => w.catalog = c ∧ w'.catalog = c')
    (fun w w' hw hw' => ⟨⟨hw, hw'⟩, hw, hw'⟩) fun w w' hcatalogs => ?_
  rw [hcatalogs.1, hcatalogs.2, hload, hbatch]
  refine (Run.Alike.ofOutcome (Alike.refl _)).bind_eq fun table => ?_
  refine (Run.Alike.ofOutcome (Alike.refl _)).bind_eq fun r => ?_
  exact Run.Alike.finish rfl

theorem filter_alike {predicate : Expr} (hparallelism : ctx'.parallelism = ctx.parallelism)
    (h : ExecutesAlike c c' ctx ctx' i i') (hmatch : Matches ids b b' predicate.placeholders) :
    Run.Alike c c' Eq ((Operator.filter predicate i).execute ctx b)
      ((Operator.filter (predicate.reassign ids) i').execute ctx' b') := by
  refine (h b b').bind_eq fun child => ?_
  refine (runParts_alike hparallelism (filterSlice_alike hmatch) b b' _).bind_eq fun batches => ?_
  exact Run.Alike.finish rfl

theorem project_alike {columns : List (Named Expr)}
    (hparallelism : ctx'.parallelism = ctx.parallelism) (h : ExecutesAlike c c' ctx ctx' i i')
    (hmatch : ∀ col ∈ columns, Matches ids b b' col.value.placeholders) :
    Run.Alike c c' Eq ((Operator.project columns i).execute ctx b)
      ((Operator.project (columns.map fun col => ⟨col.value.reassign ids, col.name⟩) i').execute
        ctx' b') := by
  refine (h b b').bind_eq fun child => ?_
  refine (Run.Alike.ofOutcome (compileOutputs_alike hmatch child.schema)).bind_eq
    fun compiled => ?_
  refine (runParts_alike hparallelism (fun _ => Alike.refl _) b b' _).bind_eq fun batches => ?_
  exact Run.Alike.finish rfl

theorem hashAggregate_alike {keys : List Expr} {aggregates : List (Named Aggregate)}
    (h : ExecutesAlike c c' ctx ctx' i i') (hkeys : ∀ k ∈ keys, Matches ids b b' k.placeholders)
    (haggregates : ∀ a ∈ aggregates, Matches ids b b' a.value.arg.placeholders) :
    Run.Alike c c' Eq ((Operator.hashAggregate keys aggregates i).execute ctx b)
      ((Operator.hashAggregate (keys.map (·.reassign ids))
        (aggregates.map fun a => ⟨⟨a.value.fn, a.value.arg.reassign ids⟩, a.name⟩) i').execute
          ctx' b') := by
  refine (h b b').bind_eq fun child => ?_
  refine (Run.Alike.ofOutcome (aggregateRelation_alike hkeys haggregates child)).bind_eq
    fun r => ?_
  exact Run.Alike.finish rfl

theorem hashJoin_alike {j j' : Operator} {on : List (Expr × Expr)}
    (hi : ExecutesAlike c c' ctx ctx' i i') (hj : ExecutesAlike c c' ctx ctx' j j')
    (hmatch : ∀ k ∈ on, Matches ids b b' k.1.placeholders ∧ Matches ids b b' k.2.placeholders) :
    Run.Alike c c' Eq ((Operator.hashJoin i j on).execute ctx b)
      ((Operator.hashJoin i' j' (on.map fun k => (k.1.reassign ids, k.2.reassign ids))).execute
        ctx' b') := by
  refine (hi b b').bind_eq fun left => (hj b b').bind_eq fun right => ?_
  refine (Run.Alike.ofOutcome (joinRelations_alike hmatch left right)).bind_eq fun r => ?_
  exact Run.Alike.finish rfl

end Nodes

theorem executesAlike_over {n n' p p' : Plan} {size size' : Nat} {o o' : Operator}
    {f f' : Operator → Operator} (hn : n.lower size = p.lower size >>= fun i => .ok (f i))
    (hn' : n'.lower size' = p'.lower size' >>= fun i => .ok (f' i))
    (ho : n.listed.lower size = .ok o) (ho' : n'.listed.lower size' = .ok o')
    (hexprs : n'.exprs = n.exprs.map (·.reassign ids))
    (hslots : SlotsMatch ids ctx ctx' (n.exprs.flatMap Expr.placeholders))
    (hinput : ∀ i i', p.lower size = .ok i → p'.lower size' = .ok i' →
      ExecutesAlike c c' ctx ctx' i i')
    (hnode : ∀ i i' b b', ExecutesAlike c c' ctx ctx' i i' →
      (∀ e ∈ n.exprs, Matches ids b b' e.placeholders) →
        Run.Alike c c' Eq ((f i).execute ctx b) ((f' i').execute ctx' b')) :
    ExecutesAlike c c' ctx ctx' o o' := by
  refine executesAlike_listed ho ho' hexprs hslots fun m m' hm hm' b b' hmatch => ?_
  rw [hn] at hm
  rw [hn'] at hm'
  obtain ⟨i, hi, hm⟩ := bind_eq_ok.mp hm
  obtain ⟨i', hi', hm'⟩ := bind_eq_ok.mp hm'
  cases hm
  cases hm'
  exact hnode i i' b b' (hinput i i' hi hi') hmatch

/-- A plan and its renumbered form give alike results, where they meet the same. -/
theorem Plan.MeetsSame.executesAlike {q : Plan} (h : q.MeetsSame ids c c' ctx ctx')
    {size size' : Nat} {o o' : Operator} (ho : q.relist.lower size = .ok o)
    (ho' : (q.reassign ids).lower size' = .ok o') : ExecutesAlike c c' ctx ctx' o o' := by
  induction q generalizing o o' with
  | load source schema =>
      cases ho
      cases ho'
      exact executesAlike_scan h.batchSize (h.loads source schema (List.mem_singleton.mpr rfl)) _ _
  | relation aliasName => cases ho
  | project columns input ih =>
      refine executesAlike_over rfl rfl ho ho'
        (exprs_mapExprs (·.reassign ids) (project columns input)) h.own
        (fun i i' => ih (h.child (List.mem_singleton.mpr rfl))) fun i i' b b' hinput hmatch => ?_
      exact project_alike h.parallelism hinput fun col hcol => hmatch _ (List.mem_map_of_mem hcol)
  | filter predicate input ih =>
      refine executesAlike_over rfl rfl ho ho'
        (exprs_mapExprs (·.reassign ids) (filter predicate input)) h.own
        (fun i i' => ih (h.child (List.mem_singleton.mpr rfl))) fun i i' b b' hinput hmatch => ?_
      exact filter_alike h.parallelism hinput (hmatch _ (List.mem_singleton.mpr rfl))
  | split branch predicate input ih =>
      refine executesAlike_over rfl rfl ho ho'
        (exprs_mapExprs (·.reassign ids) (split branch predicate input)) h.own
        (fun i i' => ih (h.child (List.mem_singleton.mpr rfl))) fun i i' b b' hinput hmatch => ?_
      exact filter_alike h.parallelism hinput (hmatch _ (List.mem_singleton.mpr rfl))
  | aggregate keys aggregates input ih =>
      refine executesAlike_over rfl rfl ho ho'
        (exprs_mapExprs (·.reassign ids) (aggregate keys aggregates input)) h.own
        (fun i i' => ih (h.child (List.mem_singleton.mpr rfl))) fun i i' b b' hinput hmatch => ?_
      exact hashAggregate_alike hinput (fun k hk => hmatch k (List.mem_append_left _ hk))
        fun a ha => hmatch _ (List.mem_append_right _ (List.mem_map_of_mem ha))
  | join left right on ihl ihr =>
      refine executesAlike_listed ho ho' (exprs_mapExprs (·.reassign ids) (join left right on))
        h.own fun n n' hn hn' b b' hmatch => ?_
      obtain ⟨l, hl, hn⟩ := bind_eq_ok.mp hn
      obtain ⟨r, hr, hn⟩ := bind_eq_ok.mp hn
      obtain ⟨l', hl', hn'⟩ := bind_eq_ok.mp hn'
      obtain ⟨r', hr', hn'⟩ := bind_eq_ok.mp hn'
      cases hn
      cases hn'
      have hleft := ihl (h.child List.mem_cons_self) hl hl'
      have hright := ihr (h.child (List.mem_cons_of_mem _ List.mem_cons_self)) hr hr'
      exact hashJoin_alike hleft hright fun k hk =>
        ⟨hmatch k.1 (mem_exprs_join hk).1, hmatch k.2 (mem_exprs_join hk).2⟩
  | limit count input ih =>
      -- A limit holds no expressions, so there is never a list over it.
      obtain ⟨i, hi, ho⟩ := bind_eq_ok.mp ho
      obtain ⟨i', hi', ho'⟩ := bind_eq_ok.mp ho'
      cases ho
      cases ho'
      have hinput := ih (h.child (List.mem_singleton.mpr rfl)) hi hi'
      exact fun b b' => (hinput b b').bind_eq fun r => Run.Alike.finish rfl
  | store target input ih => exact absurd (List.mem_cons_self) (h.storesNothing target)
  | sideInputs used input ih => exact ih (h.child (List.mem_singleton.mpr rfl)) ho ho'

end Renumbering

end RelScript
