import RelScript.Proofs.Script.ScalarBinding
import RelScript.Proofs.Unit.Binding

/-!
What binding asks of its scope. A binding step is described by the references that it asks
placeholders for, one after another, and by whether it can go on with them. For a plan these are all
of its scalar references, those of its inputs first; so this says when a plan can be bound, and
which aliases are asked for side inputs.
-/

namespace RelScript

namespace FieldSelector

/-- Whether a relation has the field. Of an undeclared relation every position can be asked. -/
def ResolvesIn : FieldSelector → RelationSchema → Prop
  | name n, some fields => ∃ f ∈ fields, f.name = n
  | name _, none => False
  | position p, some fields => p < fields.length
  | position _, none => True

theorem exists_resolve_eq_ok_iff (aliasName : String) (field : FieldSelector)
    (schema : RelationSchema) :
    (∃ found, field.resolve aliasName schema = .ok found) ↔ field.ResolvesIn schema := by
  cases field with
  | name n =>
      cases schema with
      | none => simp [resolve, ResolvesIn]
      | some fields =>
          have hname : (∃ f ∈ fields, f.name = n) ↔ (Schema.indexOf? fields n).isSome := by
            simp [Schema.indexOf?]
          rw [ResolvesIn, hname]
          cases hindex : Schema.indexOf? fields n <;> simp [resolve, hindex]
  | position p =>
      cases schema with
      | none => simp [resolve, ResolvesIn]
      | some fields =>
          have htype : p < fields.length ↔ (RelationSchema.fieldType? (some fields) p).isSome := by
            simp [RelationSchema.fieldType?]
          rw [ResolvesIn, htype]
          cases hfound : RelationSchema.fieldType? (some fields) p <;> simp [resolve, hfound]

end FieldSelector

namespace Plan

/-- The scalar references of a plan, those of the inputs of a node before its own. -/
def visitedRefs : Plan → List (String × FieldSelector)
  | load _ _ | relation _ => []
  | project columns input =>
    input.visitedRefs ++ (project columns input).exprs.flatMap Expr.scalarRefs
  | filter predicate input =>
    input.visitedRefs ++ (filter predicate input).exprs.flatMap Expr.scalarRefs
  | split branch predicate input =>
    input.visitedRefs ++ (split branch predicate input).exprs.flatMap Expr.scalarRefs
  | aggregate keys aggregates input =>
    input.visitedRefs ++ (aggregate keys aggregates input).exprs.flatMap Expr.scalarRefs
  | join left right on =>
    left.visitedRefs ++ (right.visitedRefs ++
      (join left right on).exprs.flatMap Expr.scalarRefs)
  | limit _ input | store _ input | sideInputs _ input => input.visitedRefs

/-- Every reference is visited as often as it stands in the plan. -/
theorem perm_visitedRefs (p : Plan) : p.visitedRefs.Perm p.scalarRefs := by
  induction p with
  | load | relation => exact List.Perm.refl _
  | join left right on ihl ihr =>
      rw [scalarRefs_eq, visitedRefs, ← List.append_assoc]
      refine List.perm_append_comm.trans ?_
      simpa [children] using (ihl.append ihr).append_left _
  | limit count input ih | store target input ih | sideInputs ids input ih =>
      rw [scalarRefs_eq, visitedRefs]
      simpa [children, exprs] using ih
  | _ =>
      rename_i ih
      rw [scalarRefs_eq, visitedRefs]
      refine List.perm_append_comm.trans ?_
      simpa [children] using ih.append_left _

theorem mem_visitedRefs {p : Plan} {r : String × FieldSelector} :
    r ∈ p.visitedRefs ↔ r ∈ p.scalarRefs := p.perm_visitedRefs.mem_iff

theorem mem_scalarAliases {p : Plan} {a : String} :
    a ∈ p.scalarAliases ↔ a ∈ p.scalarRefs.map (·.1) := by
  have halias : Expr.scalarAlias? = fun x => (Expr.scalarRef? x).map (·.1) := by
    funext x
    cases x <;> rfl
  simp only [scalarAliases, List.mem_eraseDups, scalarRefs, allExprs, Expr.scalarRefs, halias,
    List.map_flatMap, List.map_filterMap]

end Plan

namespace ScalarScope

variable {σ : Type}

/-- Whether an alias has a schema, and the field is one of that schema. -/
def Finds (scope : ScalarScope σ) (r : String × FieldSelector) : Prop :=
  ∃ schema, scope.schema r.1 = .ok schema ∧ r.2.ResolvesIn schema

/-- Whether the aliases have side inputs, when they are asked for one after another. -/
def Supplies (scope : ScalarScope σ) (aliases : List String) (s : σ) : Prop :=
  ∃ ids s', aliases.mapM scope.sideInput s = .ok (ids, s')

/-- Whether an alias that has a side input has one in every state. -/
def Steady (scope : ScalarScope σ) : Prop :=
  ∀ a s t, (∃ found, scope.sideInput a s = .ok found) → ∃ found, scope.sideInput a t = .ok found

/-- The scope that also notes the aliases that it is asked for side inputs of, in order. -/
def recording (scope : ScalarScope σ) : ScalarScope (σ × List String) where
  schema := scope.schema
  sideInput a := fun (s, asked) => (scope.sideInput a s).map fun (id, s') => (id, s', asked ++ [a])

/-- The placeholders of scalar references, taken one after another. -/
def placeholders (scope : ScalarScope σ) (refs : List (String × FieldSelector)) :
    StateT σ Outcome (List Placeholder) :=
  refs.mapM fun r => scope.placeholder r.1 r.2

section Placeholders

variable {scope : ScalarScope σ}

theorem placeholder_eq_ok {a : String} {field : FieldSelector} {s s' : σ} {p : Placeholder} :
    scope.placeholder a field s = .ok (p, s') ↔
      ∃ schema index type id, scope.schema a = .ok schema ∧
        field.resolve a schema = .ok (index, type) ∧ scope.sideInput a s = .ok (id, s') ∧
          p = ⟨id, a, index, type, !type.isUntyped⟩ := by
  constructor
  · intro h
    obtain ⟨schema, hschema, h⟩ := stateBind_lift_eq_ok.mp h
    obtain ⟨⟨index, type⟩, hfield, h⟩ := stateBind_lift_eq_ok.mp h
    obtain ⟨id, _, hid, hp⟩ := stateBind_eq_ok.mp h
    obtain ⟨rfl, rfl⟩ := Prod.mk.inj (Except.ok.inj hp)
    exact ⟨schema, index, type, id, hschema, hfield, hid, rfl⟩
  · rintro ⟨schema, index, type, id, hschema, hfield, hid, rfl⟩
    rw [placeholder, stateBind_lift_of_ok hschema, stateBind_lift_of_ok hfield]
    exact stateBind_eq_ok.mpr ⟨_, _, hid, rfl⟩

theorem placeholders_cons_eq_ok {r : String × FieldSelector} {refs : List (String × FieldSelector)}
    {s s' : σ} {ps : List Placeholder} :
    scope.placeholders (r :: refs) s = .ok (ps, s') ↔
      ∃ p t rest, scope.placeholder r.1 r.2 s = .ok (p, t) ∧
        scope.placeholders refs t = .ok (rest, s') ∧ ps = p :: rest := by
  rw [placeholders, List.mapM_cons]
  constructor
  · intro h
    obtain ⟨p, t, hp, h⟩ := stateBind_eq_ok.mp h
    obtain ⟨rest, t', hrest, h⟩ := stateBind_eq_ok.mp h
    cases h
    exact ⟨p, t, rest, hp, hrest, rfl⟩
  · rintro ⟨p, t, rest, hp, hrest, rfl⟩
    exact stateBind_eq_ok.mpr ⟨p, t, hp, stateBind_eq_ok.mpr ⟨rest, s', hrest, rfl⟩⟩

theorem placeholders_append_eq_ok {refs refs' : List (String × FieldSelector)} {s s' : σ}
    {ps : List Placeholder} :
    scope.placeholders (refs ++ refs') s = .ok (ps, s') ↔
      ∃ qs t qs', scope.placeholders refs s = .ok (qs, t) ∧
        scope.placeholders refs' t = .ok (qs', s') ∧ ps = qs ++ qs' := by
  rw [placeholders, List.mapM_append]
  constructor
  · intro h
    obtain ⟨qs, t, hqs, h⟩ := stateBind_eq_ok.mp h
    obtain ⟨qs', t', hqs', h⟩ := stateBind_eq_ok.mp h
    cases h
    exact ⟨qs, t, qs', hqs, hqs', rfl⟩
  · rintro ⟨qs, t, qs', hqs, hqs', rfl⟩
    exact stateBind_eq_ok.mpr ⟨qs, t, hqs, stateBind_eq_ok.mpr ⟨qs', s', hqs', rfl⟩⟩

theorem placeholders_nil_eq_ok {s s' : σ} {ps : List Placeholder} :
    scope.placeholders [] s = .ok (ps, s') ↔ ps = [] ∧ s' = s := by
  constructor
  · rintro ⟨⟩
    exact ⟨rfl, rfl⟩
  · rintro ⟨rfl, rfl⟩
    rfl

theorem length_placeholders {refs : List (String × FieldSelector)} {s s' : σ}
    {ps : List Placeholder} (h : scope.placeholders refs s = .ok (ps, s')) :
    ps.length = refs.length := by
  induction refs generalizing s ps with
  | nil => exact congrArg List.length (placeholders_nil_eq_ok.mp h).1
  | cons r refs ih =>
      obtain ⟨p, t, rest, -, hrest, rfl⟩ := placeholders_cons_eq_ok.mp h
      rw [List.length_cons, List.length_cons, ih hrest]

theorem exists_placeholders_iff {refs : List (String × FieldSelector)} {s : σ} :
    (∃ ps s', scope.placeholders refs s = .ok (ps, s')) ↔
      (∀ r ∈ refs, scope.Finds r) ∧ scope.Supplies (refs.map (·.1)) s := by
  induction refs generalizing s with
  | nil =>
      constructor
      · exact fun _ => ⟨by simp, [], s, rfl⟩
      · exact fun _ => ⟨[], s, rfl⟩
  | cons r refs ih =>
      rw [List.forall_mem_cons]
      constructor
      · rintro ⟨_, s', h⟩
        obtain ⟨p, t, rest, hp, hrest, -⟩ := placeholders_cons_eq_ok.mp h
        obtain ⟨schema, index, type, id, hschema, hfield, hid, -⟩ := placeholder_eq_ok.mp hp
        obtain ⟨hfinds, ids, t', hids⟩ := ih.mp ⟨rest, s', hrest⟩
        have hresolves := (r.2.exists_resolve_eq_ok_iff r.1 schema).mp ⟨_, hfield⟩
        refine ⟨⟨⟨schema, hschema, hresolves⟩, hfinds⟩, id :: ids, t', ?_⟩
        rw [List.map_cons, List.mapM_cons]
        exact stateBind_eq_ok.mpr ⟨id, t, hid, stateBind_eq_ok.mpr ⟨ids, t', hids, rfl⟩⟩
      · rintro ⟨⟨⟨schema, hschema, hresolves⟩, hfinds⟩, ids, s', h⟩
        obtain ⟨⟨index, type⟩, hfield⟩ := (r.2.exists_resolve_eq_ok_iff r.1 schema).mpr hresolves
        rw [List.map_cons, List.mapM_cons] at h
        obtain ⟨id, t, hid, h⟩ := stateBind_eq_ok.mp h
        obtain ⟨ids, t', hids, -⟩ := stateBind_eq_ok.mp h
        obtain ⟨ps, u, hps⟩ := ih.mpr ⟨hfinds, ids, t', hids⟩
        exact ⟨_, u, placeholders_cons_eq_ok.mpr
          ⟨_, t, ps, placeholder_eq_ok.mpr ⟨_, _, _, _, hschema, hfield, hid, rfl⟩, hps, rfl⟩⟩

theorem supplies_iff_of_steady (h : scope.Steady) {aliases : List String} {s : σ} :
    scope.Supplies aliases s ↔ ∀ a ∈ aliases, ∃ found, scope.sideInput a s = .ok found := by
  have hall : ∀ t, scope.Supplies aliases t ↔
      ∀ a ∈ aliases, ∃ found, scope.sideInput a s = .ok found := by
    induction aliases with
    | nil => exact fun t => iff_of_true ⟨[], t, rfl⟩ (by simp)
    | cons a rest ih =>
        intro t
        rw [List.forall_mem_cons]
        constructor
        · rintro ⟨ids, t', hids⟩
          rw [List.mapM_cons] at hids
          obtain ⟨id, u, hid, hids⟩ := stateBind_eq_ok.mp hids
          obtain ⟨ids, u', hids, -⟩ := stateBind_eq_ok.mp hids
          exact ⟨h a t s ⟨_, hid⟩, (ih u).mp ⟨ids, u', hids⟩⟩
        · rintro ⟨ha, hrest⟩
          obtain ⟨⟨id, u⟩, hid⟩ := h a s t ha
          obtain ⟨ids, u', hids⟩ := (ih u).mpr hrest
          refine ⟨id :: ids, u', ?_⟩
          rw [List.mapM_cons]
          exact stateBind_eq_ok.mpr ⟨id, u, hid, stateBind_eq_ok.mpr ⟨ids, u', hids, rfl⟩⟩
  exact hall s

theorem placeholder_recording {a : String} {field : FieldSelector} {s s' : σ} {p : Placeholder}
    (h : scope.placeholder a field s = .ok (p, s')) (asked : List String) :
    scope.recording.placeholder a field (s, asked) = .ok (p, s', asked ++ [a]) := by
  obtain ⟨schema, index, type, id, hschema, hfield, hid, rfl⟩ := placeholder_eq_ok.mp h
  refine placeholder_eq_ok.mpr ⟨schema, index, type, id, hschema, hfield, ?_, rfl⟩
  show (scope.sideInput a s).map _ = _
  rw [hid, Except.map]

theorem placeholders_recording {refs : List (String × FieldSelector)} {s s' : σ}
    {ps : List Placeholder} (h : scope.placeholders refs s = .ok (ps, s')) (asked : List String) :
    scope.recording.placeholders refs (s, asked) = .ok (ps, s', asked ++ refs.map (·.1)) := by
  induction refs generalizing s ps asked with
  | nil =>
      obtain ⟨rfl, rfl⟩ := placeholders_nil_eq_ok.mp h
      exact placeholders_nil_eq_ok.mpr ⟨rfl, by rw [List.map_nil, List.append_nil]⟩
  | cons r refs ih =>
      obtain ⟨p, t, rest, hp, hrest, rfl⟩ := placeholders_cons_eq_ok.mp h
      have hrest' := ih hrest (asked ++ [r.1])
      rw [List.append_assoc, List.singleton_append] at hrest'
      exact placeholders_cons_eq_ok.mpr
        ⟨p, (t, asked ++ [r.1]), rest, placeholder_recording hp asked, hrest', rfl⟩

end Placeholders

/-- A binding step, for scopes with any kind of state. -/
abbrev Step (α : Type) := (σ : Type) → ScalarScope σ → StateT σ Outcome α

/-- The step asks for the placeholders of `refs`, in order, succeeds if it gets them and `ok` holds,
and what it gives depends on them only. -/
def Asks {α : Type} (step : Step α) (refs : List (String × FieldSelector)) (ok : Prop) : Prop :=
  ∃ result : List Placeholder → α, ∀ (σ : Type) (scope : ScalarScope σ) (s s' : σ) (a : α),
    step σ scope s = .ok (a, s') ↔
      ok ∧ ∃ ps, scope.placeholders refs s = .ok (ps, s') ∧ result ps = a

namespace Asks

variable {α β γ : Type} {step : Step α} {refs refs' : List (String × FieldSelector)}
  {ok ok' : Prop}

theorem pure (a : α) : Asks (fun _ _ => Pure.pure a) [] True := by
  refine ⟨fun _ => a, fun σ scope s s' b => ?_⟩
  constructor
  · rintro ⟨⟩
    exact ⟨trivial, [], rfl, rfl⟩
  · rintro ⟨-, ps, hps, rfl⟩
    rw [(placeholders_nil_eq_ok.mp hps).2]
    rfl

theorem throw [Inhabited α] (e : Error) (refs : List (String × FieldSelector)) :
    Asks (fun σ _ => (MonadExcept.throw e : StateT σ Outcome α)) refs False := by
  refine ⟨fun _ => default, fun σ scope s s' a => ?_⟩
  constructor
  · rintro ⟨⟩
  · exact fun h => h.1.elim

theorem placeholder (a : String) (field : FieldSelector) :
    Asks (fun _ scope => scope.placeholder a field) [(a, field)] True := by
  refine ⟨fun ps => ps.headD ⟨0, "", 0, .binary, false⟩, fun σ scope s s' p => ?_⟩
  constructor
  · intro h
    exact ⟨trivial, [p], placeholders_cons_eq_ok.mpr ⟨p, s', [], h, rfl, rfl⟩, rfl⟩
  · rintro ⟨-, ps, hps, rfl⟩
    obtain ⟨p, t, rest, hp, hrest, rfl⟩ := placeholders_cons_eq_ok.mp hps
    rw [(placeholders_nil_eq_ok.mp hrest).2]
    exact hp

theorem bind {next : α → Step β} (h : Asks step refs ok) (hnext : ∀ a, Asks (next a) refs' ok') :
    Asks (fun σ scope => step σ scope >>= fun a => next a σ scope) (refs ++ refs') (ok ∧ ok') := by
  obtain ⟨result, hresult⟩ := h
  choose result' hresult' using hnext
  have hsplit : ∀ ps qs : List Placeholder, ps.length = refs.length →
      result' (result ((ps ++ qs).take refs.length)) ((ps ++ qs).drop refs.length) =
        result' (result ps) qs := by
    intro ps qs hlength
    rw [← hlength, List.take_left, List.drop_left]
  refine ⟨fun ps => result' (result (ps.take refs.length)) (ps.drop refs.length),
    fun σ scope s s'' b => ?_⟩
  rw [stateBind_eq_ok]
  constructor
  · rintro ⟨a, s', ha, hb⟩
    obtain ⟨hok, ps, hps, rfl⟩ := (hresult ..).mp ha
    obtain ⟨hok', qs, hqs, rfl⟩ := (hresult' ..).mp hb
    exact ⟨⟨hok, hok'⟩, ps ++ qs, placeholders_append_eq_ok.mpr ⟨ps, s', qs, hps, hqs, rfl⟩,
      hsplit ps qs (length_placeholders hps)⟩
  · rintro ⟨⟨hok, hok'⟩, _, h, rfl⟩
    obtain ⟨ps, s', qs, hps, hqs, rfl⟩ := placeholders_append_eq_ok.mp h
    exact ⟨result ps, s', (hresult ..).mpr ⟨hok, ps, hps, rfl⟩, (hresult' ..).mpr
      ⟨hok', qs, hqs, (hsplit ps qs (length_placeholders hps)).symm⟩⟩

theorem congr (h : Asks step refs ok) (hrefs : refs = refs') (hok : ok ↔ ok') :
    Asks step refs' ok' := by
  rwa [← hrefs, ← hok]

theorem map (h : Asks step refs ok) (g : α → β) :
    Asks (fun σ scope => step σ scope >>= fun a => Pure.pure (g a)) refs ok :=
  (h.bind fun a => pure (g a)).congr (List.append_nil refs) (and_iff_left trivial)

theorem map₂ {step' : Step β} (h : Asks step refs ok) (h' : Asks step' refs' ok')
    (g : α → β → γ) :
    Asks (fun σ scope => step σ scope >>= fun a => step' σ scope >>= fun b => Pure.pure (g a b))
      (refs ++ refs') (ok ∧ ok') :=
  h.bind fun a => h'.map (g a)

theorem exists_iff (h : Asks step refs ok) (scope : ScalarScope σ) (s : σ) :
    (∃ a s', step σ scope s = .ok (a, s')) ↔
      ok ∧ (∀ r ∈ refs, scope.Finds r) ∧ scope.Supplies (refs.map (·.1)) s := by
  obtain ⟨result, hresult⟩ := h
  rw [← exists_placeholders_iff]
  constructor
  · rintro ⟨a, s', ha⟩
    obtain ⟨hok, ps, hps, -⟩ := (hresult ..).mp ha
    exact ⟨hok, ps, s', hps⟩
  · rintro ⟨hok, ps, s', hps⟩
    exact ⟨result ps, s', (hresult ..).mpr ⟨hok, ps, hps, rfl⟩⟩

theorem recorded (h : Asks step refs ok) {scope : ScalarScope σ} {s s' : σ} {a : α}
    (ha : step σ scope s = .ok (a, s')) (asked : List String) :
    step (σ × List String) scope.recording (s, asked) =
      .ok (a, s', asked ++ refs.map (·.1)) := by
  obtain ⟨result, hresult⟩ := h
  obtain ⟨hok, ps, hps, rfl⟩ := (hresult ..).mp ha
  exact (hresult ..).mpr ⟨hok, ps, placeholders_recording hps asked, rfl⟩

end Asks

theorem asks_bindAll {α : Type} {step : α → Step (α × List SideInputId)}
    {refs : α → List (String × FieldSelector)} {ok : α → Prop} (items : List α)
    (hstep : ∀ a, Asks (step a) (refs a) (ok a)) :
    Asks (fun σ scope => bindAll (fun a => step a σ scope) items) (items.flatMap refs)
      (∀ a ∈ items, ok a) := by
  induction items with
  | nil => exact (Asks.pure _).congr rfl (by simp)
  | cons a items ih =>
      refine ((hstep a).map₂ ih fun a rest => (a.1 :: rest.1, a.2 ++ rest.2)).congr ?_ ?_
      · exact List.flatMap_cons.symm
      · exact List.forall_mem_cons.symm

theorem asks_bindExpr (e : Expr) :
    Asks (fun _ scope => scope.bindExpr e) e.scalarRefs (e.relationRefs = []) := by
  induction e with
  | scalarRef a field =>
      exact ((Asks.placeholder a field).map fun p => (Expr.placeholder p, [p.sideInput])).congr rfl
        (iff_of_true trivial rfl)
  | relationRef a =>
      have : Inhabited (Expr × List SideInputId) := ⟨(.relationRef a, [])⟩
      exact (Asks.throw _ _).congr rfl (iff_of_false id (List.cons_ne_nil _ _))
  | binary l op r ihl ihr =>
      exact (ihl.map₂ ihr fun l r => (Expr.binary l.1 op r.1, l.2 ++ r.2)).congr
        (Expr.scalarRefs_binary l r op).symm (by simp)
  | junction j l r ihl ihr =>
      exact (ihl.map₂ ihr fun l r => (Expr.junction j l.1 r.1, l.2 ++ r.2)).congr
        (Expr.scalarRefs_junction j l r).symm (by simp)
  | cast e t ih =>
      exact (ih.map fun e => (Expr.cast e.1 t, e.2)).congr (Expr.scalarRefs_cast e t).symm (by simp)
  | not e ih =>
      exact (ih.map fun e => (Expr.not e.1, e.2)).congr (Expr.scalarRefs_not e).symm (by simp)
  | _ => exact (Asks.pure _).congr rfl (iff_of_true trivial rfl)

theorem asks_bindColumn (c : Named Expr) :
    Asks (fun _ scope => scope.bindColumn c) c.value.scalarRefs (c.value.relationRefs = []) :=
  (asks_bindExpr c.value).map fun e => (Named.mk e.1 c.name, e.2)

theorem asks_bindAggregate (a : Named Aggregate) :
    Asks (fun _ scope => scope.bindAggregate a) a.value.arg.scalarRefs
      (a.value.arg.relationRefs = []) :=
  (asks_bindExpr a.value.arg).map fun e => (Named.mk (Aggregate.mk a.value.fn e.1) a.name, e.2)

theorem asks_bindKeys (k : Expr × Expr) :
    Asks (fun _ scope => scope.bindKeys k) (k.1.scalarRefs ++ k.2.scalarRefs)
      (k.1.relationRefs = [] ∧ k.2.relationRefs = []) :=
  (asks_bindExpr k.1).map₂ (asks_bindExpr k.2) fun l r => ((l.1, r.1), l.2 ++ r.2)

open Compilation (NoRelationRefs noRelationRefs_iff noRelationRefs_join_iff)

theorem asks_node {p input : Plan} {next : Plan → Step Plan} (hchild : p.children = [input])
    (hvisited : p.visitedRefs = input.visitedRefs ++ p.exprs.flatMap Expr.scalarRefs)
    (h : Asks (fun _ scope => scope.bindPlan input) input.visitedRefs (NoRelationRefs input))
    (hnext : ∀ i, Asks (next i) (p.exprs.flatMap Expr.scalarRefs)
      (∀ e ∈ p.exprs, e.relationRefs = [])) :
    Asks (fun σ scope => scope.bindPlan input >>= fun i => next i σ scope) p.visitedRefs
      (NoRelationRefs p) := by
  refine (h.bind hnext).congr hvisited.symm ?_
  rw [noRelationRefs_iff (p := p), hchild, List.forall_mem_singleton, and_comm]

theorem asks_bindPlan (p : Plan) :
    Asks (fun _ scope => scope.bindPlan p) p.visitedRefs (NoRelationRefs p) := by
  induction p with
  | load | relation =>
      refine (Asks.pure _).congr rfl ?_
      simp [NoRelationRefs, Plan.allExprs, Plan.nodes, Plan.exprs]
  | project columns input ih =>
      refine asks_node rfl rfl ih fun i => ((asks_bindAll columns asks_bindColumn).map fun cs =>
        wrap (.project cs.1 i) cs.2).congr ?_ ?_
      · simp [Plan.exprs, List.flatMap_map]
      · simp [Plan.exprs]
  | filter predicate input ih =>
      refine asks_node rfl rfl ih fun i => ((asks_bindExpr predicate).map fun e =>
        wrap (.filter e.1 i) e.2).congr ?_ ?_
      · simp [Plan.exprs]
      · simp [Plan.exprs]
  | split branch predicate input ih =>
      refine asks_node rfl rfl ih fun i => ((asks_bindExpr predicate).map fun e =>
        wrap (.split branch e.1 i) e.2).congr ?_ ?_
      · simp [Plan.exprs]
      · simp [Plan.exprs]
  | aggregate keys aggregates input ih =>
      refine asks_node rfl rfl ih fun i => ((asks_bindAll keys asks_bindExpr).map₂
        (asks_bindAll aggregates asks_bindAggregate) fun ks as =>
          wrap (.aggregate ks.1 as.1 i) (ks.2 ++ as.2)).congr ?_ ?_
      · simp [Plan.exprs, List.flatMap_map]
      · simp only [Plan.exprs, List.forall_mem_append, List.forall_mem_map]
  | join left right on ihl ihr =>
      refine (ihl.bind fun left => ihr.map₂ (asks_bindAll on asks_bindKeys) fun right ks =>
        wrap (.join left right ks.1) ks.2).congr ?_ ?_
      · rw [Plan.visitedRefs, Plan.exprs_join]
        simp only [List.flatMap_assoc, List.flatMap_cons, List.flatMap_nil, List.append_nil]
      · exact noRelationRefs_join_iff.symm
  | limit count input ih | store target input ih | sideInputs ids input ih =>
      refine asks_node rfl (List.append_nil _).symm ih fun i => (Asks.pure _).congr rfl ?_
      simp [Plan.exprs]

end ScalarScope

end RelScript
