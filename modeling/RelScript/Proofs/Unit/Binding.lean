import RelScript.Proofs.Outcome
import RelScript.Proofs.Plan.Substitution
import RelScript.Proofs.Unit.Registry

/-!
Binding of scalar references as substitution. A definition can be bound if and only if its scalar
references select fields and it uses no relation as a tuple; what binding gives is the definition
with the placeholders of the final registry in it.
-/

namespace RelScript

namespace Compilation

variable {compiled : List (String × CompiledAlias)}

/-- The position and the type of the field that a scalar reference selects. -/
def field? (compiled : List (String × CompiledAlias)) (aliasName : String)
    (field : FieldSelector) : Option (Nat × DataType) :=
  (compiled.lookup aliasName).bind fun x => (field.resolve aliasName x.schema).toOption

/-- The placeholders that stand for scalar references, with the numbers of a registry. -/
def placeholding (compiled : List (String × CompiledAlias)) (r : Registry) : Placeholding :=
  fun aliasName field =>
    let (index, type) := (field? compiled aliasName field).getD (0, .binary)
    ⟨r.idOf aliasName, aliasName, index, type, !type.isUntyped⟩

/-- Scalar references that all select a field. -/
def Selects (compiled : List (String × CompiledAlias)) (refs : List (String × FieldSelector)) :
    Prop :=
  ∀ ref ∈ refs, (field? compiled ref.1 ref.2).isSome

/-- A binding step that treats scalar references `refs`, can be taken if `ok`, and gives what
`result` makes of the placeholders. -/
structure Binds {α : Type} (compiled : List (String × CompiledAlias))
    (step : StateT Registry Outcome α) (refs : List (String × FieldSelector)) (ok : Prop)
    (result : Placeholding → α) : Prop where
  sound : ∀ {r r' : Registry} {a : α}, r.Describes compiled → step r = .ok (a, r') →
    ok ∧ Selects compiled refs ∧ (∀ ref ∈ refs, ∃ id, r'.Holds ref.1 id) ∧
      r'.Describes compiled ∧ r.Extends r' ∧
      ∀ u : Registry, u.Describes compiled → r'.Extends u → a = result (placeholding compiled u)
  complete : ∀ {r : Registry}, ok → Selects compiled refs → r.Describes compiled →
    ∃ a r', step r = .ok (a, r')

namespace Binds

variable {α β : Type}

theorem pure (a : α) : Binds compiled (Pure.pure a) [] True fun _ => a where
  sound := by
    intro r r' b hr h
    cases h
    exact ⟨trivial, by simp [Selects], by simp, hr, Registry.Extends.refl r, fun _ _ _ => rfl⟩
  complete := fun _ _ _ => ⟨_, _, rfl⟩

theorem throw (e : Error) (refs : List (String × FieldSelector)) (result : Placeholding → α) :
    Binds compiled (MonadExcept.throw e) refs False result where
  sound := by
    intro r r' b hr h
    cases h
  complete := False.elim

theorem bind {step : StateT Registry Outcome α} {next : α → StateT Registry Outcome β}
    {refs refs' : List (String × FieldSelector)} {ok ok' : Prop} {f : Placeholding → α}
    {g : α → Placeholding → β} (hstep : Binds compiled step refs ok f)
    (hnext : ∀ a, Binds compiled (next a) refs' ok' (g a)) :
    Binds compiled (step >>= next) (refs ++ refs') (ok ∧ ok') fun v => g (f v) v where
  sound := by
    intro r r'' b hr h
    obtain ⟨a, r', ha, hb⟩ := stateBind_eq_ok.mp h
    obtain ⟨hok, hsel, hreg, hr', hext, hres⟩ := hstep.sound hr ha
    obtain ⟨hok', hsel', hreg', hr'', hext', hres'⟩ := (hnext a).sound hr' hb
    refine ⟨⟨hok, hok'⟩, ?_, ?_, hr'', hext.trans hext', ?_⟩
    · intro ref href
      exact (List.mem_append.mp href).elim (hsel ref) (hsel' ref)
    · intro ref href
      rcases List.mem_append.mp href with href | href
      · exact (hreg ref href).imp fun _ hid => hid.extend hext'
      · exact hreg' ref href
    · intro u hu hru
      rw [hres' u hu hru, ← hres u hu (hext'.trans hru)]
  complete := by
    intro r hok hsel hr
    obtain ⟨a, r', ha⟩ := hstep.complete hok.1
      (fun ref href => hsel ref (List.mem_append_left _ href)) hr
    obtain ⟨-, -, -, hr', -⟩ := hstep.sound hr ha
    obtain ⟨b, r'', hb⟩ := (hnext a).complete hok.2
      (fun ref href => hsel ref (List.mem_append_right _ href)) hr'
    exact ⟨b, r'', stateBind_eq_ok.mpr ⟨a, r', ha, hb⟩⟩

theorem congr {step : StateT Registry Outcome α} {refs refs' : List (String × FieldSelector)}
    {ok ok' : Prop} {f g : Placeholding → α} (h : Binds compiled step refs ok f)
    (hrefs : ∀ ref, ref ∈ refs ↔ ref ∈ refs') (hok : ok ↔ ok') (hfg : ∀ v, f v = g v) :
    Binds compiled step refs' ok' g where
  sound := by
    intro r r' a hr ha
    obtain ⟨h1, h2, h3, h4, h5, h6⟩ := h.sound hr ha
    exact ⟨hok.mp h1, fun ref href => h2 ref ((hrefs ref).mpr href),
      fun ref href => h3 ref ((hrefs ref).mpr href), h4, h5,
      fun u hu hru => (h6 u hu hru).trans (hfg _)⟩
  complete := fun h1 h2 hr =>
    h.complete (hok.mpr h1) (fun ref href => h2 ref ((hrefs ref).mp href)) hr

theorem map {step : StateT Registry Outcome α} {refs : List (String × FieldSelector)} {ok : Prop}
    {f : Placeholding → α} (h : Binds compiled step refs ok f) (g : α → β) :
    Binds compiled (step >>= fun a => Pure.pure (g a)) refs ok fun v => g (f v) :=
  (h.bind fun a => pure (g a)).congr (by simp) (by simp) fun _ => rfl

theorem map₂ {γ : Type} {step : StateT Registry Outcome α} {step' : StateT Registry Outcome β}
    {refs refs' : List (String × FieldSelector)} {ok ok' : Prop} {f : Placeholding → α}
    {f' : Placeholding → β} (h : Binds compiled step refs ok f)
    (h' : Binds compiled step' refs' ok' f') (g : α → β → γ) :
    Binds compiled (step >>= fun a => step' >>= fun b => Pure.pure (g a b)) (refs ++ refs')
      (ok ∧ ok') fun v => g (f v) (f' v) :=
  h.bind fun a => h'.map (g a)

end Binds

theorem find_eq_ok {aliasName : String} {x : CompiledAlias} :
    find compiled aliasName = .ok x ↔ compiled.lookup aliasName = some x := by
  unfold find
  cases compiled.lookup aliasName <;> simp

theorem relationScope_eq_ok {script : Script} {a : String} {q : Plan} {schema : RelationSchema} :
    (relationScope script compiled).compiled a = .ok q ∧
        (relationScope script compiled).schema a = .ok schema ↔
      ∃ x, compiled.lookup a = some x ∧ x.plan = q ∧ x.schema = schema := by
  constructor
  · rintro ⟨hq, hschema⟩
    obtain ⟨x, hx, rfl⟩ := map_eq_ok.mp hq
    obtain ⟨y, hy, rfl⟩ := map_eq_ok.mp hschema
    cases hx.symm.trans hy
    exact ⟨x, find_eq_ok.mp hx, rfl, rfl⟩
  · rintro ⟨x, hx, rfl, rfl⟩
    have hfind := find_eq_ok.mpr hx
    exact ⟨map_eq_ok.mpr ⟨x, hfind, rfl⟩, map_eq_ok.mpr ⟨x, hfind, rfl⟩⟩

variable (consumer : String)

theorem placeholding_of_holds {u : Registry} (hu : u.Describes compiled) {aliasName : String}
    {id : SideInputId} (hid : u.Holds aliasName id) {field : FieldSelector} {index : Nat}
    {type : DataType} (hfield : field? compiled aliasName field = some (index, type)) :
    placeholding compiled u aliasName field =
      ⟨id, aliasName, index, type, !type.isUntyped⟩ := by
  simp only [placeholding, hfield, Option.getD_some, hu.idOf_eq hid]

theorem scalarScope_schema (aliasName : String) :
    (scalarScope compiled consumer).schema aliasName =
      (find compiled aliasName).map (·.schema) := rfl

theorem placeholder_run {aliasName : String} {field : FieldSelector} {x : CompiledAlias}
    {index : Nat} {type : DataType} (hx : compiled.lookup aliasName = some x)
    (hfield : field.resolve aliasName x.schema = .ok (index, type)) (r : Registry) :
    (scalarScope compiled consumer).placeholder aliasName field r =
      .ok (⟨(r.register aliasName x.plan x.schema).1, aliasName, index, type, !type.isUntyped⟩,
        (r.register aliasName x.plan x.schema).2.addConsumer
          (r.register aliasName x.plan x.schema).1 consumer) := by
  have hfind := find_eq_ok.mpr hx
  have hschema : (scalarScope compiled consumer).schema aliasName = .ok x.schema := by
    rw [scalarScope_schema, hfind, Except.map]
  have hid : (scalarScope compiled consumer).sideInput aliasName r =
      .ok ((r.register aliasName x.plan x.schema).1,
        (r.register aliasName x.plan x.schema).2.addConsumer
          (r.register aliasName x.plan x.schema).1 consumer) :=
    stateBind_lift_of_ok hfind _ r
  rw [ScalarScope.placeholder, stateBind_lift_of_ok hschema, stateBind_lift_of_ok hfield]
  exact stateBind_eq_ok.mpr ⟨_, _, hid, rfl⟩

theorem field?_of_placeholder {aliasName : String} {field : FieldSelector} {r r' : Registry}
    {p : Placeholder}
    (h : (scalarScope compiled consumer).placeholder aliasName field r = .ok (p, r')) :
    ∃ x index type, compiled.lookup aliasName = some x ∧
      field.resolve aliasName x.schema = .ok (index, type) := by
  unfold ScalarScope.placeholder at h
  obtain ⟨schema, _, hschema, h⟩ := stateBind_eq_ok.mp h
  obtain ⟨⟨index, type⟩, _, hfield, h⟩ := stateBind_eq_ok.mp h
  cases hx : compiled.lookup aliasName with
  | none =>
      have hlift : (scalarScope compiled consumer).schema aliasName =
          .error (.planning (.unknownAlias aliasName)) := by
        rw [scalarScope_schema, find, hx, Except.map]
      rw [hlift] at hschema
      cases hschema
  | some x =>
      have hlift : (scalarScope compiled consumer).schema aliasName = .ok x.schema := by
        rw [scalarScope_schema, find, hx, Except.map]
      rw [hlift] at hschema
      cases hschema
      cases hr : field.resolve aliasName x.schema with
      | error e =>
          rw [hr] at hfield
          cases hfield
      | ok found => exact ⟨x, found.1, found.2, rfl, hr⟩

theorem field?_eq_some {aliasName : String} {field : FieldSelector} {found : Nat × DataType} :
    field? compiled aliasName field = some found ↔
      ∃ x, compiled.lookup aliasName = some x ∧ field.resolve aliasName x.schema = .ok found := by
  rw [field?, Option.bind_eq_some_iff]
  simp only [toOption_eq_some]

theorem binds_placeholder (aliasName : String) (field : FieldSelector) :
    Binds compiled ((scalarScope compiled consumer).placeholder aliasName field)
      [(aliasName, field)] True fun v => v aliasName field where
  sound := by
    intro r r' p hr h
    obtain ⟨x, index, type, hx, hfield⟩ := field?_of_placeholder consumer h
    rw [placeholder_run consumer hx hfield] at h
    cases h
    have hfound := field?_eq_some.mpr ⟨x, hx, hfield⟩
    obtain ⟨hr', hext, hholds⟩ := hr.register hx (Prod.mk.eta).symm
    have hext' := Registry.extends_addConsumer (r.register aliasName x.plan x.schema).1 consumer
      (r.register aliasName x.plan x.schema).2
    refine ⟨trivial, ?_, ?_, hr'.addConsumer _ _, hext.trans hext', fun u hu hru => ?_⟩
    · intro ref href
      rw [List.mem_singleton.mp href, hfound]
      rfl
    · intro ref href
      rw [List.mem_singleton.mp href]
      exact ⟨_, hholds.extend hext'⟩
    · exact (placeholding_of_holds hu ((hholds.extend hext').extend hru) hfound).symm
  complete := by
    intro r _ hsel hr
    obtain ⟨found, hfound⟩ := Option.isSome_iff_exists.mp (hsel _ (List.mem_singleton.mpr rfl))
    obtain ⟨x, hx, hfield⟩ := field?_eq_some.mp hfound
    exact ⟨_, _, placeholder_run consumer hx hfield r⟩

/-- An expression with its placeholders, and the side inputs that it reads. -/
def boundExpr (value : Placeholding) (e : Expr) : Expr × List SideInputId :=
  (e.substitute value, (e.substitute value).placeholders.map (·.sideInput))

theorem binds_bindAll {α : Type} {step : α → StateT Registry Outcome (α × List SideInputId)}
    {refs : α → List (String × FieldSelector)} {ok : α → Prop}
    {result : Placeholding → α → α × List SideInputId} {items : List α}
    (hstep : ∀ a ∈ items, Binds compiled (step a) (refs a) (ok a) fun v => result v a) :
    Binds compiled (ScalarScope.bindAll step items) (items.flatMap refs) (∀ a ∈ items, ok a)
      fun v => (items.map fun a => (result v a).1, items.flatMap fun a => (result v a).2) := by
  induction items with
  | nil => exact (Binds.pure _).congr (fun _ => Iff.rfl) (by simp) fun _ => rfl
  | cons a items ih =>
      rw [ScalarScope.bindAll]
      refine ((hstep a List.mem_cons_self).map₂
        (ih fun b hb => hstep b (List.mem_cons_of_mem _ hb))
        fun a rest => (a.1 :: rest.1, a.2 ++ rest.2)).congr ?_ ?_ ?_
      · simp
      · simp
      · intro v
        simp

variable (compiled)

theorem binds_bindExpr {e : Expr} (he : e.placeholders = []) :
    Binds compiled ((scalarScope compiled consumer).bindExpr e) e.scalarRefs (e.relationRefs = [])
      fun v => boundExpr v e := by
  induction e with
  | binary l op r ihl ihr =>
      rw [Expr.placeholders_binary, List.append_eq_nil_iff] at he
      rw [ScalarScope.bindExpr]
      refine ((ihl he.1).map₂ (ihr he.2) fun l r =>
        (Expr.binary l.1 op r.1, l.2 ++ r.2)).congr ?_ ?_ ?_
      · simp
      · simp
      · intro v
        simp [boundExpr, Expr.substitute, Expr.mapLeaves]
  | junction j l r ihl ihr =>
      rw [Expr.placeholders_junction, List.append_eq_nil_iff] at he
      rw [ScalarScope.bindExpr]
      refine ((ihl he.1).map₂ (ihr he.2) fun l r =>
        (Expr.junction j l.1 r.1, l.2 ++ r.2)).congr ?_ ?_ ?_
      · simp
      · simp
      · intro v
        simp [boundExpr, Expr.substitute, Expr.mapLeaves]
  | cast e t ih =>
      rw [Expr.placeholders_cast] at he
      rw [ScalarScope.bindExpr]
      refine ((ih he).map fun e => (Expr.cast e.1 t, e.2)).congr ?_ ?_ ?_
      · simp
      · simp
      · intro v
        simp [boundExpr, Expr.substitute, Expr.mapLeaves]
  | not e ih =>
      rw [Expr.placeholders_not] at he
      rw [ScalarScope.bindExpr]
      refine ((ih he).map fun e => (Expr.not e.1, e.2)).congr ?_ ?_ ?_
      · simp
      · simp
      · intro v
        simp [boundExpr, Expr.substitute, Expr.mapLeaves]
  | scalarRef aliasName field =>
      rw [ScalarScope.bindExpr]
      exact ((binds_placeholder consumer aliasName field).map fun p =>
        (Expr.placeholder p, [p.sideInput])).congr (fun _ => Iff.rfl) (by
          simp [Expr.relationRefs, Expr.parts, List.filterMap_cons, Expr.relationRef?])
          fun _ => rfl
  | relationRef aliasName =>
      rw [ScalarScope.bindExpr]
      exact (Binds.throw _ _ _).congr (fun _ => Iff.rfl)
        (by simp [Expr.relationRefs, Expr.parts, Expr.relationRef?]) fun _ => rfl
  | placeholder p => cases he
  | _ =>
      exact (Binds.pure _).congr (fun _ => Iff.rfl)
        (by simp [Expr.relationRefs, Expr.parts, Expr.relationRef?]) fun _ => rfl

theorem binds_bindColumn {c : Named Expr} (hc : c.value.placeholders = []) :
    Binds compiled ((scalarScope compiled consumer).bindColumn c) c.value.scalarRefs
      (c.value.relationRefs = [])
      fun v => (⟨(boundExpr v c.value).1, c.name⟩, (boundExpr v c.value).2) :=
  (binds_bindExpr compiled consumer hc).map fun e => (Named.mk e.1 c.name, e.2)

theorem binds_bindAggregate {a : Named Aggregate} (ha : a.value.arg.placeholders = []) :
    Binds compiled ((scalarScope compiled consumer).bindAggregate a) a.value.arg.scalarRefs
      (a.value.arg.relationRefs = [])
      fun v => (⟨⟨a.value.fn, (boundExpr v a.value.arg).1⟩, a.name⟩, (boundExpr v a.value.arg).2) :=
  (binds_bindExpr compiled consumer ha).map fun e =>
    (Named.mk (Aggregate.mk a.value.fn e.1) a.name, e.2)

theorem binds_bindKeys {k : Expr × Expr} (hl : k.1.placeholders = [])
    (hr : k.2.placeholders = []) :
    Binds compiled ((scalarScope compiled consumer).bindKeys k) (k.1.scalarRefs ++ k.2.scalarRefs)
      (k.1.relationRefs = [] ∧ k.2.relationRefs = [])
      fun v => (((boundExpr v k.1).1, (boundExpr v k.2).1),
        (boundExpr v k.1).2 ++ (boundExpr v k.2).2) :=
  (binds_bindExpr compiled consumer hl).map₂ (binds_bindExpr compiled consumer hr) fun l r =>
    ((l.1, r.1), l.2 ++ r.2)

/-- A plan none of whose expressions uses a relation as a tuple. -/
def NoRelationRefs (p : Plan) : Prop := ∀ e ∈ p.allExprs, e.relationRefs = []

theorem noRelationRefs_iff {p : Plan} :
    NoRelationRefs p ↔
      (∀ e ∈ p.exprs, e.relationRefs = []) ∧ ∀ c ∈ p.children, NoRelationRefs c := by
  unfold NoRelationRefs
  rw [Plan.allExprs_eq, List.forall_mem_append]
  simp only [List.mem_flatMap, forall_exists_index, and_imp]
  exact and_congr_right fun _ => ⟨fun h c hc e he => h e c hc he, fun h e c hc he => h c hc e he⟩

theorem noRelationRefs_join_iff {left right : Plan} {on : List (Expr × Expr)} :
    NoRelationRefs (.join left right on) ↔ NoRelationRefs left ∧ NoRelationRefs right ∧
      ∀ k ∈ on, k.1.relationRefs = [] ∧ k.2.relationRefs = [] := by
  rw [noRelationRefs_iff, Plan.exprs_join]
  simp only [Plan.children, List.forall_mem_flatMap, List.forall_mem_cons, List.not_mem_nil,
    false_implies, implies_true, and_true]
  rw [and_comm, and_assoc]

/-- A node over one input is bound after its input; `next` binds what the node itself holds. -/
theorem binds_node {p input : Plan} {bind : StateT Registry Outcome Plan}
    {next : Plan → StateT Registry Outcome Plan} {result : Plan → Placeholding → Plan}
    (hinput : p.children = [input])
    (h : Binds compiled bind input.scalarRefs (NoRelationRefs input) fun v => input.substitute v)
    (hnext : ∀ i, Binds compiled (next i) (p.exprs.flatMap Expr.scalarRefs)
      (∀ e ∈ p.exprs, e.relationRefs = []) (result i))
    (hresult : ∀ v, result (input.substitute v) v = p.substitute v) :
    Binds compiled (bind >>= next) p.scalarRefs (NoRelationRefs p) fun v => p.substitute v := by
  refine (h.bind hnext).congr (fun ref => ?_) ?_ hresult
  · rw [Plan.scalarRefs_eq p, hinput, List.flatMap_singleton, List.mem_append, List.mem_append,
      or_comm]
  · rw [noRelationRefs_iff (p := p), hinput, List.forall_mem_singleton, and_comm]

theorem binds_bindPlan {p : Plan} (hp : p.IsScripted) :
    Binds compiled ((scalarScope compiled consumer).bindPlan p) p.scalarRefs (NoRelationRefs p)
      fun v => p.substitute v := by
  induction p with
  | load | relation =>
      exact (Binds.pure _).congr (fun _ => Iff.rfl)
        (by simp [NoRelationRefs, Plan.allExprs, Plan.nodes, Plan.exprs]) fun _ => rfl
  | project columns input ih =>
      have hcolumns := binds_bindAll fun c hc => binds_bindColumn compiled consumer
        (hp.own (List.mem_map_of_mem hc : Named.value c ∈ (Plan.project columns input).exprs))
      refine binds_node compiled rfl (ih (hp.child (List.mem_singleton.mpr rfl))) (fun i =>
        (hcolumns.map fun cs => ScalarScope.wrap (.project cs.1 i) cs.2).congr ?_ ?_
          fun _ => rfl) fun v => congrArg (ScalarScope.wrap _) ?_
      · simp [Plan.exprs, List.flatMap_map]
      · simp [Plan.exprs]
      · simp [Plan.reads, Plan.exprs, List.flatMap_map, List.map_flatMap, boundExpr]
  | filter predicate input ih =>
      have hpredicate := binds_bindExpr compiled consumer (hp.own (List.mem_singleton.mpr rfl))
      refine binds_node compiled rfl (ih (hp.child (List.mem_singleton.mpr rfl))) (fun i =>
        (hpredicate.map fun e => ScalarScope.wrap (.filter e.1 i) e.2).congr ?_ ?_
          fun _ => rfl) fun v => congrArg (ScalarScope.wrap _) ?_
      · simp [Plan.exprs]
      · simp [Plan.exprs]
      · simp [Plan.reads, Plan.exprs, boundExpr]
  | split branch predicate input ih =>
      have hpredicate := binds_bindExpr compiled consumer (hp.own (List.mem_singleton.mpr rfl))
      refine binds_node compiled rfl (ih (hp.child (List.mem_singleton.mpr rfl))) (fun i =>
        (hpredicate.map fun e => ScalarScope.wrap (.split branch e.1 i) e.2).congr ?_ ?_
          fun _ => rfl) fun v => congrArg (ScalarScope.wrap _) ?_
      · simp [Plan.exprs]
      · simp [Plan.exprs]
      · simp [Plan.reads, Plan.exprs, boundExpr]
  | aggregate keys aggregates input ih =>
      have hkeys := binds_bindAll fun k hk => binds_bindExpr compiled consumer
        (hp.own (List.mem_append_left _ hk : k ∈ (Plan.aggregate keys aggregates input).exprs))
      have hmeasures := binds_bindAll fun a ha => binds_bindAggregate compiled consumer
        (hp.own (List.mem_append_right _ (List.mem_map_of_mem ha) :
          a.value.arg ∈ (Plan.aggregate keys aggregates input).exprs))
      refine binds_node compiled rfl (ih (hp.child (List.mem_singleton.mpr rfl))) (fun i =>
        (hkeys.map₂ hmeasures fun ks as =>
          ScalarScope.wrap (.aggregate ks.1 as.1 i) (ks.2 ++ as.2)).congr ?_ ?_
          fun _ => rfl) fun v => congrArg (ScalarScope.wrap _) ?_
      · simp [Plan.exprs, List.flatMap_append, List.flatMap_map]
      · simp only [Plan.exprs, List.forall_mem_append, List.forall_mem_map]
      · simp [Plan.reads, Plan.exprs, List.flatMap_map, List.map_flatMap, boundExpr]
  | join left right on ihl ihr =>
      have hon := binds_bindAll fun k hk => binds_bindKeys compiled consumer
        (hp.own (Plan.mem_exprs_join hk).1) (hp.own (Plan.mem_exprs_join hk).2)
      refine ((ihl (hp.child List.mem_cons_self)).bind fun left =>
        (ihr (hp.child (List.mem_cons_of_mem _ List.mem_cons_self))).map₂ hon fun right ks =>
          ScalarScope.wrap (.join left right ks.1) ks.2).congr ?_ ?_ ?_
      -- Inputs are bound before the keys and listed after them, which makes no difference.
      · intro ref
        rw [Plan.scalarRefs_eq (.join left right on), Plan.exprs_join]
        simp only [Plan.children, List.flatMap_assoc, List.flatMap_cons, List.flatMap_nil,
          List.append_nil, List.mem_append]
        tauto
      · exact noRelationRefs_join_iff.symm
      · intro v
        refine congrArg (ScalarScope.wrap _) ?_
        rw [Plan.reads, Plan.exprs_join]
        simp [List.flatMap_map, List.map_flatMap, List.flatMap_assoc, boundExpr]
  | limit count input ih =>
      exact binds_node compiled rfl (ih (hp.child (List.mem_singleton.mpr rfl)))
        (fun i => (Binds.pure (Plan.limit count i)).congr (fun _ => Iff.rfl) (by simp [Plan.exprs])
          fun _ => rfl) fun _ => rfl
  | store target input ih =>
      exact binds_node compiled rfl (ih (hp.child (List.mem_singleton.mpr rfl)))
        (fun i => (Binds.pure (Plan.store target i)).congr (fun _ => Iff.rfl) (by simp [Plan.exprs])
          fun _ => rfl) fun _ => rfl
  | sideInputs ids input ih =>
      exact absurd rfl (hp.2 _ (by rw [Plan.nodes]; exact List.mem_cons_self) ids input)

end Compilation

end RelScript
