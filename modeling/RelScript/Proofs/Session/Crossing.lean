import Mathlib
import RelScript.Proofs.Execution.Crossing
import RelScript.Proofs.Session.Opening
import RelScript.Proofs.Unit.Crossing

/-!
A scalar reference means a cross join with the single row: a query that reads the fields of a scalar
gives the rows that it gives over the join with the scalar, where it reads the columns of the
scalar.
-/

namespace RelScript

theorem Relation.tuples_congr {r r' : Relation} (h : r.contents = r'.contents) :
    r.tuples = r'.tuples := by
  obtain ⟨batches, rfl, hrows⟩ := exists_of_contents h
  have hsame : Relation.rows ⟨r.schema, batches⟩ = r.rows := hrows.symm
  rw [tuples, tuples, hsame]

theorem freezeRow_eq_ok {aliasName : String} {limit : Nat} {s : Schema} {row : Row s}
    (h : (freezeRow aliasName limit row).isOk = true) :
    freezeRow aliasName limit row = .ok row := by
  unfold freezeRow at h ⊢
  cases hcolumns : List.isEmpty s with
  | true =>
      rw [hcolumns] at h
      cases h
  | false =>
      rw [hcolumns] at h
      cases hsize : row.size with
      | error e =>
          rw [hsize] at h
          cases h
      | ok bytes =>
          rw [hsize] at h
          by_cases hlimit : limit < bytes
          · simp [hlimit, Except.isOk, Except.toBool] at h
          · simp [hlimit]

theorem offered_single {limit : Nat} {aliasName : String} {t : Schema} {row : Row t}
    (hfreeze : freezeRow aliasName limit row = .ok row) {r : Relation}
    (hr : r.contents = ⟨t, [row]⟩) : t ≠ [] ∧ offered limit (.ok r) = some (.row t row) := by
  obtain ⟨u, batches⟩ := r
  obtain ⟨rfl, hrows⟩ := TypedBatch.mk.injEq .. ▸ hr
  have hflatten : batches.flatten = [row] := eq_of_heq hrows
  unfold offered Slot.settled Slot.outcome
  dsimp only
  rw [hflatten]
  unfold freezeRow at hfreeze ⊢
  cases hcolumns : List.isEmpty u with
  | true =>
      rw [hcolumns] at hfreeze
      cases hfreeze
  | false =>
      refine ⟨by simpa using hcolumns, ?_⟩
      rw [hcolumns] at hfreeze
      cases hsize : row.size with
      | error e =>
          rw [hsize] at hfreeze
          cases hfreeze
      | ok bytes =>
          rw [hsize] at hfreeze
          by_cases hlimit : limit < bytes
          · simp [hlimit] at hfreeze
          · simp [Slot.create, hsize, hlimit, Except.map, SlotState.binding?]

theorem Relation.Meets.single {known t : Schema} {row : Row t} {r : Relation}
    (h : r.Meets (some known)) (hr : r.contents = ⟨t, [row]⟩) :
    known.Describes t ∧ row.isComplete = true := by
  obtain ⟨u, batches⟩ := r
  obtain ⟨rfl, hrows⟩ := TypedBatch.mk.injEq .. ▸ hr
  have hone : Relation.rows ⟨u, batches⟩ = [row] := eq_of_heq hrows
  obtain ⟨hdescribes, hcomplete⟩ := h known rfl
  exact ⟨hdescribes, hcomplete row (by rw [hone]; exact List.mem_singleton_self row)⟩

theorem Run.Alike.and_yields {α : Type} {c c' : Catalog} {P : α → Prop} {step step' : Run α}
    (h : Run.Alike c c' Eq step step') (hyields : Run.Yields P step) :
    Run.Alike c c' (fun r r' => r' = r ∧ P r) step step' := by
  intro w w' hw hw'
  obtain ⟨hresults, hafter⟩ := h w w' hw hw'
  refine ⟨?_, hafter⟩
  cases hstep : (step w).1 with
  | ok a =>
      rw [hstep] at hresults
      obtain ⟨b, hb, rfl⟩ := hresults.ok_left
      rw [hb]
      exact ⟨rfl, hyields w _ hstep⟩
  | error e =>
      rw [hstep] at hresults
      obtain ⟨f, hf⟩ := hresults.error_left
      rw [hf]
      trivial

theorem Run.Alike.finish_left {β : Type} {c c' : Catalog} {R : Relation → β → Prop}
    {step : Run Relation} {step' : Run β} (h : Run.Alike c c' R step step') (ctx : RunContext)
    (o : Operator) :
    Run.Alike c c' R (step >>= Operator.execute.finish ctx o) step' := by
  rw [← bind_pure step']
  refine h.bind fun r r' hr => ?_
  intro w w' hw hw'
  exact ⟨hr, hw, hw'⟩

theorem Plan.placeholders_subset_wrap (node : Plan) (used : List SideInputId) :
    node.placeholders ⊆ (ScalarScope.wrap node used).placeholders := by
  rcases wrap_cases node used with ⟨-, hwrap⟩ | ⟨-, hwrap⟩
  · rw [hwrap]
    exact List.Subset.refl _
  · rw [hwrap]
    exact placeholders_subset_of_child List.mem_cons_self

theorem alike_wrap {node : Plan} {used : List SideInputId} {size : Nat} {o : Operator}
    (hlisted : (ScalarScope.wrap node used).Listed [])
    (ho : (ScalarScope.wrap node used).lower size = .ok o)
    {x : ScalarBinding} {ctx : RunContext} (hbound : ∀ k ∈ node.reads, ctx.read k = .ok x)
    {c c' : Catalog} {R : Relation → Relation → Prop} {step : Run Relation}
    (h : ∀ i, node.lower size = .ok i → ∀ b, (∀ k ∈ node.reads, b.lookup k = some x) →
      Run.Alike c c' R (i.execute ctx b) step) :
    Run.Alike c c' R (o.execute ctx []) step := by
  rcases Plan.wrap_cases node used with ⟨-, hwrap⟩ | ⟨-, hwrap⟩
  · rw [hwrap] at hlisted ho
    have hnone : node.reads = [] := by
      refine List.eq_nil_iff_forall_not_mem.mpr fun k hk => ?_
      exact List.not_mem_nil ((hlisted.lists.2 k).mpr hk)
    exact h o ho [] (by rw [hnone]; exact List.forall_mem_nil _)
  · rw [hwrap] at hlisted ho
    obtain ⟨i, hi, ho⟩ := bind_eq_ok.mp ho
    cases ho
    obtain ⟨-, -, hlisted⟩ := hlisted
    have hmem : ∀ k, k ∈ ascending used ↔ k ∈ node.reads := hlisted.lists.2
    have hread : ∀ k ∈ ascending used, ctx.read k = .ok x :=
      fun k hk => hbound k ((hmem k).mp hk)
    obtain ⟨b, hb⟩ := RunContext.exists_bindSideInputs (fun k hk => ⟨x, hread k hk⟩) []
    have hoffers : ∀ k ∈ node.reads, b.lookup k = some x := by
      intro k hk
      obtain ⟨y, hy, hlookup⟩ := RunContext.offers_of_bindSideInputs hb (Or.inl ((hmem k).mpr hk))
      rw [hbound k hk] at hy
      cases hy
      exact hlookup
    rw [Operator.execute, hb]
    exact (h i hi b hoffers).finish_left ctx _

namespace Session

variable {s : Session}

/-- A relation `a`, a scalar `c` of one row, and two queries: `x` reads columns of the relation and
fields of the scalar, and `y` is the same query over the join without keys, where it reads the
columns of the scalar. -/
structure Crossing (s : Session) (a c : String) (sa sc : Schema) (q : RowQuery) (x y : String)
    {t : Schema} (row : Row t) : Prop where
  left : s.script.Known a sa
  right : s.script.Known c sc
  single : ∃ r, (s.openAlias c).1 = .ok r ∧ r.rows.contents = ⟨t, [row]⟩
  binds : freezeRow c s.config.maxScalarRowBytes row = .ok row
  reads : ∀ e ∈ q.exprs, e.ReadsAcross sa.length c sc
  scalar : s.script.get? x = some (q.node (.relation a))
  joined : s.script.get? y = some ((q.mapExprs (·.crossed sa.length sc)).node
    (.join (.relation a) (.relation c) []))

namespace Crossing

variable {a c : String} {sa sc : Schema} {q : RowQuery} {x y : String} {t : Schema} {row : Row t}
  {b : String} {comp : Compilation} {u : CompiledAlias} {o : Operator} {slots : List Slot}
  {w : EngineState}

theorem row_meets (hlegible : s.script.IsLegible) (h : s.Crossing a c sa sc q x y row) :
    sc.Describes t ∧ row.isComplete = true := by
  obtain ⟨comp, z, k, slots, w, hopens⟩ := exists_opens hlegible
    (h.right.compilable hlegible.isScripted)
  obtain ⟨r, hr, hcontents⟩ := h.single
  rw [hopens.result] at hr
  obtain ⟨r', hr', rfl⟩ := map_eq_ok.mp hr
  have hmeets : r'.Meets z.schema := hopens.built.yields_meets hlegible.isScripted hopens.compiled
    hopens.lowered _ [] w r' hr'
  rw [h.right.schema_eq hlegible.isScripted hopens.built hopens.compiled] at hmeets
  exact hmeets.single hcontents

theorem gives_row (hlegible : s.script.IsLegible) (h : s.Crossing a c sa sc q x y row)
    (hopens : s.Opens b comp u o slots w) {z : CompiledAlias} (hz : comp.get? c = some z)
    {size : Nat} {k : Operator} (hk : z.plan.lower size = .ok k) (bindings : ScalarBindings)
    {v : EngineState} (hv : v.catalog = s.state.catalog) :
    ∃ r, (k.execute (s.settings.context slots) bindings v).1 = .ok r ∧
      r.contents = ⟨t, [row]⟩ ∧
      (k.execute (s.settings.context slots) bindings v).2.catalog = s.state.catalog := by
  obtain ⟨comp', z', k', slots', w', hopens'⟩ := exists_opens hlegible
    (h.right.compilable hlegible.isScripted)
  obtain ⟨r, hr, hcontents⟩ := h.single
  rw [hopens'.result] at hr
  obtain ⟨r', hr', rfl⟩ := map_eq_ok.mp hr
  obtain ⟨hsame, -, hcatalog⟩ := hopens'.executesAlike hlegible hopens hopens'.compiled hz
    hopens'.lowered hk [] bindings w' v hopens'.catalog hv
  rw [hr'] at hsame
  obtain ⟨r'', hr'', rfl⟩ := hsame.ok_left
  exact ⟨r', hr'', hcontents, hcatalog⟩

theorem offers_row (hlegible : s.script.IsLegible) (h : s.Crossing a c sa sc q x y row)
    (hopens : s.Opens b comp u o slots w) {id : SideInputId} (hid : comp.registry.Holds c id) :
    (s.settings.context slots).read id = .ok (.row t row) := by
  obtain ⟨i, z, hi, hz, hplan⟩ := hopens.built.plan_of_holds hlegible hid
  obtain ⟨size, k, hk, hoffer⟩ := hopens.settles id i hi
  rw [hplan] at hk
  obtain ⟨r, hr, hcontents, -⟩ := h.gives_row hlegible hopens hz hk [] (v := ⟨s.state.catalog, []⟩)
    rfl
  have hread := hoffer ⟨s.state.catalog, []⟩ rfl
  rw [hr] at hread
  have hoffered : offered s.settings.rowLimit (.ok r) = some (.row t row) :=
    (offered_single h.binds hcontents).2
  rw [hoffered] at hread
  exact toOption_eq_some.mp hread

theorem join_extends (hlegible : s.script.IsLegible) (h : s.Crossing a c sa sc q x y row)
    (hopens : s.Opens b comp u o slots w) {b' : String} {comp' : Compilation} {u' : CompiledAlias}
    {o' : Operator} {slots' : List Slot} {w' : EngineState}
    (hopens' : s.Opens b' comp' u' o' slots' w') {v v' z : CompiledAlias}
    (hv : comp.get? a = some v) (hv' : comp'.get? a = some v') (hz : comp'.get? c = some z)
    {size size' size'' : Nat} {i i' k : Operator} (hi : v.plan.lower size = .ok i)
    (hi' : v'.plan.lower size' = .ok i') (hk : z.plan.lower size'' = .ok k)
    (bindings bindings' : ScalarBindings) :
    Run.Alike s.state.catalog s.state.catalog (Relation.Extends sa row)
      (i.execute (s.settings.context slots) bindings)
      ((Operator.hashJoin i' k []).execute (s.settings.context slots') bindings') := by
  obtain ⟨r, -, hcontents, -⟩ := h.gives_row hlegible hopens' hz hk bindings' rfl
  have hyields := hopens.built.yields_meets hlegible.isScripted hv hi (s.settings.context slots)
    bindings
  rw [h.left.schema_eq hlegible.isScripted hopens.built hv] at hyields
  exact hashJoin_extends
    ((hopens.executesAlike hlegible hopens' hv hv' hi hi' bindings bindings').and_yields hyields)
    (fun w'' hw'' => h.gives_row hlegible hopens' hz hk bindings' hw'') (h.row_meets hlegible).2
    (offered_single h.binds hcontents).1

theorem alike_execute (hlegible : s.script.IsLegible) (h : s.Crossing a c sa sc q x y row)
    (hx : s.Opens x comp u o slots w) {comp' : Compilation} {u' : CompiledAlias} {o' : Operator}
    {slots' : List Slot} {w' : EngineState} (hy : s.Opens y comp' u' o' slots' w') :
    Run.Alike s.state.catalog s.state.catalog (q.Answers row)
      (o.execute (s.settings.context slots) []) (o'.execute (s.settings.context slots') []) := by
  have hscript := hlegible.isScripted
  have hsolves := hx.built.solves_of_get? hscript h.scalar hx.compiled
  have hsolves' := hy.built.solves_of_get? hscript h.joined hy.compiled
  obtain ⟨v, r, used, hv, hr, hplan⟩ := hx.built.query hscript h.left h.right h.reads hsolves
  obtain ⟨v', z, r', hv', hz, hr', hplan'⟩ :=
    hy.built.joined hscript h.left h.right h.reads hsolves'
  have hcrosses := RelationScope.analyzeQuery_crossed (a := a)
    (Compilation.relationScope s.script comp.compiled)
    (Compilation.relationScope s.script comp'.compiled)
    (bindsTo_ofRow (comp.registry.idOf c) c sc) h.reads
  rw [hr, hr'] at hcrosses
  change RowQuery.Crosses _ _ _ _ r.1 r'.1 at hcrosses
  have hlisted := (hx.built.wellScoped hscript hx.compiled).listed
  have hlower := hx.lowered
  have hlower' := hy.lowered
  rw [hplan] at hlisted hlower
  rw [hplan', RowQuery.lower_node] at hlower'
  obtain ⟨j, hj, rfl⟩ := map_eq_ok.mp hlower'
  obtain ⟨i', hi', hj⟩ := bind_eq_ok.mp hj
  obtain ⟨k, hk, hj⟩ := bind_eq_ok.mp hj
  cases hj
  -- The query reads no scalar but `c`, and so only the one slot that holds the row.
  have hmentions : ∀ p ∈ (r.1.node v.plan).exprs.flatMap Expr.placeholders,
      p.aliasName = c ∧ p.sideInput = comp.registry.idOf c := by
    rw [RowQuery.exprs_node, List.forall_mem_flatMap]
    exact hcrosses.sideInput
  have hbound : ∀ id ∈ (r.1.node v.plan).reads,
      (s.settings.context slots).read id = .ok (.row t row) := by
    refine List.forall_mem_map.mpr fun p hp => ?_
    have hmem : p ∈ u.plan.placeholders := by
      rw [hplan]
      exact Plan.placeholders_subset_wrap _ _ (Plan.own_placeholders_subset _ hp)
    have hholds := hx.built.holds hscript hx.compiled hmem
    rw [(hmentions p hp).1] at hholds
    exact h.offers_row hlegible hx hholds
  refine alike_wrap hlisted hlower hbound fun n hn b hb => ?_
  rw [RowQuery.lower_node] at hn
  obtain ⟨i, hi, rfl⟩ := map_eq_ok.mp hn
  rw [← RowQuery.answers_of_analyzed hr row]
  refine hcrosses.execute_alike (h.row_meets hlegible).1 (fun e he p hp => ?_)
    (h.join_extends hlegible hx hy hv hv' hz hi hi' hk b [])
  refine hb _ (List.mem_map_of_mem (f := (·.sideInput)) (List.mem_flatMap.mpr ⟨e, ?_, hp⟩))
  rw [RowQuery.exprs_node]
  exact he

/-- Both queries can be opened, and give the same, or neither can. -/
theorem alike_openAlias (hlegible : s.script.IsLegible) (h : s.Crossing a c sa sc q x y row) :
    Alike (fun r r' => q.Answers row r.rows r'.rows) (s.openAlias x).1 (s.openAlias y).1 := by
  have haccepted := Script.compilable_query_iff_joined hlegible.isScripted h.left h.right h.reads
    h.scalar h.joined
  by_cases hcompilable : s.script.Compilable x
  · obtain ⟨comp, u, o, slots, w, hx⟩ := exists_opens hlegible hcompilable
    obtain ⟨comp', u', o', slots', w', hy⟩ := exists_opens hlegible (haccepted.mp hcompilable)
    rw [hx.result, hy.result]
    exact (h.alike_execute hlegible hx hy w w' hx.catalog hy.catalog).1.map fun _ _ hanswers =>
      hanswers
  · obtain ⟨e, he⟩ := openAlias_of_not_compilable hlegible.isScripted hcompilable
    obtain ⟨f, hf⟩ := openAlias_of_not_compilable hlegible.isScripted (mt haccepted.mpr hcompilable)
    rw [he, hf]
    trivial

end Crossing

namespace Crossing

variable {a c : String} {sa sc : Schema} {q : RowQuery} {x y : String} {t : Schema} {row : Row t}

theorem reached (h : s.Crossing a c sa sc q x y row) :
    s.script.Reached [x, y] a ∧ s.script.Reached [x, y] c := by
  have hy : s.script.Reached [x, y] y :=
    s.script.reached_of_mem (List.mem_cons_of_mem _ List.mem_cons_self)
  have hread : ∀ b ∈ [a, c], s.script.Reached [x, y] b := by
    intro b hb
    refine hy.read ⟨_, h.joined, Plan.mem_dependencies_of_relation ?_⟩
    rw [RowQuery.accesses_node]
    exact List.mem_map_of_mem (f := Plan.Access.relation) hb
  exact ⟨hread a List.mem_cons_self, hread c (List.mem_cons_of_mem _ List.mem_cons_self)⟩

theorem restrict (h : s.Crossing a c sa sc q x y row) :
    (s.restrict [x, y]).Crossing a c sa sc q x y row where
  left := h.left.restrict h.reached.1
  right := h.right.restrict h.reached.2
  single := by
    obtain ⟨r, hr, hcontents⟩ := h.single
    have hsame := (openAlias_restrict h.reached.2).symm
    rw [hr] at hsame
    obtain ⟨r', hr', rfl⟩ := hsame.ok_left
    exact ⟨r, hr', hcontents⟩
  binds := h.binds
  reads := h.reads
  scalar := (Script.get?_restrict (s.script.reached_of_mem List.mem_cons_self)).trans h.scalar
  joined := (Script.get?_restrict (s.script.reached_of_mem
    (List.mem_cons_of_mem _ List.mem_cons_self))).trans h.joined

end Crossing

/-- A scalar reference means a cross join with the single row of the scalar, where the definitions
that the queries reach store nothing and hold no two constants that are written alike. -/
theorem scalar_means_join {a c : String} {sa sc : Schema} {q : RowQuery} {x y : String} {t : Schema}
    {row : Row t} (hlegible : (s.script.restrict [x, y]).IsLegible)
    (h : s.Crossing a c sa sc q x y row) :
    ((∃ u, s.script.compile [⟨x, .collect⟩] = .ok u) ↔
      ∃ u, s.script.compile [⟨y, .collect⟩] = .ok u) ∧
    Alike (fun r r' => q.Answers row r.rows r'.rows) (s.openAlias x).1 (s.openAlias y).1 := by
  have hx : s.script.Reached [x, y] x := s.script.reached_of_mem List.mem_cons_self
  have hy : s.script.Reached [x, y] y :=
    s.script.reached_of_mem (List.mem_cons_of_mem _ List.mem_cons_self)
  have hr := h.restrict
  constructor
  · have hcompile : ∀ {b}, s.script.Reached [x, y] b →
        ((∃ u, s.script.compile [⟨b, .collect⟩] = .ok u) ↔
          (s.script.restrict [x, y]).Compilable b) := by
      intro b hb
      rw [← List.forall_mem_singleton (p := fun t : Statement =>
          (s.script.restrict [x, y]).Compilable t.aliasName) (a := ⟨b, .collect⟩),
        ← Script.exists_compile_iff hlegible.isScripted]
      exact exists_congr fun u => ((s.script.sameOn_restrict [x, y]).compile_eq_ok_iff
        (List.forall_mem_singleton.mpr hb)).symm
    rw [hcompile hx, hcompile hy]
    exact Script.compilable_query_iff_joined hlegible.isScripted hr.left hr.right hr.reads hr.scalar
      hr.joined
  · exact (hr.alike_openAlias hlegible).congr (openAlias_restrict hx) (openAlias_restrict hy)

theorem exists_row {c : String} {t : Schema}
    (h : ((s.openAlias c).1.toOption.map fun r => (r.rows.schema, r.rows.rows.map fun row =>
      (freezeRow c s.config.maxScalarRowBytes row).isOk)) = some (t, [true])) :
    ∃ row : Row t, (∃ r, (s.openAlias c).1 = .ok r ∧ r.rows.contents = ⟨t, [row]⟩) ∧
      freezeRow c s.config.maxScalarRowBytes row = .ok row := by
  obtain ⟨r, hr, hrows⟩ := Option.map_eq_some_iff.mp h
  obtain ⟨rfl, hone⟩ := Prod.mk.inj hrows
  obtain ⟨row, hrow, hbinds⟩ := List.map_eq_singleton_iff.mp hone
  exact ⟨row, ⟨r, toOption_eq_some.mp hr, congrArg (TypedBatch.mk _) hrow⟩,
    freezeRow_eq_ok hbinds⟩

/-- A table of texts, each in a batch of its own. -/
def textTable (texts : List (Option String)) : Relation :=
  ⟨[⟨"v", .utf8, true⟩], texts.map fun v => [.cons v .nil]⟩

/-- Guests are greeted by name of the one host. -/
def greeting : RowQuery :=
  .project [⟨.binary (.binary (.position 0) .concat (.literal (.text " meets "))) .concat
    (.scalarRef "host" (.name "v")), "line"⟩]

/-- A session of guests and a host. -/
def guestBook : Session :=
  ⟨.default, ⟨[("guests", textTable [some "ann", some "bob", none])], []⟩,
    ⟨[("guests", .load "guests" (some [⟨"v", .utf8, true⟩])),
      ("host", .filter (.binary (.position 0) (.compare .eq) (.literal (.text "ann")))
        (.relation "guests")),
      ("greetings", greeting.node (.relation "guests")),
      ("pairs", (greeting.mapExprs (·.crossed 1 [⟨"v", .utf8, true⟩])).node
        (.join (.relation "guests") (.relation "host") []))]⟩, [], false, 1⟩

theorem guestBook_crossing : ∃ row : Row [⟨"v", .utf8, true⟩],
    guestBook.Crossing "guests" "host" [⟨"v", .utf8, true⟩] [⟨"v", .utf8, true⟩] greeting
      "greetings" "pairs" row := by
  obtain ⟨row, hsingle, hbinds⟩ := guestBook.exists_row (c := "host")
    (t := [⟨"v", .utf8, true⟩]) (by cbv)
  refine ⟨row, ⟨Script.known_of_compile (by cbv), Script.known_of_compile (by cbv), hsingle,
    hbinds, ?_, rfl, rfl⟩⟩
  refine List.forall_mem_singleton.mpr (.binary _ (.binary _ (.position ?_) (.literal _)) ?_)
  · exact Nat.zero_lt_one
  · have hfield : (FieldSelector.name "v").resolve "host" (some [⟨"v", .utf8, true⟩]) =
        .ok (0, .utf8) := rfl
    exact .scalarRef hfield rfl

theorem isPlain_guestBook : guestBook.script.IsPlain where
  isScripted := by
    simp [Script.IsScripted, guestBook, greeting, RowQuery.node, RowQuery.mapExprs, Expr.crossed,
      Expr.mapLeaves, Plan.IsScripted, Plan.placeholders, Plan.allExprs, Plan.nodes, Plan.exprs,
      Expr.placeholders, Expr.parts, Expr.placeholder?]
  storesNothing := by
    simp [guestBook, greeting, RowQuery.node, RowQuery.mapExprs, Plan.accesses, Plan.nodes,
      Plan.access?]
  finite := by
    simp [guestBook, greeting, RowQuery.node, RowQuery.mapExprs, Expr.crossed, Expr.mapLeaves,
      Plan.literals, Plan.allExprs, Plan.nodes, Plan.exprs, Expr.literals, Expr.parts,
      Expr.literal?, Literal.isFinite]

theorem guestBook_scalar_means_join : ∃ row : Row [⟨"v", .utf8, true⟩],
    (guestBook.script.restrict ["greetings", "pairs"]).IsLegible ∧
    guestBook.Crossing "guests" "host" [⟨"v", .utf8, true⟩] [⟨"v", .utf8, true⟩] greeting
      "greetings" "pairs" row ∧
    ((∃ u, guestBook.script.compile [⟨"greetings", .collect⟩] = .ok u) ↔
      ∃ u, guestBook.script.compile [⟨"pairs", .collect⟩] = .ok u) ∧
    Alike (fun r r' => greeting.Answers row r.rows r'.rows) (guestBook.openAlias "greetings").1
      (guestBook.openAlias "pairs").1 := by
  obtain ⟨row, h⟩ := guestBook_crossing
  have hlegible := isPlain_guestBook.isLegible.restrict ["greetings", "pairs"]
  exact ⟨row, hlegible, h, scalar_means_join hlegible h⟩

/-- A session in which the relation `a` stores the table that the scalar `c` loads. -/
def storeFirst : Session :=
  ⟨.default, ⟨[("s", textTable [none]), ("t", textTable [some "kept"])], []⟩,
    ⟨[("a", .store "t" (.load "s" (some [⟨"v", .utf8, true⟩]))),
      ("c", .project [⟨.binary (.position 0) (.compare .eq) (.position 0), "v"⟩] (.load "t" none)),
      ("x", .project [⟨.scalarRef "c" (.position 0), "v"⟩] (.relation "a")),
      ("y", .project [⟨.position 1, "v"⟩] (.join (.relation "a") (.relation "c") []))]⟩,
    [], false, 1⟩

/-- A session in which the relation `a` reads a side input by its number. -/
def byNumber : Session :=
  ⟨.default, ⟨[("t", textTable [some "kept"])], []⟩,
    ⟨[("a", .sideInputs [0] (.project [⟨.placeholder ⟨0, "c", 0, .utf8, true⟩, "v"⟩]
        (.load "t" (some [⟨"v", .utf8, true⟩])))),
      ("c", .load "t" (some [⟨"v", .utf8, true⟩])),
      ("x", .project [⟨.scalarRef "c" (.position 0), "v"⟩] (.relation "a")),
      ("y", .project [⟨.position 1, "v"⟩] (.join (.relation "a") (.relation "c") []))]⟩,
    [], false, 1⟩

/-- The first field of the scalar, in every row. -/
def firstField : RowQuery := .project [⟨.scalarRef "c" (.position 0), "v"⟩]

/-- A store in a definition comes after the scalar is read, but before the join reads it; and a side
input that a definition names by its number is there for the query, but not for the join. -/
theorem scalar_differs_from_join :
    (∃ row : Row [⟨"v", .boolean, true⟩],
      storeFirst.Crossing "a" "c" [⟨"v", .utf8, true⟩] [⟨"v", .boolean, true⟩] firstField "x" "y"
        row ∧
      ¬ Alike (fun r r' => firstField.Answers row r.rows r'.rows) (storeFirst.openAlias "x").1
        (storeFirst.openAlias "y").1) ∧
    ∃ row : Row [⟨"v", .utf8, true⟩],
      byNumber.Crossing "a" "c" [⟨"v", .utf8, true⟩] [⟨"v", .utf8, true⟩] firstField "x" "y" row ∧
      ¬ Alike (fun r r' => firstField.Answers row r.rows r'.rows) (byNumber.openAlias "x").1
        (byNumber.openAlias "y").1 := by
  have hreads : ∀ {type : DataType}, type.isUntyped = false → ∀ e ∈ firstField.exprs,
      e.ReadsAcross 1 "c" [⟨"v", type, true⟩] := fun htyped =>
    List.forall_mem_singleton.mpr (.scalarRef rfl htyped)
  constructor
  · obtain ⟨row, hsingle, hbinds⟩ := storeFirst.exists_row (c := "c")
      (t := [⟨"v", .boolean, true⟩]) (by cbv)
    refine ⟨row, ⟨Script.known_of_compile (by cbv), Script.known_of_compile (by cbv), hsingle,
      hbinds, hreads rfl, rfl, rfl⟩, fun halike => ?_⟩
    have hx : ((storeFirst.openAlias "x").1.toOption.map fun r => r.rows.tuples.toOption) =
        some (some ["(true)"]) := by cbv
    have hy : ((storeFirst.openAlias "y").1.toOption.map fun r => r.rows.tuples.toOption) =
        some (some ["()"]) := by cbv
    obtain ⟨r, hr, hrows⟩ := Option.map_eq_some_iff.mp hx
    obtain ⟨r', hr', hrows'⟩ := Option.map_eq_some_iff.mp hy
    rw [toOption_eq_some.mp hr, toOption_eq_some.mp hr'] at halike
    have hsame : r'.rows.contents = r.rows.contents := halike
    rw [← Relation.tuples_congr hsame, hrows'] at hrows
    exact absurd hrows (by decide)
  · obtain ⟨row, hsingle, hbinds⟩ := byNumber.exists_row (c := "c")
      (t := [⟨"v", .utf8, true⟩]) (by cbv)
    refine ⟨row, ⟨Script.known_of_compile (by cbv), Script.known_of_compile (by cbv), hsingle,
      hbinds, hreads rfl, rfl, rfl⟩, fun halike => ?_⟩
    have hx : (byNumber.openAlias "x").1.isOk = true := by cbv
    have hy : (byNumber.openAlias "y").1.isOk = false := by cbv
    cases hresult : (byNumber.openAlias "x").1 with
    | error e =>
        rw [hresult] at hx
        cases hx
    | ok r =>
        rw [hresult] at halike
        obtain ⟨r', hr', -⟩ := halike.ok_left
        rw [hr'] at hy
        cases hy

end Session

end RelScript
