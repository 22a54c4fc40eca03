import RelScript.Proofs.Analysis.Crossing
import RelScript.Proofs.Execution.KnownRows
import RelScript.Proofs.Unit.Acceptance
import RelScript.Proofs.Unit.Acyclic
import RelScript.Proofs.Unit.Restriction

/-!
Acceptance of queries that read a scalar, and of the same queries over a join. Both are accepted, or
neither is. The rows of every compiled alias of a known schema meet it.
-/

namespace RelScript

namespace Compilation

variable {script : Script} {roots : List String} {c : Compilation}

theorem Built.yields_meets (hscript : script.IsScripted) (h : Built script roots c) {a : String}
    {x : CompiledAlias} (hx : c.get? a = some x) {size : Nat} {o : Operator}
    (ho : x.plan.lower size = .ok o) (ctx : RunContext) (b : ScalarBindings) :
    Run.Yields (Relation.Meets x.schema) (o.execute ctx b) := by
  refine h.induction hscript (P := fun _ x => ∀ size o, x.plan.lower size = .ok o →
    ∀ b, Run.Yields (Relation.Meets x.schema) (o.execute ctx b)) ?_ hx size o ho b
  intro a d x _ _ hsolves hdeps size o ho b
  obtain ⟨scope, columns, hplan, hschema, hscope⟩ := hsolves.analyzesPlan
  rw [← hschema]
  refine hplan.yields_meets (fun e q schema hq hschema size o ho b => ?_) ho b
  obtain ⟨y, he, hy, rfl, hfound⟩ := hscope e q hq
  cases hschema.symm.trans hfound
  exact hdeps e he y hy size o ho b

end Compilation

namespace Script

variable {script : Script}

theorem compilable_of_built {roots : List String} {c : Compilation}
    (h : Compilation.Built script roots c) {a : String} (ha : (c.get? a).isSome) :
    script.Compilable a :=
  ⟨checkCycles_of_acc (h.acc ha), roots, c, h, ha⟩

theorem compilable_of_dependencies (hscript : script.IsScripted) {a : String} {d : Plan}
    (hd : script.get? a = some d) (hdeps : ∀ b ∈ d.dependencies, script.Compilable b)
    (hadd : ∀ roots c, Compilation.Built script roots c →
      (∀ b ∈ d.dependencies, (c.get? b).isSome) → ∃ c', c.add script a d = .ok c') :
    script.Compilable a := by
  have hreached : script.Reached [a] a := script.reached_of_mem List.mem_cons_self
  have hread : ∀ s ∈ d.dependencies.map fun b => (⟨b, .collect⟩ : Statement),
      script.Reached [a] s.aliasName :=
    List.forall_mem_map.mpr fun b hb => hreached.read ⟨d, hd, hb⟩
  obtain ⟨⟨compiled, c⟩, hcompiled⟩ := exists_compileStatements hscript
    (List.forall_mem_map.mpr hdeps) hread .empty
  obtain ⟨hgrown, -⟩ := Compilation.grown_of_compileStatements .empty hread hcompiled
  have hbuilt := hgrown.built
  have hall : ∀ b ∈ d.dependencies, (c.get? b).isSome := by
    have h := hgrown.compiled
    rw [List.map_map, List.forall_mem_map] at h
    exact h
  by_cases hnone : c.get? a = none
  · obtain ⟨c', hc'⟩ := hadd [a] c hbuilt hall
    exact compilable_of_built (hbuilt.add hreached hd hnone hall hc')
      (Compilation.isSome_get?_add hc')
  · exact compilable_of_built hbuilt (Option.isSome_iff_ne_none.mpr hnone)

/-- The alias can be compiled by itself, and its columns are known. -/
def Known (script : Script) (a : String) (s : Schema) : Prop :=
  ∃ u, script.compile [⟨a, .collect⟩] = .ok u ∧ u.statements.map (·.schema) = [some s]

theorem known_of_compile {a : String} {s : Schema}
    (h : (script.compile [⟨a, .collect⟩]).toOption.map (·.statements.map (·.schema)) =
      some [some s]) : script.Known a s := by
  obtain ⟨u, hu, hschemas⟩ := Option.map_eq_some_iff.mp h
  exact ⟨u, toOption_eq_some.mp hu, hschemas⟩

theorem Known.compilable (hscript : script.IsScripted) {a : String} {s : Schema}
    (h : script.Known a s) : script.Compilable a := by
  obtain ⟨u, hu, -⟩ := h
  exact (exists_compile_iff hscript).mp ⟨u, hu⟩ _ (List.mem_singleton.mpr rfl)

theorem Known.restrict {a : String} {s : Schema} (h : script.Known a s) {roots : List String}
    (ha : script.Reached roots a) : (script.restrict roots).Known a s := by
  obtain ⟨u, hu, hschemas⟩ := h
  exact ⟨u, ((script.sameOn_restrict roots).compile_eq_ok_iff
    (List.forall_mem_singleton.mpr ha)).mpr hu, hschemas⟩

theorem Known.schema_eq (hscript : script.IsScripted) {a : String} {s : Schema}
    (h : script.Known a s) {roots : List String} {c : Compilation}
    (hc : Compilation.Built script roots c) {x : CompiledAlias} (hx : c.get? a = some x) :
    x.schema = some s := by
  obtain ⟨u, hu, hschemas⟩ := h
  obtain ⟨c', hc', -, hstatements⟩ := built_of_compile hu
  generalize u.statements = compiled at hschemas hstatements
  rcases hstatements with _ | ⟨⟨x', hx', rfl⟩, ⟨⟩⟩
  obtain ⟨x'', hx'', -, hschema⟩ := hc'.renumbers hscript hc (by rw [hx]; rfl) x' hx'
  rw [hx] at hx''
  cases hx''
  exact hschema.trans (List.singleton_inj.mp hschemas)

end Script

/-- The placeholders of a scalar of known fields that is bound to a side input. -/
def Placeholding.ofRow (id : SideInputId) (scalar : String) (s : Schema) : Placeholding :=
  fun _ field =>
    let (index, type) := (field.resolve scalar (some s)).toOption.getD (0, .binary)
    ⟨id, scalar, index, type, !type.isUntyped⟩

theorem bindsTo_ofRow (id : SideInputId) (scalar : String) (s : Schema) :
    RelationScope.BindsTo scalar s id (.ofRow id scalar s) := by
  intro field index type hfield
  rw [Placeholding.ofRow, hfield]
  rfl

theorem Expr.relationRefs_of_isAcross {scalar : String} {s : Schema} {e : Expr}
    (h : ∀ x ∈ e.parts, x.IsAcross scalar s) : e.relationRefs = [] := by
  refine List.filterMap_eq_nil_iff.mpr fun x hx => ?_
  have hpart := h x hx
  cases x with
  | relationRef b => cases hpart
  | _ => rfl

theorem Plan.access_of_mem_dependencies {p : Plan} {b : String} (h : b ∈ p.dependencies) :
    Access.relation b ∈ p.accesses ∨ ∃ ref ∈ p.scalarRefs, ref.1 = b := by
  simp only [dependencies, relationAliases, scalarAliases, List.mem_eraseDups, List.mem_append]
    at h
  rcases h with h | h
  · obtain ⟨n, hn, hb⟩ := List.mem_filterMap.mp h
    refine Or.inl (List.mem_filterMap.mpr ⟨n, hn, ?_⟩)
    cases n with
    | relation e =>
        cases hb
        rfl
    | _ => cases hb
  · obtain ⟨e, he, hb⟩ := List.mem_flatMap.mp h
    obtain ⟨x, hx, hb⟩ := List.mem_filterMap.mp hb
    cases x with
    | scalarRef e' field =>
        cases hb
        exact Or.inr ⟨(b, field), List.mem_flatMap.mpr ⟨e, he, Expr.mem_scalarRefs.mpr hx⟩, rfl⟩
    | _ => cases hb

namespace RowQuery

variable {a c : String} {sa sc : Schema} {q : RowQuery}

theorem accesses_node (q : RowQuery) (p : Plan) : (q.node p).accesses = p.accesses := by
  cases q <;> rfl

theorem scalarRefs_node (q : RowQuery) {p : Plan} (hp : p.scalarRefs = []) :
    (q.node p).scalarRefs = q.exprs.flatMap Expr.scalarRefs := by
  rw [Plan.scalarRefs_eq, exprs_node, children_node, List.flatMap_singleton, hp, List.append_nil]

theorem noRelationRefs_node {p : Plan} (hp : Compilation.NoRelationRefs p)
    (h : ∀ e ∈ q.exprs, ∀ x ∈ e.parts, x.IsAcross c sc) :
    Compilation.NoRelationRefs (q.node p) := by
  rw [Compilation.noRelationRefs_iff, exprs_node, children_node]
  exact ⟨fun e he => Expr.relationRefs_of_isAcross (h e he), List.forall_mem_singleton.mpr hp⟩

theorem scalarRefs_of_readsAcross {p : Plan} (hp : p.scalarRefs = [])
    (h : ∀ e ∈ q.exprs, e.ReadsAcross sa.length c sc) :
    ∀ ref ∈ (q.node p).scalarRefs, ref.1 = c ∧ ∃ found,
      ref.2.resolve c (some sc) = .ok found := by
  rw [scalarRefs_node q hp]
  intro ref href
  obtain ⟨e, he, href⟩ := List.mem_flatMap.mp href
  exact (h e he).scalarRefs ref href

theorem scalarRefs_crossed {p : Plan} (hp : p.scalarRefs = [])
    (h : ∀ e ∈ q.exprs, e.ReadsAcross sa.length c sc) :
    ((q.mapExprs (·.crossed sa.length sc)).node p).scalarRefs = [] := by
  rw [scalarRefs_node _ hp, exprs_mapExprs, List.flatMap_eq_nil_iff, List.forall_mem_map]
  exact fun e he => (h e he).crossed.2.1

end RowQuery

namespace Compilation

variable {script : Script} {roots : List String} {comp : Compilation} {a c : String}
  {sa sc : Schema} {q : RowQuery}

theorem substitute_ofRow {d : Plan} {compiled : List (String × CompiledAlias)} (r : Registry)
    (hrefs : ∀ ref ∈ d.scalarRefs, ref.1 = c ∧ ∃ found, ref.2.resolve c (some sc) = .ok found)
    (hknown : ∀ ref ∈ d.scalarRefs, ∃ x, compiled.lookup c = some x ∧ x.schema = some sc) :
    d.substitute (placeholding compiled r) = d.substitute (.ofRow (r.idOf c) c sc) := by
  refine Plan.substitute_congr fun ref href => ?_
  obtain ⟨rfl, found, hfield⟩ := hrefs ref href
  obtain ⟨x, hx, hschema⟩ := hknown ref href
  have hfound : field? compiled ref.1 ref.2 = some found :=
    field?_eq_some.mpr ⟨x, hx, by rw [hschema]; exact hfield⟩
  rw [placeholding, hfound, Placeholding.ofRow, hfield]
  rfl

theorem relationScope_of_get? (script : Script) {x : CompiledAlias} (hx : comp.get? a = some x) :
    (relationScope script comp.compiled).compiled a = .ok x.plan ∧
      (relationScope script comp.compiled).schema a = .ok x.schema :=
  relationScope_eq_ok.mpr ⟨x, hx, rfl, rfl⟩

theorem Built.query (hscript : script.IsScripted) (hbuilt : Built script roots comp)
    (ha : script.Known a sa) (hc : script.Known c sc)
    (hreads : ∀ e ∈ q.exprs, e.ReadsAcross sa.length c sc) {x : CompiledAlias}
    (hx : Solves script comp (q.node (.relation a)) x) :
    ∃ y r used, comp.get? a = some y ∧
      (relationScope script comp.compiled).analyzeQuery (.known [⟨a, sa⟩])
        (q.mapExprs (·.substitute (.ofRow (comp.registry.idOf c) c sc))) = .ok r ∧
      x.plan = ScalarScope.wrap (r.1.node y.plan) used := by
  have hrefs := RowQuery.scalarRefs_of_readsAcross (p := .relation a) rfl hreads
  have hrelation : Plan.Access.relation a ∈ (q.node (.relation a)).accesses := by
    rw [RowQuery.accesses_node]
    exact List.mem_singleton.mpr rfl
  obtain ⟨y, hy⟩ := Option.isSome_iff_exists.mp
    (hx.dependencies a (Plan.mem_dependencies_of_relation hrelation))
  have hanalyzed := hx.analyzed
  rw [substitute_ofRow comp.registry hrefs fun ref href => ?_] at hanalyzed
  · obtain ⟨hplan, hschema⟩ := relationScope_of_get? script hy
    rw [ha.schema_eq hscript hbuilt hy] at hschema
    rw [RelationScope.analyze_over_relation _ q hplan hschema] at hanalyzed
    obtain ⟨r, hr, hpair⟩ := map_eq_ok.mp hanalyzed
    exact ⟨y, r, _, hy, hr, (congrArg Prod.fst hpair).symm⟩
  · obtain ⟨z, hz⟩ := Option.isSome_iff_exists.mp
      (hx.dependencies _ (Plan.mem_dependencies_of_scalar href))
    rw [(hrefs ref href).1] at hz
    exact ⟨z, hz, hc.schema_eq hscript hbuilt hz⟩

theorem Built.joined (hscript : script.IsScripted) (hbuilt : Built script roots comp)
    (ha : script.Known a sa) (hc : script.Known c sc)
    (hreads : ∀ e ∈ q.exprs, e.ReadsAcross sa.length c sc) {x : CompiledAlias}
    (hx : Solves script comp ((q.mapExprs (·.crossed sa.length sc)).node
      (.join (.relation a) (.relation c) [])) x) :
    ∃ y z r, comp.get? a = some y ∧ comp.get? c = some z ∧
      (relationScope script comp.compiled).analyzeQuery (.known [⟨a, sa⟩, ⟨c, sc⟩])
        (q.mapExprs (·.crossed sa.length sc)) = .ok r ∧
      x.plan = r.1.node (.join y.plan z.plan []) := by
  have hrelation : ∀ b ∈ [a, c], (comp.get? b).isSome := by
    intro b hb
    refine hx.dependencies b (Plan.mem_dependencies_of_relation ?_)
    rw [RowQuery.accesses_node]
    exact List.mem_map_of_mem (f := Plan.Access.relation) hb
  obtain ⟨y, hy⟩ := Option.isSome_iff_exists.mp (hrelation a List.mem_cons_self)
  obtain ⟨z, hz⟩ := Option.isSome_iff_exists.mp (hrelation c (by simp))
  obtain ⟨hplan, hschema⟩ := relationScope_of_get? script hy
  obtain ⟨hplan', hschema'⟩ := relationScope_of_get? script hz
  rw [ha.schema_eq hscript hbuilt hy] at hschema
  rw [hc.schema_eq hscript hbuilt hz] at hschema'
  have hanalyzed := hx.analyzed
  rw [RelationScope.analyze_over_join _ hreads hplan hschema hplan' hschema'] at hanalyzed
  obtain ⟨r, hr, hpair⟩ := map_eq_ok.mp hanalyzed
  exact ⟨y, z, r, hy, hz, hr, (congrArg Prod.fst hpair).symm⟩

end Compilation

namespace Script

variable {script : Script} {a c : String} {sa sc : Schema} {q : RowQuery}

theorem analyzed_iff (hreads : ∀ e ∈ q.exprs, e.ReadsAcross sa.length c sc)
    (scope scope' : RelationScope) (id : SideInputId) :
    (∃ r, scope.analyzeQuery (.known [⟨a, sa⟩])
        (q.mapExprs (·.substitute (.ofRow id c sc))) = .ok r) ↔
      ∃ r, scope'.analyzeQuery (.known [⟨a, sa⟩, ⟨c, sc⟩])
        (q.mapExprs (·.crossed sa.length sc)) = .ok r :=
  (RelationScope.analyzeQuery_crossed scope scope' (bindsTo_ofRow id c sc) hreads).exists_ok_iff

theorem compilable_query_iff (hscript : script.IsScripted) (ha : script.Known a sa)
    (hc : script.Known c sc) (hreads : ∀ e ∈ q.exprs, e.ReadsAcross sa.length c sc) {x : String}
    (hx : script.get? x = some (q.node (.relation a))) :
    script.Compilable x ↔ ∃ r, (Compilation.relationScope script []).analyzeQuery
      (.known [⟨a, sa⟩, ⟨c, sc⟩]) (q.mapExprs (·.crossed sa.length sc)) = .ok r := by
  have hrefs := RowQuery.scalarRefs_of_readsAcross (p := .relation a) rfl hreads
  constructor
  · rintro ⟨-, roots, comp, hbuilt, hsome⟩
    obtain ⟨y, hy⟩ := Option.isSome_iff_exists.mp hsome
    obtain ⟨-, r, -, -, hr, -⟩ :=
      hbuilt.query hscript ha hc hreads (hbuilt.solves_of_get? hscript hx hy)
    exact (analyzed_iff hreads _ _ _).mp ⟨r, hr⟩
  · intro haccepted
    -- Over the compiled aliases that it reads, all that is left of the query is its analysis.
    refine compilable_of_dependencies hscript hx (fun b hb => ?_) fun roots comp hbuilt hall => ?_
    · rcases Plan.access_of_mem_dependencies hb with hb | ⟨ref, href, rfl⟩
      · rw [RowQuery.accesses_node] at hb
        cases List.mem_singleton.mp hb
        exact ha.compilable hscript
      · rw [(hrefs ref href).1]
        exact hc.compilable hscript
    · have hrelation : Plan.Access.relation a ∈ (q.node (.relation a)).accesses := by
        rw [RowQuery.accesses_node]
        exact List.mem_singleton.mpr rfl
      obtain ⟨y, hy⟩ := Option.isSome_iff_exists.mp
        (hall a (Plan.mem_dependencies_of_relation hrelation))
      have hknown : ∀ ref ∈ (q.node (.relation a)).scalarRefs,
          ∃ z, comp.compiled.lookup c = some z ∧ z.schema = some sc := by
        intro ref href
        obtain ⟨z, hz⟩ := Option.isSome_iff_exists.mp
          (hall _ (Plan.mem_dependencies_of_scalar href))
        rw [(hrefs ref href).1] at hz
        exact ⟨z, hz, hc.schema_eq hscript hbuilt hz⟩
      refine Compilation.exists_add script (hbuilt.described hscript) (hscript.of_get? hx)
        (RowQuery.noRelationRefs_node (List.forall_mem_nil _) fun e he => (hreads e he).parts)
        (fun ref href => ?_) (fun r _ _ => ?_) x
      · obtain ⟨hscalar, found, hfield⟩ := hrefs ref href
        obtain ⟨z, hz, hschema⟩ := hknown ref href
        have hfound : Compilation.field? comp.compiled ref.1 ref.2 = some found := by
          rw [hscalar]
          exact Compilation.field?_eq_some.mpr ⟨z, hz, by rw [hschema]; exact hfield⟩
        rw [hfound]
        rfl
      · obtain ⟨hplan, hschema⟩ := Compilation.relationScope_of_get? script hy
        rw [ha.schema_eq hscript hbuilt hy] at hschema
        obtain ⟨found, hfound⟩ := (analyzed_iff hreads
          (Compilation.relationScope script comp.compiled) _ (r.idOf c)).mpr haccepted
        rw [Compilation.substitute_ofRow r hrefs hknown,
          RelationScope.analyze_over_relation _ q hplan hschema, hfound]
        exact ⟨_, rfl⟩

theorem compilable_joined_iff (hscript : script.IsScripted) (ha : script.Known a sa)
    (hc : script.Known c sc) (hreads : ∀ e ∈ q.exprs, e.ReadsAcross sa.length c sc) {x : String}
    (hx : script.get? x = some ((q.mapExprs (·.crossed sa.length sc)).node
      (.join (.relation a) (.relation c) []))) :
    script.Compilable x ↔ ∃ r, (Compilation.relationScope script []).analyzeQuery
      (.known [⟨a, sa⟩, ⟨c, sc⟩]) (q.mapExprs (·.crossed sa.length sc)) = .ok r := by
  have hsame : ∀ scope scope' : RelationScope,
      (∃ r, scope.analyzeQuery (.known [⟨a, sa⟩, ⟨c, sc⟩])
          (q.mapExprs (·.crossed sa.length sc)) = .ok r) →
        ∃ r, scope'.analyzeQuery (.known [⟨a, sa⟩, ⟨c, sc⟩])
          (q.mapExprs (·.crossed sa.length sc)) = .ok r := fun scope scope' haccepted =>
    (analyzed_iff hreads scope scope' 0).mp ((analyzed_iff hreads scope scope 0).mpr haccepted)
  have hrefs := RowQuery.scalarRefs_crossed (p := .join (.relation a) (.relation c) []) rfl hreads
  constructor
  · rintro ⟨-, roots, comp, hbuilt, hsome⟩
    obtain ⟨y, hy⟩ := Option.isSome_iff_exists.mp hsome
    obtain ⟨-, -, r, -, -, hr, -⟩ :=
      hbuilt.joined hscript ha hc hreads (hbuilt.solves_of_get? hscript hx hy)
    exact hsame _ _ ⟨r, hr⟩
  · intro haccepted
    refine compilable_of_dependencies hscript hx (fun b hb => ?_) fun roots comp hbuilt hall => ?_
    · rcases Plan.access_of_mem_dependencies hb with hb | ⟨ref, href, -⟩
      · rw [RowQuery.accesses_node] at hb
        rcases List.mem_cons.mp hb with hb | hb
        · cases hb
          exact ha.compilable hscript
        · cases List.mem_singleton.mp hb
          exact hc.compilable hscript
      · rw [hrefs] at href
        cases href
    · have hrelation : ∀ b ∈ [a, c], (comp.get? b).isSome := by
        intro b hb
        refine hall b (Plan.mem_dependencies_of_relation ?_)
        rw [RowQuery.accesses_node]
        exact List.mem_map_of_mem (f := Plan.Access.relation) hb
      obtain ⟨y, hy⟩ := Option.isSome_iff_exists.mp (hrelation a List.mem_cons_self)
      obtain ⟨z, hz⟩ := Option.isSome_iff_exists.mp
        (hrelation c (List.mem_cons_of_mem _ List.mem_cons_self))
      have hparts : ∀ e ∈ (q.mapExprs (·.crossed sa.length sc)).exprs,
          ∀ x ∈ e.parts, x.IsAcross c sc := by
        rw [RowQuery.exprs_mapExprs, List.forall_mem_map]
        exact fun e he => (hreads e he).crossed.2.2
      refine Compilation.exists_add script (hbuilt.described hscript) (hscript.of_get? hx)
        (RowQuery.noRelationRefs_node (List.forall_mem_nil _) hparts) ?_ (fun r _ _ => ?_) x
      · rw [hrefs]
        exact List.forall_mem_nil _
      · obtain ⟨hplan, hschema⟩ := Compilation.relationScope_of_get? script hy
        obtain ⟨hplan', hschema'⟩ := Compilation.relationScope_of_get? script hz
        rw [ha.schema_eq hscript hbuilt hy] at hschema
        rw [hc.schema_eq hscript hbuilt hz] at hschema'
        obtain ⟨found, hfound⟩ := hsame _ (Compilation.relationScope script comp.compiled)
          haccepted
        rw [RelationScope.analyze_over_join _ hreads hplan hschema hplan' hschema', hfound]
        exact ⟨_, rfl⟩

/-- A query that reads a scalar is accepted if and only if the query over the join is. -/
theorem compilable_query_iff_joined (hscript : script.IsScripted) (ha : script.Known a sa)
    (hc : script.Known c sc) (hreads : ∀ e ∈ q.exprs, e.ReadsAcross sa.length c sc)
    {x y : String} (hx : script.get? x = some (q.node (.relation a)))
    (hy : script.get? y = some ((q.mapExprs (·.crossed sa.length sc)).node
      (.join (.relation a) (.relation c) []))) :
    script.Compilable x ↔ script.Compilable y := by
  rw [compilable_query_iff hscript ha hc hreads hx, compilable_joined_iff hscript ha hc hreads hy]

end Script

end RelScript
