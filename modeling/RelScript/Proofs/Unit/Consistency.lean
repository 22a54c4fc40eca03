import RelScript.Proofs.Analysis.Scoping
import RelScript.Proofs.Unit.Binding
import RelScript.Proofs.Unit.History

/-!
What holds of every compilation: its registry describes the compiled aliases, and every compiled
alias is its own definition, bound with the numbers of the registry and analyzed against the other
aliases.
-/

namespace RelScript

/-- A script of which no definition holds placeholders or lists of side inputs. -/
def Script.IsScripted (script : Script) : Prop := ∀ d ∈ script.definitions, d.2.IsScripted

theorem Script.IsScripted.of_get? {script : Script} (h : script.IsScripted) {a : String}
    {d : Plan} (hd : script.get? a = some d) : d.IsScripted :=
  h _ (Script.mem_of_get? hd)

namespace Plan

theorem mem_dependencies_of_relation {p : Plan} {a : String} (h : Access.relation a ∈ p.accesses) :
    a ∈ p.dependencies := by
  obtain ⟨n, hn, hna⟩ := List.mem_filterMap.mp h
  have hrelation : n.relationAlias? = some a := by
    cases n with
    | relation b =>
        cases hna
        rfl
    | _ => cases hna
  simp only [dependencies, relationAliases, List.mem_eraseDups, List.mem_append]
  exact Or.inl (List.mem_filterMap.mpr ⟨n, hn, hrelation⟩)

theorem mem_dependencies_of_scalar {p : Plan} {ref : String × FieldSelector}
    (h : ref ∈ p.scalarRefs) : ref.1 ∈ p.dependencies := by
  obtain ⟨e, he, href⟩ := List.mem_flatMap.mp h
  obtain ⟨x, hx, hxref⟩ := List.mem_filterMap.mp href
  have hscalar : x.scalarAlias? = some ref.1 := by
    cases x with
    | scalarRef b f =>
        cases hxref
        rfl
    | _ => cases hxref
  simp only [dependencies, scalarAliases, List.mem_eraseDups, List.mem_append]
  exact Or.inr (List.mem_flatMap.mpr ⟨e, he, List.mem_filterMap.mpr ⟨x, hx, hscalar⟩⟩)

end Plan

namespace Compilation

variable {script : Script} {roots : List String}

/-- A compilation later on. -/
structure Extends (c c' : Compilation) : Prop where
  keeps : c.Keeps c'
  registry : c.registry.Extends c'.registry

/-- The registry of a compilation describes its aliases. -/
abbrev Described (c : Compilation) : Prop := c.registry.Describes c.compiled

/-- What a compilation makes of a definition. -/
structure Solves (script : Script) (c : Compilation) (d : Plan) (x : CompiledAlias) : Prop where
  dependencies : ∀ b ∈ d.dependencies, (c.get? b).isSome
  noRelationRefs : NoRelationRefs d
  selects : Selects c.compiled d.scalarRefs
  registered : ∀ ref ∈ d.scalarRefs, ∃ id, c.registry.Holds ref.1 id
  analyzed : (relationScope script c.compiled).analyze
    (d.substitute (placeholding c.compiled c.registry)) = .ok (x.plan, x.schema)

theorem field?_keeps {c c' : Compilation} (h : c.Keeps c') {a : String} {f : FieldSelector}
    {found : Nat × DataType} (hfound : field? c.compiled a f = some found) :
    field? c'.compiled a f = some found := by
  obtain ⟨x, hx, hfield⟩ := field?_eq_some.mp hfound
  exact field?_eq_some.mpr ⟨x, h a x hx, hfield⟩

theorem find_keeps {c c' : Compilation} (h : c.Keeps c') {a : String} (ha : (c.get? a).isSome) :
    find c'.compiled a = find c.compiled a := by
  obtain ⟨x, hx⟩ := Option.isSome_iff_exists.mp ha
  rw [find_eq_ok.mpr hx, find_eq_ok.mpr (h a x hx)]

theorem placeholding_extends {c c' : Compilation} (h : c.Extends c') (hc : c.Described)
    (hc' : c'.Described) {ref : String × FieldSelector}
    (hsel : (field? c.compiled ref.1 ref.2).isSome) (hreg : ∃ id, c.registry.Holds ref.1 id) :
    placeholding c'.compiled c'.registry ref.1 ref.2 =
      placeholding c.compiled c.registry ref.1 ref.2 := by
  obtain ⟨found, hfound⟩ := Option.isSome_iff_exists.mp hsel
  obtain ⟨id, hid⟩ := hreg
  rw [placeholding_of_holds hc hid hfound,
    placeholding_of_holds hc' (hid.extend h.registry) (field?_keeps h.keeps hfound)]

theorem Solves.extend {c c' : Compilation} {d : Plan} {x : CompiledAlias}
    (hd : Solves script c d x) (h : c.Extends c') (hc : c.Described) (hc' : c'.Described) :
    Solves script c' d x where
  dependencies := fun b hb => h.keeps.isSome (hd.dependencies b hb)
  noRelationRefs := hd.noRelationRefs
  selects := fun ref href => by
    obtain ⟨found, hfound⟩ := Option.isSome_iff_exists.mp (hd.selects ref href)
    rw [field?_keeps h.keeps hfound]
    rfl
  registered := fun ref href => (hd.registered ref href).imp fun _ hid => hid.extend h.registry
  analyzed := by
    obtain ⟨columns, hplan, hschema⟩ := RelationScope.analyze_eq_ok.mp hd.analyzed
    rw [Plan.substitute_congr fun ref href =>
      placeholding_extends h hc hc' (hd.selects ref href) (hd.registered ref href)]
    refine RelationScope.analyze_eq_ok.mpr ⟨columns, hplan.congr fun a ha => ?_, hschema⟩
    rw [Plan.accesses_substitute] at ha
    have hfind := find_keeps h.keeps (hd.dependencies a (Plan.mem_dependencies_of_relation ha))
    exact ⟨congrArg (Except.map _) hfind, congrArg (Except.map _) hfind⟩

theorem Solves.analyzesPlan {c : Compilation} {d : Plan} {x : CompiledAlias}
    (h : Solves script c d x) : ∃ scope columns,
      RelationScope.AnalyzesPlan scope (d.substitute (placeholding c.compiled c.registry)) x.plan
          columns ∧
        columns.schema = x.schema ∧
        ∀ a q, scope.compiled a = .ok q → ∃ y, a ∈ d.dependencies ∧ c.get? a = some y ∧
          y.plan = q ∧ scope.schema a = .ok y.schema := by
  obtain ⟨columns, hplan, hschema⟩ := RelationScope.analyze_eq_ok.mp h.analyzed
  obtain ⟨scope, hplan, hscope⟩ := hplan.restrict
  refine ⟨scope, columns, hplan, hschema, fun a q hq => ?_⟩
  obtain ⟨ha, hq, hsame⟩ := hscope a q hq
  rw [Plan.accesses_substitute] at ha
  obtain ⟨y, hy, rfl⟩ := map_eq_ok.mp hq
  rw [hsame]
  exact ⟨y, Plan.mem_dependencies_of_relation ha, find_eq_ok.mp hy, rfl,
    map_eq_ok.mpr ⟨y, hy, rfl⟩⟩

theorem Solves.placeholder_origin {c : Compilation} {d : Plan} {x : CompiledAlias}
    (hd : d.IsScripted) (h : Solves script c d x) {q : Placeholder} (hq : q ∈ x.plan.placeholders) :
    (∃ ref ∈ d.scalarRefs, placeholding c.compiled c.registry ref.1 ref.2 = q) ∨
      ∃ a y, a ∈ d.dependencies ∧ c.get? a = some y ∧ q ∈ y.plan.placeholders := by
  obtain ⟨scope, columns, hplan, -, hscope⟩ := h.analyzesPlan
  rcases hplan.placeholder_origin hq with hown | ⟨a, p, -, hp, hqp⟩
  · rw [Plan.placeholders_substitute hd.1] at hown
    exact Or.inl (List.mem_map.mp hown)
  · obtain ⟨y, ha, hy, rfl, -⟩ := hscope a p hp
    exact Or.inr ⟨a, y, ha, hy, hqp⟩

/-- What happens when a definition is compiled whose dependencies are. -/
theorem add_spec {c c' : Compilation} {a : String} {d : Plan} (hc : c.Described)
    (hd : d.IsScripted) (hnone : c.get? a = none)
    (hdeps : ∀ b ∈ d.dependencies, (c.get? b).isSome) (h : c.add script a d = .ok c') :
    c'.Described ∧ c.Extends c' ∧ ∃ x, c'.get? a = some x ∧ Solves script c' d x := by
  have hkeeps := keeps_add hnone h
  obtain ⟨bound, r, x, hbind, hanalyze, rfl⟩ := add_eq_ok h
  obtain ⟨htuples, hsel, hreg, hr, hext, hbound⟩ :=
    (binds_bindPlan c.compiled a hd).sound hc hbind
  have hsolves : Solves script ⟨r, c.compiled⟩ d x := by
    refine ⟨hdeps, htuples, hsel, hreg, ?_⟩
    rw [← hbound r hr (Registry.Extends.refl r)]
    exact hanalyze
  have hc' : Described ⟨r, (a, x) :: c.compiled⟩ := by
    refine hr.cons hnone fun q hq => ?_
    rcases hsolves.placeholder_origin hd hq with ⟨ref, href, rfl⟩ | ⟨b, y, -, hy, hqy⟩
    · obtain ⟨id, hid⟩ := hreg ref href
      rw [placeholding, hr.idOf_eq hid]
      exact hid.lt
    · exact hr.known b y hy q hqy
  exact ⟨hc', ⟨hkeeps, hext⟩, x, by simp [get?],
    hsolves.extend ⟨hkeeps, Registry.Extends.refl r⟩ hr hc'⟩

theorem exists_add (script : Script) {c : Compilation} {d : Plan} (hc : c.Described)
    (hd : d.IsScripted) (hrelations : NoRelationRefs d)
    (hselects : Selects c.compiled d.scalarRefs)
    (hanalyze : ∀ r : Registry, r.Describes c.compiled → c.registry.Extends r → ∃ found,
      (relationScope script c.compiled).analyze (d.substitute (placeholding c.compiled r)) =
        .ok found) (a : String) : ∃ c', c.add script a d = .ok c' := by
  have hbinds := binds_bindPlan c.compiled a hd
  obtain ⟨bound, r, hbind⟩ := hbinds.complete hrelations hselects hc
  obtain ⟨-, -, -, hr, hext, hbound⟩ := hbinds.sound hc hbind
  obtain ⟨⟨plan, schema⟩, hfound⟩ := hanalyze r hr hext
  rw [← hbound r hr (Registry.Extends.refl r)] at hfound
  exact ⟨_, bind_eq_ok.mpr ⟨_, hbind, bind_eq_ok.mpr ⟨_, hfound, rfl⟩⟩⟩

theorem Built.described (hscript : script.IsScripted) {c : Compilation}
    (h : Built script roots c) : c.Described := by
  induction h with
  | empty => exact Registry.describes_nil
  | add _ _ hd hnone hdeps hadd ih =>
      exact (add_spec ih (hscript.of_get? hd) hnone hdeps hadd).1

theorem Built.solves (hscript : script.IsScripted) {c : Compilation} (h : Built script roots c)
    {a : String} {x : CompiledAlias} (hx : c.get? a = some x) :
    ∃ d, script.get? a = some d ∧ Solves script c d x := by
  induction h generalizing a x with
  | empty => cases hx
  | @add c c' b d hb _ hd hnone hdeps hadd ih =>
      have hc := hb.described hscript
      obtain ⟨hc', hext, y, hy, hsolves⟩ := add_spec hc (hscript.of_get? hd) hnone hdeps hadd
      by_cases hab : a = b
      · subst hab
        rw [hy] at hx
        cases hx
        exact ⟨d, hd, hsolves⟩
      · obtain ⟨z, hz⟩ := get?_add hadd
        rw [hz, if_neg hab] at hx
        obtain ⟨e, he, hold⟩ := ih hx
        exact ⟨e, he, hold.extend hext hc hc'⟩

theorem Built.solves_of_get? (hscript : script.IsScripted) {c : Compilation}
    (h : Built script roots c) {a : String} {d : Plan} (hd : script.get? a = some d)
    {x : CompiledAlias} (hx : c.get? a = some x) : Solves script c d x := by
  obtain ⟨d', hd', hsolves⟩ := h.solves hscript hx
  cases hd.symm.trans hd'
  exact hsolves

/-- What follows for a compiled alias from what holds of its dependencies holds of all. -/
theorem Built.induction (hscript : script.IsScripted) {c : Compilation}
    (h : Built script roots c) {P : String → CompiledAlias → Prop}
    (hstep : ∀ a d x, script.get? a = some d → d.IsScripted → Solves script c d x →
      (∀ b ∈ d.dependencies, ∀ y, c.get? b = some y → P b y) → P a x)
    {a : String} {x : CompiledAlias} (hx : c.get? a = some x) : P a x := by
  have hacc : Acc script.ReadBy a := h.acc (by rw [hx]; rfl)
  induction hacc generalizing x with
  | intro a _ ih =>
      obtain ⟨d, hd, hsolves⟩ := h.solves hscript hx
      exact hstep a d x hd (hscript.of_get? hd) hsolves fun b hb y hy => ih b ⟨d, hd, hb⟩ hy

end Compilation

end RelScript
