import RelScript.Proofs.Encoding.Fingerprint
import RelScript.Proofs.Unit.Bookkeeping
import RelScript.Proofs.Unit.InlinedPlans
import RelScript.Proofs.Unit.Sharing

/-!
Which scalars with one meaning share a side input. An alias means its definition with everything
replaced in it that it mentions, relations and scalars. Aliases that mean the same share a side
input if their inlined definitions name the same scalars, and not otherwise: a placeholder keeps the
name of the relation that it reads, and the fingerprint shows it.
-/

namespace RelScript

theorem Expr.scalarNames_mapLiterals (f : Literal → Literal) (e : Expr) :
    (e.mapLiterals f).scalarNames = e.scalarNames := by
  induction e with
  | binary l _ r ihl ihr | junction _ l r ihl ihr =>
      exact congrArg₂ (· ++ ·) ihl ihr
  | cast e _ ih | not e ih => exact ih
  | _ => rfl

theorem Plan.scalarNames_legible (p : Plan) : p.legible.scalarNames = p.scalarNames := by
  rw [legible, mapLiterals, scalarNames, allExprs_mapExprs, List.flatMap_map, scalarNames]
  exact List.flatMap_congr fun e _ => e.scalarNames_mapLiterals _

/-- A definition with everything replaced that it mentions: the definition with its relations
inlined and the names of its scalars taken out, the positions of its columns, since a column may be
qualified by the name of a relation, and what its scalars mean, in order. -/
inductive Unfolded
  | mk (plan : Plan) (columns : List Nat) (scalars : List Unfolded)

namespace Compilation

/-- What an alias means. -/
inductive Unfolds (script : Script) (c : Compilation) : String → Unfolded → Prop
  | intro {a : String} {p : Plan} {x : CompiledAlias} {scalars : List Unfolded} :
    script.Inlined a p → c.get? a = some x →
      List.Forall₂ (Unfolds script c) (p.scalarRefs.map (·.1)) scalars →
        Unfolds script c a (.mk p.nameless x.plan.columnIndices scalars)

variable {script : Script} {roots : List String} {c : Compilation}

theorem Unfolds.exists_inlined {a : String} {plan : Plan} {columns : List Nat}
    {scalars : List Unfolded} (h : Unfolds script c a (.mk plan columns scalars)) :
    ∃ p x, script.Inlined a p ∧ c.get? a = some x ∧ p.nameless = plan ∧
      x.plan.columnIndices = columns := by
  cases h with
  | intro hp hx _ => exact ⟨_, _, hp, hx, rfl, rfl⟩

theorem Built.exists_inlined (h : Built script roots c) {a : String} (ha : (c.get? a).isSome) :
    ∃ p, script.Inlined a p ∧ ∀ ref ∈ p.scalarRefs, ∃ tree, Unfolds script c ref.1 tree := by
  have hacc := h.acc ha
  induction hacc with
  | intro a _ ih =>
      obtain ⟨d, hd, hreads⟩ := h.exists_definition ha
      have hdependency : ∀ b ∈ d.dependencies, ∃ p, script.Inlined b p ∧
          ∀ ref ∈ p.scalarRefs, ∃ tree, Unfolds script c ref.1 tree :=
        fun b hb => ih b ⟨d, hd, hb⟩ (hreads b (Plan.mem_dependencies_iff.mp hb))
      refine Script.exists_inlined (P := fun b => ∃ tree, Unfolds script c b tree) hd
        (fun ref href => ?_) fun b hb => hdependency b (Plan.mem_dependencies_of_relation hb)
      have hmem := Plan.mem_dependencies_of_scalar href
      obtain ⟨x, hx⟩ := Option.isSome_iff_exists.mp
        (hreads ref.1 (Plan.mem_dependencies_iff.mp hmem))
      obtain ⟨p, hp, hscalars⟩ := hdependency ref.1 hmem
      obtain ⟨trees, htrees⟩ := exists_forall₂ (List.forall_mem_map.mpr hscalars)
      exact ⟨_, .intro hp hx htrees⟩

theorem Built.exists_unfolds (h : Built script roots c) {a : String} (ha : (c.get? a).isSome) :
    ∃ tree, Unfolds script c a tree := by
  obtain ⟨x, hx⟩ := Option.isSome_iff_exists.mp ha
  obtain ⟨p, hp, hscalars⟩ := h.exists_inlined ha
  obtain ⟨trees, htrees⟩ := exists_forall₂ (List.forall_mem_map.mpr hscalars)
  exact ⟨_, .intro hp hx htrees⟩

/-- The fingerprints of aliases that mean the same differ exactly by the names of scalars. -/
theorem Built.fingerprint_eq_iff_scalarNames_eq (h : Built script roots c) {a b : String}
    {p q : Plan} {x y : CompiledAlias} (hp : script.Inlined a p) (hq : script.Inlined b q)
    (hx : c.get? a = some x) (hy : c.get? b = some y) (hnameless : p.nameless = q.nameless)
    (hcolumns : x.plan.columnIndices = y.plan.columnIndices) :
    x.plan.fingerprint = y.plan.fingerprint ↔ p.scalarNames = q.scalarNames := by
  have hpx := h.compilesTo hp hx
  have hqy := h.compilesTo hq hy
  constructor
  · intro heq
    have hlegible := congrArg Plan.scalarNames (Plan.fingerprint_eq_iff.mp heq)
    rwa [Plan.scalarNames_legible, Plan.scalarNames_legible, hpx.scalarNames,
      hqy.scalarNames] at hlegible
  · intro hnames
    obtain ⟨rfl, -⟩ := Plan.eq_of_nameless hnameless (congrArg (· ++ []) hnames)
    obtain ⟨hplans, -, -⟩ := hpx.determined hqy (congrArg (· ++ []) hcolumns)
    rw [hplans]

end Compilation

namespace Script

variable {script : Script} {statements : List Statement} {u : CompiledUnit}

/-- In an accepted unit every alias that is read as a scalar means something, and two of them that
mean the same share a side input if and only if their inlined definitions name the same scalars. -/
theorem compile_shares_unfolded_iff (h : script.compile statements = .ok u) :
    ∃ c, Compilation.compileStatements script .empty statements = .ok (u.statements, c) ∧
      ∀ a, (∃ r, script.Reached (statements.map (·.aliasName)) r ∧ script.TakesScalar r a) →
        (∃ tree, Compilation.Unfolds script c a tree) ∧
          ∀ b, (∃ r, script.Reached (statements.map (·.aliasName)) r ∧ script.TakesScalar r b) →
            ∀ tree, Compilation.Unfolds script c a tree → Compilation.Unfolds script c b tree →
              ∃ p q, script.Inlined a p ∧ script.Inlined b q ∧
                ((∃ s ∈ u.sideInputs, a ∈ s.aliases ∧ b ∈ s.aliases) ↔
                  p.scalarNames = q.scalarNames) := by
  obtain ⟨c, hc, hsides⟩ := compile_eq_ok.mp h
  obtain ⟨hgrown, -⟩ := Compilation.grown_of_compileStatements .empty
    (fun s hs => script.reached_of_mem (List.mem_map_of_mem hs)) hc
  have hbuilt := hgrown.built
  have hused : ∀ a, (∃ r, script.Reached (statements.map (·.aliasName)) r ∧
      script.TakesScalar r a) → ∃ s ∈ c.registry, a ∈ s.aliases := by
    rintro a ⟨r, hr, htakes⟩
    exact hbuilt.registered_iff.mpr ⟨r, (hbuilt.isSome_iff_reached hgrown.compiled).mpr hr, htakes⟩
  refine ⟨c, hc, fun a ha => ⟨?_, fun b hb tree htree htree' => ?_⟩⟩
  · obtain ⟨s, hs, has⟩ := hused a ha
    obtain ⟨x, hx, -⟩ := hbuilt.indexes.alike s hs a has
    exact hbuilt.exists_unfolds (Option.isSome_iff_exists.mpr ⟨x, hx⟩)
  · obtain ⟨plan, columns, scalars⟩ := tree
    obtain ⟨p, x, hp, hx, hplan, hcolumns⟩ := htree.exists_inlined
    obtain ⟨q, y, hq, hy, hplan', hcolumns'⟩ := htree'.exists_inlined
    refine ⟨p, q, hp, hq, ?_⟩
    rw [hsides, hbuilt.indexes.shares_iff hx hy (hused a ha) (hused b hb)]
    exact hbuilt.fingerprint_eq_iff_scalarNames_eq hp hq hx hy (hplan.trans hplan'.symm)
      (hcolumns.trans hcolumns'.symm)

/-- A table of one column. -/
def countedTable : Plan := .load "t" (some [⟨"x", .int64, true⟩])

/-- The number of the rows of a relation. -/
def countOf (source : String) : Plan :=
  .aggregate [] [⟨⟨.count, .position 0⟩, "n"⟩] (.relation source)

/-- A number that is read as a scalar, in one row. -/
def rowOf (number source : String) : Plan :=
  .project [⟨.scalarRef number (.name "n"), "v"⟩] (.limit 1 (.relation source))

/-- A script in which the rows of a table are counted twice, under two names. Two rows hold the
first number and a third row holds the second one. -/
def countedTwice : Script :=
  ⟨[("lines", countedTable), ("again", countedTable),
    ("number", countOf "lines"), ("total", countOf "again"),
    ("first", rowOf "number" "lines"), ("second", rowOf "number" "again"),
    ("third", rowOf "total" "lines"),
    ("top", .project [⟨.scalarRef "first" (.name "v"), "p"⟩, ⟨.scalarRef "second" (.name "v"), "q"⟩,
      ⟨.scalarRef "third" (.name "v"), "r"⟩] (.relation "lines"))]⟩

/-- What all three rows mean. -/
def countedRow : Unfolded :=
  .mk (.project [⟨.scalarRef "" (.name "n"), "v"⟩] (.limit 1 countedTable)) []
    [.mk (.aggregate [] [⟨⟨.count, .position 0⟩, "n"⟩] countedTable) [0] []]

/-- A row of a number, its table inlined. -/
def inlinedRow (number : String) : Plan :=
  .project [⟨.scalarRef number (.name "n"), "v"⟩] (.limit 1 countedTable)

theorem inlined_countedTable {a : String} (ha : countedTwice.get? a = some countedTable) :
    countedTwice.Inlined a countedTable :=
  .intro (fun _ => countedTable) ha fun _ hb => nomatch List.mem_singleton.mp hb

theorem inlined_rowOf {a number source : String}
    (ha : countedTwice.get? a = some (rowOf number source))
    (hsource : countedTwice.get? source = some countedTable) :
    countedTwice.Inlined a (inlinedRow number) := by
  refine .intro (fun _ => countedTable) ha fun b hb => ?_
  cases List.mem_singleton.mp hb
  exact inlined_countedTable hsource

theorem inlined_countOf {a source : String} (ha : countedTwice.get? a = some (countOf source))
    (hsource : countedTwice.get? source = some countedTable) :
    countedTwice.Inlined a (.aggregate [] [⟨⟨.count, .position 0⟩, "n"⟩] countedTable) := by
  refine .intro (fun _ => countedTable) ha fun b hb => ?_
  cases List.mem_singleton.mp hb
  exact inlined_countedTable hsource

theorem unfolds_rowOf {c : Compilation} {a number source source' : String} {x y : CompiledAlias}
    (ha : countedTwice.get? a = some (rowOf number source))
    (hsource : countedTwice.get? source = some countedTable)
    (hnumber : countedTwice.get? number = some (countOf source'))
    (hsource' : countedTwice.get? source' = some countedTable) (hx : c.get? a = some x)
    (hxcolumns : x.plan.columnIndices = []) (hy : c.get? number = some y)
    (hycolumns : y.plan.columnIndices = [0]) :
    Compilation.Unfolds countedTwice c a countedRow := by
  have hcount := Compilation.Unfolds.intro (inlined_countOf hnumber hsource') hy .nil
  rw [hycolumns] at hcount
  have hrow := Compilation.Unfolds.intro (inlined_rowOf ha hsource) hx (.cons hcount .nil)
  rwa [hxcolumns] at hrow

theorem countedTwice_reads {a : String} (ha : a = "first" ∨ a = "second" ∨ a = "third") :
    ∃ r, countedTwice.Reached ["top"] r ∧ countedTwice.TakesScalar r a := by
  refine ⟨"top", countedTwice.reached_of_mem (List.mem_singleton.mpr rfl), _, rfl,
    .scalarRef a (.name "v"), ?_, rfl⟩
  rcases ha with rfl | rfl | rfl <;> simp [Plan.allExprs, Plan.nodes, Plan.exprs]

theorem compile_countedTwice : ∃ u c,
    countedTwice.compile [⟨"top", .collect⟩] = .ok u ∧
      Compilation.compileStatements countedTwice .empty [⟨"top", .collect⟩] =
        .ok (u.statements, c) ∧
      u.sideInputs.map (·.aliases) = [["number", "total"], ["first", "second"], ["third"]] ∧
      ∀ a ∈ ["first", "second", "third"], Compilation.Unfolds countedTwice c a countedRow := by
  have hrun : (Compilation.compileStatements countedTwice .empty [⟨"top", .collect⟩]).toOption.map
      (fun r => (r.2.registry.map (·.aliases), ["number", "total", "first", "second", "third"].map
        fun a => (r.2.get? a).map (·.plan.columnIndices))) =
      some ([["number", "total"], ["first", "second"], ["third"]],
        [some [0], some [0], some [], some [], some []]) := by
    cbv
  obtain ⟨⟨compiled, c⟩, hcompiled, hfound⟩ := Option.map_eq_some_iff.mp hrun
  have hc := toOption_eq_some.mp hcompiled
  obtain ⟨haliases, hcolumns⟩ := Prod.mk.inj hfound
  simp only [List.map_cons, List.map_nil, List.cons.injEq, Option.map_eq_some_iff, and_true]
    at hcolumns
  obtain ⟨⟨m, hm, hmc⟩, ⟨n, hn, hnc⟩, ⟨x, hx, hxc⟩, ⟨y, hy, hyc⟩, ⟨z, hz, hzc⟩⟩ := hcolumns
  refine ⟨⟨compiled, c.registry⟩, c, Script.compile_eq_ok.mpr ⟨c, hc, rfl⟩, hc, haliases, ?_⟩
  exact List.forall_mem_cons.mpr ⟨unfolds_rowOf rfl rfl rfl rfl hx hxc hm hmc,
    List.forall_mem_cons.mpr ⟨unfolds_rowOf rfl rfl rfl rfl hy hyc hm hmc,
      List.forall_mem_singleton.mpr (unfolds_rowOf rfl rfl rfl rfl hz hzc hn hnc)⟩⟩

/-- Two rows that mean the same and name one scalar share a side input. -/
theorem countedTwice_shares : ∃ u c,
    countedTwice.compile [⟨"top", .collect⟩] = .ok u ∧
      Compilation.Unfolds countedTwice c "first" countedRow ∧
      Compilation.Unfolds countedTwice c "second" countedRow ∧
      ∃ s ∈ u.sideInputs, "first" ∈ s.aliases ∧ "second" ∈ s.aliases := by
  obtain ⟨u, c, hu, hc, -, htrees⟩ := compile_countedTwice
  obtain ⟨hfirst, hsecond, -⟩ := List.forall_mem_cons.mp htrees |>.imp_right List.forall_mem_cons.mp
  obtain ⟨c', hc', hshares⟩ := compile_shares_unfolded_iff hu
  cases hc.symm.trans hc'
  obtain ⟨p, q, hp, hq, hiff⟩ := (hshares "first" (countedTwice_reads (.inl rfl))).2 "second"
    (countedTwice_reads (.inr (.inl rfl))) countedRow hfirst hsecond
  refine ⟨u, c, hu, hfirst, hsecond, hiff.mpr ?_⟩
  rw [hp.unique (inlined_rowOf rfl rfl), hq.unique (inlined_rowOf rfl rfl)]

/-- The third row means what the first one means, and does not share its side input: the two have
different names for the number that they read. -/
theorem countedTwice_unshared : ∃ u c,
    countedTwice.compile [⟨"top", .collect⟩] = .ok u ∧
      Compilation.compileStatements countedTwice .empty [⟨"top", .collect⟩] =
        .ok (u.statements, c) ∧
      (∃ r, countedTwice.Reached ["top"] r ∧ countedTwice.TakesScalar r "first") ∧
      (∃ r, countedTwice.Reached ["top"] r ∧ countedTwice.TakesScalar r "third") ∧
      Compilation.Unfolds countedTwice c "first" countedRow ∧
      Compilation.Unfolds countedTwice c "third" countedRow ∧
      ¬ ∃ s ∈ u.sideInputs, "first" ∈ s.aliases ∧ "third" ∈ s.aliases := by
  obtain ⟨u, c, hu, hc, haliases, htrees⟩ := compile_countedTwice
  refine ⟨u, c, hu, hc, countedTwice_reads (.inl rfl), countedTwice_reads (.inr (.inr rfl)),
    htrees _ (by decide), htrees _ (by decide), ?_⟩
  rintro ⟨s, hs, hfirst, hthird⟩
  have hmem : s.aliases ∈ [["number", "total"], ["first", "second"], ["third"]] :=
    haliases ▸ List.mem_map_of_mem hs
  simp only [List.mem_cons, List.not_mem_nil, or_false] at hmem
  rcases hmem with h | h | h <;> rw [h] at hfirst hthird
  · exact absurd hthird (by decide)
  · exact absurd hthird (by decide)
  · exact absurd hfirst (by decide)

end Script

end RelScript
