import Mathlib.Data.List.Nodup
import RelScript.Proofs.Script.ScalarAsking
import RelScript.Proofs.Unit.Closure
import RelScript.Proofs.Unit.Numbering

/-!
The side inputs of a unit are kept exactly. Every alias that some definition takes a field of has
one side input and stands there once; every side input lists, each once, the aliases whose own
definitions take fields of it, and no two side inputs have one fingerprint.
-/

namespace RelScript

/-- The definition of `a` takes a field of `b` as a scalar. -/
def Script.TakesScalar (script : Script) (a b : String) : Prop :=
  ∃ d, script.get? a = some d ∧ ∃ e ∈ d.allExprs, e.ReadsScalar b

/-- Side inputs that list exactly the scalars of what the roots reach, and who reads them. -/
structure Script.KeepsBooks (script : Script) (roots : List String)
    (entries : List SideInput) : Prop where
  aliases_nodup : ∀ s ∈ entries, s.aliases.Nodup
  aliases_disjoint : entries.Pairwise fun s t => s.aliases.Disjoint t.aliases
  registered : ∀ b, (∃ s ∈ entries, b ∈ s.aliases) ↔
    ∃ a, script.Reached roots a ∧ script.TakesScalar a b
  fingerprints_nodup : (entries.map (·.fingerprint)).Nodup
  consumers_nodup : ∀ s ∈ entries, s.consumers.Nodup
  consumers : ∀ s ∈ entries, ∀ a, a ∈ s.consumers ↔
    script.Reached roots a ∧ ∃ b ∈ s.aliases, script.TakesScalar a b

theorem Plan.exists_readsScalar_iff {p : Plan} {a : String} :
    (∃ e ∈ p.allExprs, e.ReadsScalar a) ↔ a ∈ p.visitedRefs.map (·.1) := by
  have hvisited : a ∈ p.visitedRefs.map (·.1) ↔ a ∈ p.scalarRefs.map (·.1) := by
    simp only [List.mem_map, mem_visitedRefs]
  rw [hvisited, ← mem_scalarAliases]
  simp only [scalarAliases, allExprs, List.mem_eraseDups, List.mem_flatMap, List.mem_filterMap,
    Expr.exists_scalarAlias_iff]

namespace Registry

/-- The side input with one more reader, if it has the number and not the reader. -/
def noted (id : SideInputId) (consumer : String) (t : SideInput) : SideInput :=
  if t.id = id ∧ consumer ∉ t.consumers then { t with consumers := t.consumers ++ [consumer] }
  else t

theorem aliases_noted (id : SideInputId) (consumer : String) (t : SideInput) :
    (noted id consumer t).aliases = t.aliases := by
  unfold noted
  split <;> rfl

theorem nodup_consumers_noted {id : SideInputId} {consumer : String} {t : SideInput}
    (h : t.consumers.Nodup) : (noted id consumer t).consumers.Nodup := by
  unfold noted
  split
  · rename_i hnew
    exact List.nodup_append.mpr ⟨h, List.nodup_singleton _, by
      rintro a ha b hb rfl
      exact hnew.2 (List.mem_singleton.mp hb ▸ ha)⟩
  · exact h

theorem mem_consumers_noted {id : SideInputId} {consumer a : String} {t : SideInput} :
    a ∈ (noted id consumer t).consumers ↔ a ∈ t.consumers ∨ t.id = id ∧ a = consumer := by
  unfold noted
  split
  · rename_i hnew
    simp [hnew.1]
  · rename_i hold
    constructor
    · exact Or.inl
    · rintro (ha | ⟨hid, rfl⟩)
      · exact ha
      · by_contra hnew
        exact hold ⟨hid, hnew⟩

theorem mem_aliases_joined {id : SideInputId} {a b : String} {t : SideInput} :
    b ∈ (joined id a t).aliases ↔ b ∈ t.aliases ∨ t.id = id ∧ b = a := by
  unfold joined
  split <;> simp_all

theorem consumers_joined (id : SideInputId) (a : String) (t : SideInput) :
    (joined id a t).consumers = t.consumers := by
  unfold joined
  split <;> rfl

/-- The side inputs list the aliases of `known` and no others. An alias is listed as a reader where
`notes` say that it reads one of the aliases. -/
structure Books (known : List String) (notes : List (String × String)) (r : Registry) : Prop where
  aliases_nodup : ∀ s ∈ r, s.aliases.Nodup
  listed : ∀ b, (∃ s ∈ r, b ∈ s.aliases) ↔ b ∈ known
  consumers_nodup : ∀ s ∈ r, s.consumers.Nodup
  consumers : ∀ s ∈ r, ∀ a, a ∈ s.consumers ↔ ∃ b ∈ s.aliases, (a, b) ∈ notes
  noted : ∀ n ∈ notes, n.2 ∈ known

variable {compiled : List (String × CompiledAlias)} {known : List String}
  {notes : List (String × String)} {r : Registry}

theorem books_nil : Books [] [] [] := by
  constructor <;> simp

theorem Books.join (h : r.Books known notes) {a : String} (ha : ∀ s ∈ r, a ∉ s.aliases)
    {s : SideInput} (hs : s ∈ r) : Books (a :: known) notes (r.map (joined s.id a)) where
  aliases_nodup := by
    refine List.forall_mem_map.mpr fun t ht => ?_
    unfold joined
    split
    · refine List.nodup_append.mpr ⟨h.aliases_nodup t ht, List.nodup_singleton _, ?_⟩
      rintro b hb c hc rfl
      exact ha t ht (List.mem_singleton.mp hc ▸ hb)
    · exact h.aliases_nodup t ht
  listed b := by
    simp only [List.mem_map, exists_exists_and_eq_and, mem_aliases_joined, List.mem_cons,
      ← h.listed b]
    constructor
    · rintro ⟨t, ht, hb | ⟨-, rfl⟩⟩
      · exact Or.inr ⟨t, ht, hb⟩
      · exact Or.inl rfl
    · rintro (rfl | ⟨t, ht, hb⟩)
      · exact ⟨s, hs, Or.inr ⟨rfl, rfl⟩⟩
      · exact ⟨t, ht, Or.inl hb⟩
  consumers_nodup := by
    refine List.forall_mem_map.mpr fun t ht => ?_
    rw [consumers_joined]
    exact h.consumers_nodup t ht
  consumers := by
    refine List.forall_mem_map.mpr fun t ht b => ?_
    rw [consumers_joined, h.consumers t ht]
    refine exists_congr fun c => and_congr_left fun hc => ?_
    rw [mem_aliases_joined]
    -- nothing that is noted reads the new alias
    refine ⟨Or.inl, fun hca => hca.resolve_right ?_⟩
    rintro ⟨-, rfl⟩
    obtain ⟨u, hu, hcu⟩ := (h.listed c).mpr (h.noted _ hc)
    exact ha u hu hcu
  noted n hn := List.mem_cons_of_mem _ (h.noted n hn)

theorem Books.append (h : r.Books known notes) {a : String} (ha : ∀ s ∈ r, a ∉ s.aliases)
    {s : SideInput} (hs : s.aliases = [a]) (hconsumers : s.consumers = []) :
    Books (a :: known) notes (r ++ [s]) where
  aliases_nodup := List.forall_mem_append.mpr ⟨h.aliases_nodup, List.forall_mem_singleton.mpr
    (hs ▸ List.nodup_singleton a)⟩
  listed b := by
    rw [List.mem_cons, or_comm, ← h.listed b]
    simp only [List.mem_append, or_and_right, exists_or, List.mem_singleton, exists_eq_left, hs]
  consumers_nodup := List.forall_mem_append.mpr ⟨h.consumers_nodup, List.forall_mem_singleton.mpr
    (hconsumers ▸ List.nodup_nil)⟩
  consumers := by
    refine List.forall_mem_append.mpr ⟨h.consumers, List.forall_mem_singleton.mpr fun b => ?_⟩
    rw [hs, hconsumers]
    refine ⟨nofun, ?_⟩
    rintro ⟨c, hc, hnote⟩
    obtain ⟨t, ht, hct⟩ := (h.listed c).mpr (h.noted _ hnote)
    exact absurd (List.mem_singleton.mp hc ▸ hct) (ha t ht)
  noted n hn := List.mem_cons_of_mem _ (h.noted n hn)

theorem Books.register (h : r.Books known notes) (a : String) (plan : Plan)
    (schema : RelationSchema) :
    Books (a :: known) notes (r.register a plan schema).2 := by
  rcases r.register_cases a plan schema with
    ⟨s, hs, ha, heq⟩ | ⟨ha, ⟨s, hs, -, heq⟩ | ⟨-, heq⟩⟩
  · rw [heq]
    have hold : a ∈ known := (h.listed a).mp ⟨s, hs, ha⟩
    refine ⟨h.aliases_nodup, fun b => ?_, h.consumers_nodup, h.consumers, fun n hn => ?_⟩
    · rw [h.listed b, List.mem_cons]
      exact ⟨Or.inr, fun hb => hb.elim (fun hba => hba ▸ hold) id⟩
    · exact List.mem_cons_of_mem _ (h.noted n hn)
  · rw [heq]
    exact h.join ha hs
  · rw [heq]
    exact h.append ha rfl rfl

theorem Books.addConsumer (h : r.Books known notes) (hr : r.Indexes compiled) {a : String}
    {id : SideInputId} (ha : r.Holds a id) (consumer : String) :
    Books known ((consumer, a) :: notes) (r.addConsumer id consumer) := by
  obtain ⟨s, hs, has⟩ := ha
  have hmem := List.mem_of_getElem? hs
  have hid : ∀ t ∈ r, t.id = id ↔ a ∈ t.aliases := by
    intro t ht
    constructor
    · intro hti
      rw [hr.eq_of_id ht hmem (hti.trans (hr.numbered id s hs).symm)]
      exact has
    · intro hat
      rw [hr.aliasOnce t ht s hmem a hat has]
      exact hr.numbered id s hs
  change Books known _ (r.map (Registry.noted id consumer))
  constructor
  · refine List.forall_mem_map.mpr fun t ht => ?_
    rw [aliases_noted]
    exact h.aliases_nodup t ht
  · intro b
    simp only [List.mem_map, exists_exists_and_eq_and, aliases_noted, h.listed b]
  · exact List.forall_mem_map.mpr fun t ht => nodup_consumers_noted (h.consumers_nodup t ht)
  · refine List.forall_mem_map.mpr fun t ht b => ?_
    rw [mem_consumers_noted, h.consumers t ht, hid t ht, aliases_noted]
    constructor
    · rintro (⟨c, hc, hnote⟩ | ⟨hat, rfl⟩)
      · exact ⟨c, hc, List.mem_cons_of_mem _ hnote⟩
      · exact ⟨a, hat, List.mem_cons_self⟩
    · rintro ⟨c, hc, hnote⟩
      rcases List.mem_cons.mp hnote with heq | hnote
      · cases heq
        exact Or.inr ⟨hc, rfl⟩
      · exact Or.inl ⟨c, hc, hnote⟩
  · exact List.forall_mem_cons.mpr ⟨(h.listed a).mp ⟨s, hmem, has⟩, h.noted⟩

end Registry

namespace Compilation

variable {script : Script} {roots : List String} {known : List String}
  {notes : List (String × String)} {r : Registry}

theorem books_placeholders {compiled : List (String × CompiledAlias)} {consumer : String}
    {refs : List (String × FieldSelector)} {r' : Registry} {ps : List Placeholder}
    (hrun : (scalarScope compiled consumer).placeholders refs r = .ok (ps, r'))
    (hr : r.Indexes compiled) (h : r.Books known notes) :
    r'.Books ((refs.map (·.1)).reverse ++ known)
      ((refs.map fun ref => (consumer, ref.1)).reverse ++ notes) := by
  induction refs generalizing r known notes ps with
  | nil =>
      obtain ⟨-, rfl⟩ := ScalarScope.placeholders_nil_eq_ok.mp hrun
      exact h
  | cons ref refs ih =>
      obtain ⟨p, t, rest, hp, hrest, -⟩ := ScalarScope.placeholders_cons_eq_ok.mp hrun
      obtain ⟨_, _, _, id, -, -, hid, -⟩ := ScalarScope.placeholder_eq_ok.mp hp
      obtain ⟨x, hx, rfl, rfl⟩ := sideInput_eq_ok.mp hid
      obtain ⟨hindexes, -, hholds⟩ := hr.register hx (Prod.mk.eta).symm
      have hnoted := (h.register ref.1 x.plan x.schema).addConsumer hindexes hholds consumer
      simpa using ih hrest (hindexes.addConsumer _ consumer) hnoted

theorem Built.exists_books {c : Compilation} (h : Built script roots c) :
    ∃ known notes, c.registry.Books known notes ∧
      (∀ b, b ∈ known ↔ ∃ a, (a, b) ∈ notes) ∧
        ∀ a b, (a, b) ∈ notes ↔ (c.get? a).isSome ∧ script.TakesScalar a b := by
  induction h with
  | empty => exact ⟨[], [], Registry.books_nil, by simp, by simp [Compilation.empty, get?]⟩
  | @add c c' a d hb _ hd hnone _ hadd ih =>
      obtain ⟨known, notes, hbooks, hknown, hnotes⟩ := ih
      obtain ⟨x, hx⟩ := get?_add hadd
      obtain ⟨bound, r, y, hbind, -, rfl⟩ := add_eq_ok hadd
      obtain ⟨result, hresult⟩ := ScalarScope.asks_bindPlan d
      obtain ⟨-, ps, hps, -⟩ := (hresult ..).mp hbind
      refine ⟨_, _, books_placeholders hps hb.indexes hbooks, fun b => ?_, fun a' b => ?_⟩
      · simp only [List.mem_append, List.mem_reverse, List.mem_map, hknown b, Prod.mk.injEq]
        constructor
        · rintro (⟨ref, href, rfl⟩ | ⟨e, he⟩)
          · exact ⟨a, Or.inl ⟨ref, href, rfl, rfl⟩⟩
          · exact ⟨e, Or.inr he⟩
        · rintro ⟨e, ⟨ref, href, -, rfl⟩ | he⟩
          · exact Or.inl ⟨ref, href, rfl⟩
          · exact Or.inr ⟨e, he⟩
      · have htakes : script.TakesScalar a b ↔ b ∈ d.visitedRefs.map (·.1) := by
          rw [Script.TakesScalar, hd]
          simp [Plan.exists_readsScalar_iff]
        rw [hx, List.mem_append, hnotes a' b]
        by_cases ha : a' = a
        · subst ha
          rw [if_pos rfl, hnone, htakes]
          simp
        · rw [if_neg ha]
          simp [Ne.symm ha]

theorem Built.registered_iff {c : Compilation} (h : Built script roots c) {b : String} :
    (∃ s ∈ c.registry, b ∈ s.aliases) ↔ ∃ a, (c.get? a).isSome ∧ script.TakesScalar a b := by
  obtain ⟨known, notes, hbooks, hknown, hnotes⟩ := h.exists_books
  rw [hbooks.listed b, hknown b]
  simp only [hnotes]

/-- Compiled are the aliases that the roots reach, once the roots themselves are. -/
theorem Built.isSome_iff_reached {c : Compilation} (h : Built script roots c)
    (hroots : ∀ a ∈ roots, (c.get? a).isSome) {a : String} :
    (c.get? a).isSome ↔ script.Reached roots a := by
  refine ⟨h.reached, ?_⟩
  rintro ⟨root, hroot, hpath⟩
  refine h.isSome_of_leadsTo (hroots root hroot) (Relation.reflTransGen_swap.mp ?_)
  refine Relation.ReflTransGen.mono (fun b c => ?_) _ _ hpath
  rintro ⟨d, hd, hb⟩
  exact ⟨d, hd, Plan.mem_dependencies_iff.mp hb⟩

end Compilation

namespace Script

variable {script : Script} {statements : List Statement} {u : CompiledUnit}

/-- The side inputs of every accepted unit list exactly the aliases that are read as scalars and
exactly the aliases that read them, without duplicates, and no fingerprint twice. -/
theorem compile_keepsBooks (h : script.compile statements = .ok u) :
    script.KeepsBooks (statements.map (·.aliasName)) u.sideInputs := by
  obtain ⟨c, hbuilt, hsides, hstatements⟩ := built_of_compile h
  have hreached : ∀ a, (c.get? a).isSome ↔
      script.Reached (statements.map (·.aliasName)) a := by
    intro a
    refine hbuilt.isSome_iff_reached (List.forall_mem_map.mpr fun s hs => ?_)
    obtain ⟨t, -, x, hx, -⟩ := forall_right_of_forall₂ hstatements.flip s hs
    exact Option.isSome_iff_exists.mpr ⟨x, hx⟩
  have hindexes := hbuilt.indexes
  obtain ⟨known, notes, hbooks, -, hnotes⟩ := hbuilt.exists_books
  have hplace : ∀ i j (hi : i < c.registry.length) (hj : j < c.registry.length),
      c.registry[i] = c.registry[j] → i = j := by
    intro i j hi hj heq
    rw [← hindexes.numbered i _ (List.getElem?_eq_getElem hi), heq,
      hindexes.numbered j _ (List.getElem?_eq_getElem hj)]
  rw [hsides]
  constructor
  · exact hbooks.aliases_nodup
  · refine List.pairwise_iff_getElem.mpr fun i j hi hj hij a hai haj => hij.ne (hplace i j hi hj ?_)
    exact hindexes.aliasOnce _ (List.getElem_mem hi) _ (List.getElem_mem hj) a hai haj
  · intro b
    rw [hbuilt.registered_iff]
    simp only [hreached]
  · refine List.pairwise_map.mpr (List.pairwise_iff_getElem.mpr fun i j hi hj hij heq => ?_)
    refine hij.ne (hplace i j hi hj ?_)
    exact hindexes.planOnce _ (List.getElem_mem hi) _ (List.getElem_mem hj) heq
  · exact hbooks.consumers_nodup
  · intro s hs a
    rw [hbooks.consumers s hs a]
    simp only [hnotes, hreached]
    constructor
    · rintro ⟨b, hb, ha, htakes⟩
      exact ⟨ha, b, hb, htakes⟩
    · rintro ⟨ha, b, hb, htakes⟩
      exact ⟨b, hb, ha, htakes⟩

/-- A script with two equal minima, of which a scalar of another relation reads the first one and a
filter the second one. -/
def sharedMinima : Script :=
  ⟨[("rows", .load "t" (some [⟨"x", .int64, true⟩])),
    ("low", .aggregate [] [⟨⟨.min, .position 0⟩, "x"⟩] (.relation "rows")),
    ("least", .aggregate [] [⟨⟨.min, .position 0⟩, "x"⟩] (.relation "rows")),
    ("raised", .project [⟨.scalarRef "low" (.name "x"), "x"⟩] (.relation "rows")),
    ("top", .filter (.binary (.scalarRef "least" (.name "x")) (.compare .eq)
      (.scalarRef "raised" (.name "x"))) (.relation "rows"))]⟩

theorem sharedMinima_keepsBooks :
    ∃ u, sharedMinima.compile [⟨"top", .collect⟩, ⟨"raised", .store "out"⟩] = .ok u ∧
      sharedMinima.KeepsBooks ["top", "raised"] u.sideInputs ∧
        u.sideInputs.map (fun s => (s.aliases, s.consumers)) =
          [(["low", "least"], ["raised", "top"]), (["raised"], ["top"])] := by
  have hsides : (sharedMinima.compile [⟨"top", .collect⟩, ⟨"raised", .store "out"⟩]).toOption.map
      (fun u => u.sideInputs.map fun s => (s.aliases, s.consumers)) =
        some [(["low", "least"], ["raised", "top"]), (["raised"], ["top"])] := by
    cbv
  obtain ⟨u, hu, hentries⟩ := Option.map_eq_some_iff.mp hsides
  have hcompile := toOption_eq_some.mp hu
  exact ⟨u, hcompile, compile_keepsBooks hcompile, hentries⟩

end Script

end RelScript
