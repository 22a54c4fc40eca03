import RelScript.Proofs.Plan.Traversal
import RelScript.Unit.Compile

/-!
What a registry of side inputs keeps while aliases are registered: numbers are places, an alias has
one side input, and all aliases of a side input have plans of its fingerprint.
-/

namespace RelScript

/-- A side input later on: other aliases and consumers may have joined it. -/
structure SideInput.Grows (s t : SideInput) : Prop where
  id : t.id = s.id
  plan : t.plan = s.plan
  schema : t.schema = s.schema
  fingerprint : t.fingerprint = s.fingerprint
  aliases : s.aliases <+: t.aliases

theorem SideInput.Grows.refl (s : SideInput) : s.Grows s := ⟨rfl, rfl, rfl, rfl, List.prefix_rfl⟩

theorem SideInput.Grows.trans {s t u : SideInput} (hst : s.Grows t) (htu : t.Grows u) :
    s.Grows u where
  id := htu.id.trans hst.id
  plan := htu.plan.trans hst.plan
  schema := htu.schema.trans hst.schema
  fingerprint := htu.fingerprint.trans hst.fingerprint
  aliases := hst.aliases.trans htu.aliases

namespace Registry

/-- A registry later on. -/
def Extends (r r' : Registry) : Prop :=
  ∀ (k : Nat) (s : SideInput), r[k]? = some s → ∃ t, r'[k]? = some t ∧ s.Grows t

theorem Extends.refl (r : Registry) : r.Extends r := fun _ s h => ⟨s, h, SideInput.Grows.refl s⟩

theorem Extends.trans {r r' r'' : Registry} (h : r.Extends r') (h' : r'.Extends r'') :
    r.Extends r'' := by
  intro k s hs
  obtain ⟨t, ht, hst⟩ := h k s hs
  obtain ⟨u, hu, htu⟩ := h' k t ht
  exact ⟨u, hu, hst.trans htu⟩

theorem extends_map {r : Registry} {f : SideInput → SideInput} (hf : ∀ s ∈ r, s.Grows (f s)) :
    r.Extends (r.map f) := by
  intro k s hs
  exact ⟨f s, by rw [List.getElem?_map, hs, Option.map_some], hf s (List.mem_of_getElem? hs)⟩

theorem extends_append (r : Registry) (s : SideInput) : r.Extends (r ++ [s]) := by
  intro k t ht
  exact ⟨t, List.getElem?_append_left (List.getElem?_eq_some_iff.mp ht).1 ▸ ht,
    SideInput.Grows.refl t⟩

/-- The alias has the side input of that number. -/
def Holds (r : Registry) (aliasName : String) (id : SideInputId) : Prop :=
  ∃ s, r[id]? = some s ∧ aliasName ∈ s.aliases

theorem Holds.extend {r r' : Registry} {aliasName : String} {id : SideInputId}
    (h : r.Holds aliasName id) (hr : r.Extends r') : r'.Holds aliasName id := by
  obtain ⟨s, hs, ha⟩ := h
  obtain ⟨t, ht, hst⟩ := hr id s hs
  exact ⟨t, ht, hst.aliases.subset ha⟩

theorem Holds.lt {r : Registry} {aliasName : String} {id : SideInputId}
    (h : r.Holds aliasName id) : id < r.length := by
  obtain ⟨s, hs, -⟩ := h
  exact (List.getElem?_eq_some_iff.mp hs).1

/-- The number of an alias's side input; zero if it has none. -/
def idOf (r : Registry) (aliasName : String) : SideInputId :=
  ((r.find? (aliasName ∈ ·.aliases)).map (·.id)).getD 0

/-- The side input of the given number with one more alias. -/
def joined (id : SideInputId) (aliasName : String) (t : SideInput) : SideInput :=
  if t.id = id then { t with aliases := t.aliases ++ [aliasName] } else t

theorem grows_joined (id : SideInputId) (aliasName : String) (t : SideInput) :
    t.Grows (joined id aliasName t) := by
  unfold joined
  split
  · exact ⟨rfl, rfl, rfl, rfl, List.prefix_append _ _⟩
  · exact SideInput.Grows.refl t

/-- What holds of the registry of every compilation, whatever definitions hold. -/
structure Indexes (compiled : List (String × CompiledAlias)) (r : Registry) : Prop where
  numbered : ∀ (k : Nat) (s : SideInput), r[k]? = some s → s.id = k
  shown : ∀ s ∈ r, s.fingerprint = s.plan.fingerprint
  first : ∀ s ∈ r, ∃ a, s.aliases.head? = some a ∧ compiled.lookup a = some ⟨s.plan, s.schema⟩
  alike : ∀ s ∈ r, ∀ a ∈ s.aliases,
    ∃ x, compiled.lookup a = some x ∧ x.plan.fingerprint = s.fingerprint
  aliasOnce : ∀ s ∈ r, ∀ t ∈ r, ∀ a ∈ s.aliases, a ∈ t.aliases → s = t
  planOnce : ∀ s ∈ r, ∀ t ∈ r, s.fingerprint = t.fingerprint → s = t

/-- What holds of the registry of a compilation of definitions without placeholders. -/
structure Describes (compiled : List (String × CompiledAlias)) (r : Registry) : Prop
    extends Indexes compiled r where
  below : ∀ (k : Nat) (s : SideInput), r[k]? = some s →
    ∀ p ∈ s.plan.placeholders, p.sideInput < k
  known : ∀ a x, compiled.lookup a = some x → ∀ p ∈ x.plan.placeholders, p.sideInput < r.length

theorem indexes_nil : Indexes [] [] where
  numbered := by simp
  shown := by simp
  first := by simp
  alike := by simp
  aliasOnce := by simp
  planOnce := by simp

theorem describes_nil : Describes [] [] where
  toIndexes := indexes_nil
  below := by simp
  known := by simp

/-- What an alias that is registered finds: itself, its plan, or neither. -/
theorem register_cases (r : Registry) (aliasName : String) (plan : Plan)
    (schema : RelationSchema) :
    (∃ s ∈ r, aliasName ∈ s.aliases ∧ r.register aliasName plan schema = (s.id, r)) ∨
      (∀ s ∈ r, aliasName ∉ s.aliases) ∧
        ((∃ s ∈ r, s.fingerprint = plan.fingerprint ∧
            r.register aliasName plan schema = (s.id, r.map (joined s.id aliasName))) ∨
          (∀ s ∈ r, s.fingerprint ≠ plan.fingerprint) ∧
            r.register aliasName plan schema = (r.length,
              r ++ [⟨r.length, [aliasName], plan, schema, plan.fingerprint, []⟩])) := by
  rw [register]
  cases halias : r.find? (aliasName ∈ ·.aliases) with
  | some s =>
      exact .inl ⟨s, List.mem_of_find?_eq_some halias, by simpa using List.find?_some halias, rfl⟩
  | none =>
      refine .inr ⟨by simpa using halias, ?_⟩
      cases hplan : r.find? (·.fingerprint = plan.fingerprint) with
      | some s =>
          exact .inl ⟨s, List.mem_of_find?_eq_some hplan, by simpa using List.find?_some hplan, rfl⟩
      | none => exact .inr ⟨by simpa using hplan, rfl⟩

theorem getElem?_concat_cases {r : Registry} {s t : SideInput} {k : Nat}
    (h : (r ++ [s])[k]? = some t) : r[k]? = some t ∨ k = r.length ∧ t = s := by
  rcases Nat.lt_trichotomy k r.length with hk | rfl | hk
  · exact .inl (by rwa [List.getElem?_append_left hk] at h)
  · rw [List.getElem?_concat_length] at h
    exact .inr ⟨rfl, (Option.some.inj h).symm⟩
  · rw [List.getElem?_eq_none (by simp; omega)] at h
    cases h

section Indexes

variable {compiled : List (String × CompiledAlias)} {r : Registry} (h : r.Indexes compiled)
include h

theorem Indexes.getElem?_id {s : SideInput} (hs : s ∈ r) : r[s.id]? = some s := by
  obtain ⟨k, hk⟩ := List.getElem?_of_mem hs
  rw [h.numbered k s hk, hk]

theorem Indexes.eq_of_id {s t : SideInput} (hs : s ∈ r) (ht : t ∈ r) (hid : s.id = t.id) :
    s = t :=
  Option.some.inj ((h.getElem?_id hs).symm.trans (hid ▸ h.getElem?_id ht))

theorem Indexes.idOf_eq {aliasName : String} {id : SideInputId} (ha : r.Holds aliasName id) :
    r.idOf aliasName = id := by
  obtain ⟨s, hs, hmem⟩ := ha
  have hfound : (r.find? (aliasName ∈ ·.aliases)).isSome := by
    rw [List.find?_isSome]
    exact ⟨s, List.mem_of_getElem? hs, decide_eq_true hmem⟩
  obtain ⟨t, ht⟩ := Option.isSome_iff_exists.mp hfound
  have hst : t = s := h.aliasOnce t (List.mem_of_find?_eq_some ht) s (List.mem_of_getElem? hs)
    aliasName (by simpa using List.find?_some ht) hmem
  rw [idOf, ht, hst, Option.map_some, Option.getD_some, h.numbered id s hs]

/-- Registered aliases share a side input if and only if their plans have one fingerprint. -/
theorem Indexes.shares_iff {a b : String} {x y : CompiledAlias}
    (hx : compiled.lookup a = some x) (hy : compiled.lookup b = some y)
    (ha : ∃ s ∈ r, a ∈ s.aliases) (hb : ∃ s ∈ r, b ∈ s.aliases) :
    (∃ s ∈ r, a ∈ s.aliases ∧ b ∈ s.aliases) ↔ x.plan.fingerprint = y.plan.fingerprint := by
  have halike : ∀ {s a x}, s ∈ r → a ∈ s.aliases → compiled.lookup a = some x →
      x.plan.fingerprint = s.fingerprint := by
    intro s a x hs ha hx
    obtain ⟨z, hz, hfingerprint⟩ := h.alike s hs a ha
    cases hx.symm.trans hz
    exact hfingerprint
  constructor
  · rintro ⟨s, hs, has, hbs⟩
    rw [halike hs has hx, halike hs hbs hy]
  · intro heq
    obtain ⟨s, hs, has⟩ := ha
    obtain ⟨t, ht, hbt⟩ := hb
    rw [halike hs has hx, halike ht hbt hy] at heq
    cases h.planOnce s hs t ht heq
    exact ⟨s, hs, has, hbt⟩

theorem Indexes.mono {compiled' : List (String × CompiledAlias)}
    (hkeeps : ∀ b y, compiled.lookup b = some y → compiled'.lookup b = some y) :
    Indexes compiled' r where
  numbered := h.numbered
  shown := h.shown
  first s hs := (h.first s hs).imp fun _ ha => ⟨ha.1, hkeeps _ _ ha.2⟩
  alike s hs b hb := (h.alike s hs b hb).imp fun _ hy => ⟨hkeeps _ _ hy.1, hy.2⟩
  aliasOnce := h.aliasOnce
  planOnce := h.planOnce

theorem Indexes.map {f : SideInput → SideInput} (hf : ∀ s ∈ r, s.Grows (f s))
    (hnew : ∀ s ∈ r, ∀ a ∈ (f s).aliases, a ∉ s.aliases →
      (∀ t ∈ r, a ∈ (f t).aliases → t = s) ∧
        ∃ x, compiled.lookup a = some x ∧ x.plan.fingerprint = s.fingerprint) :
    Indexes compiled (r.map f) where
  numbered := by
    intro k t ht
    rw [List.getElem?_map, Option.map_eq_some_iff] at ht
    obtain ⟨s, hs, rfl⟩ := ht
    rw [(hf s (List.mem_of_getElem? hs)).id, h.numbered k s hs]
  shown := by
    intro t ht
    obtain ⟨s, hs, rfl⟩ := List.mem_map.mp ht
    rw [(hf s hs).fingerprint, (hf s hs).plan, h.shown s hs]
  first := by
    intro t ht
    obtain ⟨s, hs, rfl⟩ := List.mem_map.mp ht
    obtain ⟨a, ha, hx⟩ := h.first s hs
    obtain ⟨rest, hrest⟩ := (hf s hs).aliases
    refine ⟨a, ?_, by rw [(hf s hs).plan, (hf s hs).schema, hx]⟩
    rw [← hrest, List.head?_append, ha, Option.some_or]
  alike := by
    intro t ht a ha
    obtain ⟨s, hs, rfl⟩ := List.mem_map.mp ht
    rw [(hf s hs).fingerprint]
    by_cases hold : a ∈ s.aliases
    · exact h.alike s hs a hold
    · exact (hnew s hs a ha hold).2
  aliasOnce := by
    intro t ht t' ht' a ha ha'
    obtain ⟨s, hs, rfl⟩ := List.mem_map.mp ht
    obtain ⟨s', hs', rfl⟩ := List.mem_map.mp ht'
    -- An alias that is new to a side input is listed by no other.
    by_cases hold : a ∈ s.aliases
    · by_cases hold' : a ∈ s'.aliases
      · rw [h.aliasOnce s hs s' hs' a hold hold']
      · rw [(hnew s' hs' a ha' hold').1 s hs ha]
    · rw [(hnew s hs a ha hold).1 s' hs' ha']
  planOnce := by
    intro t ht t' ht' heq
    obtain ⟨s, hs, rfl⟩ := List.mem_map.mp ht
    obtain ⟨s', hs', rfl⟩ := List.mem_map.mp ht'
    rw [(hf s hs).fingerprint, (hf s' hs').fingerprint] at heq
    rw [h.planOnce s hs s' hs' heq]

theorem Indexes.append {aliasName : String} {x : CompiledAlias}
    (hx : compiled.lookup aliasName = some x) (halias : ∀ s ∈ r, aliasName ∉ s.aliases)
    (hplan : ∀ s ∈ r, s.fingerprint ≠ x.plan.fingerprint) :
    Indexes compiled
      (r ++ [⟨r.length, [aliasName], x.plan, x.schema, x.plan.fingerprint, []⟩]) where
  numbered := by
    intro k t ht
    rcases getElem?_concat_cases ht with ht | ⟨rfl, rfl⟩
    · exact h.numbered k t ht
    · rfl
  shown := List.forall_mem_append.mpr ⟨h.shown, List.forall_mem_singleton.mpr rfl⟩
  first := List.forall_mem_append.mpr
    ⟨h.first, List.forall_mem_singleton.mpr ⟨aliasName, rfl, hx⟩⟩
  alike := List.forall_mem_append.mpr
    ⟨h.alike, List.forall_mem_singleton.mpr (List.forall_mem_singleton.mpr ⟨x, hx, rfl⟩)⟩
  aliasOnce := by
    intro s hs t ht a ha hat
    rcases List.mem_append.mp hs with hs | hs <;> rcases List.mem_append.mp ht with ht | ht
    · exact h.aliasOnce s hs t ht a ha hat
    · rw [List.mem_singleton.mp ht] at hat
      rw [List.mem_singleton.mp hat] at ha
      exact absurd ha (halias s hs)
    · rw [List.mem_singleton.mp hs] at ha
      rw [List.mem_singleton.mp ha] at hat
      exact absurd hat (halias t ht)
    · rw [List.mem_singleton.mp hs, List.mem_singleton.mp ht]
  planOnce := by
    intro s hs t ht heq
    rcases List.mem_append.mp hs with hs | hs <;> rcases List.mem_append.mp ht with ht | ht
    · exact h.planOnce s hs t ht heq
    · rw [List.mem_singleton.mp ht] at heq
      exact absurd heq (hplan s hs)
    · rw [List.mem_singleton.mp hs] at heq
      exact absurd heq.symm (hplan t ht)
    · rw [List.mem_singleton.mp hs, List.mem_singleton.mp ht]

theorem Indexes.join {aliasName : String} {x : CompiledAlias}
    (hx : compiled.lookup aliasName = some x) (halias : ∀ s ∈ r, aliasName ∉ s.aliases)
    {s : SideInput} (hs : s ∈ r) (hplan : s.fingerprint = x.plan.fingerprint) :
    Indexes compiled (r.map (joined s.id aliasName)) := by
  have hnew : ∀ t ∈ r, ∀ a ∈ (joined s.id aliasName t).aliases, a ∉ t.aliases →
      a = aliasName ∧ t = s := by
    intro t ht a ha hold
    unfold joined at ha
    split at ha
    · rename_i hid
      rcases List.mem_append.mp ha with ha | ha
      · exact absurd ha hold
      · exact ⟨List.mem_singleton.mp ha, h.eq_of_id ht hs hid⟩
    · exact absurd ha hold
  refine h.map (fun t _ => grows_joined s.id aliasName t) fun t ht a ha hold => ?_
  obtain ⟨rfl, rfl⟩ := hnew t ht a ha hold
  exact ⟨fun u hu hau => (hnew u hu a hau (halias u hu)).2, x, hx, hplan.symm⟩

theorem Indexes.register {aliasName : String} {x : CompiledAlias}
    (hx : compiled.lookup aliasName = some x) {id : SideInputId} {r' : Registry}
    (hreg : r.register aliasName x.plan x.schema = (id, r')) :
    r'.Indexes compiled ∧ r.Extends r' ∧ r'.Holds aliasName id := by
  rcases r.register_cases aliasName x.plan x.schema with
    ⟨s, hs, ha, heq⟩ | ⟨halias, ⟨s, hs, hplan, heq⟩ | ⟨hplan, heq⟩⟩
  · cases heq.symm.trans hreg
    exact ⟨h, Extends.refl r, s, h.getElem?_id hs, ha⟩
  · cases heq.symm.trans hreg
    refine ⟨h.join hx halias hs hplan, extends_map fun t _ => grows_joined s.id aliasName t,
      joined s.id aliasName s, ?_, ?_⟩
    · rw [List.getElem?_map, h.getElem?_id hs]
      rfl
    · rw [joined, if_pos rfl]
      exact List.mem_append_right _ (List.mem_singleton.mpr rfl)
  · cases heq.symm.trans hreg
    exact ⟨h.append hx halias hplan, extends_append r _, _, List.getElem?_concat_length,
      List.mem_singleton.mpr rfl⟩

omit h in
theorem grows_addConsumer (id : SideInputId) (consumer : String) (t : SideInput) :
    t.Grows (if t.id = id ∧ consumer ∉ t.consumers then
      { t with consumers := t.consumers ++ [consumer] } else t) := by
  split
  · exact ⟨rfl, rfl, rfl, rfl, List.prefix_rfl⟩
  · exact SideInput.Grows.refl t

omit h in
theorem extends_addConsumer (id : SideInputId) (consumer : String) (r : Registry) :
    r.Extends (r.addConsumer id consumer) :=
  extends_map fun t _ => grows_addConsumer id consumer t

theorem Indexes.addConsumer (id : SideInputId) (consumer : String) :
    (r.addConsumer id consumer).Indexes compiled := by
  refine h.map (fun t _ => grows_addConsumer id consumer t) fun t ht a ha hold => ?_
  split at ha <;> exact absurd ha hold

end Indexes

section Describes

variable {compiled : List (String × CompiledAlias)} {r : Registry} (h : r.Describes compiled)
include h

theorem Describes.cons {a : String} {x : CompiledAlias} (hnone : compiled.lookup a = none)
    (hx : ∀ p ∈ x.plan.placeholders, p.sideInput < r.length) :
    Describes ((a, x) :: compiled) r where
  toIndexes := h.toIndexes.mono fun b y hy => by
    have hba : b ≠ a := by
      rintro rfl
      rw [hnone] at hy
      cases hy
    rw [List.lookup_cons, beq_false_of_ne hba]
    exact hy
  below := h.below
  known b y hy := by
    rw [List.lookup_cons] at hy
    split at hy
    · cases hy
      exact hx
    · exact h.known b y hy

theorem Describes.map {f : SideInput → SideInput} (hf : ∀ s ∈ r, s.Grows (f s))
    (hr : Indexes compiled (r.map f)) : Describes compiled (r.map f) where
  toIndexes := hr
  below := by
    intro k t ht
    rw [List.getElem?_map, Option.map_eq_some_iff] at ht
    obtain ⟨s, hs, rfl⟩ := ht
    rw [(hf s (List.mem_of_getElem? hs)).plan]
    exact h.below k s hs
  known := by
    rw [List.length_map]
    exact h.known

theorem Describes.append {aliasName : String} {x : CompiledAlias}
    (hx : compiled.lookup aliasName = some x) (halias : ∀ s ∈ r, aliasName ∉ s.aliases)
    (hplan : ∀ s ∈ r, s.fingerprint ≠ x.plan.fingerprint) :
    Describes compiled
      (r ++ [⟨r.length, [aliasName], x.plan, x.schema, x.plan.fingerprint, []⟩]) where
  toIndexes := h.toIndexes.append hx halias hplan
  below := by
    intro k t ht p hp
    rcases getElem?_concat_cases ht with ht | ⟨rfl, rfl⟩
    · exact h.below k t ht p hp
    · exact h.known aliasName x hx p hp
  known := fun b y hy p hp => by
    rw [List.length_append]
    exact Nat.lt_add_right 1 (h.known b y hy p hp)

theorem Describes.register {aliasName : String} {x : CompiledAlias}
    (hx : compiled.lookup aliasName = some x) {id : SideInputId} {r' : Registry}
    (hreg : r.register aliasName x.plan x.schema = (id, r')) :
    r'.Describes compiled ∧ r.Extends r' ∧ r'.Holds aliasName id := by
  obtain ⟨hr', hext, hholds⟩ := h.toIndexes.register hx hreg
  refine ⟨?_, hext, hholds⟩
  rcases r.register_cases aliasName x.plan x.schema with
    ⟨s, -, -, heq⟩ | ⟨halias, ⟨s, -, -, heq⟩ | ⟨hplan, heq⟩⟩
  · cases heq.symm.trans hreg
    exact h
  · cases heq.symm.trans hreg
    exact h.map (fun t _ => grows_joined s.id aliasName t) hr'
  · cases heq.symm.trans hreg
    exact h.append hx halias hplan

theorem Describes.addConsumer (id : SideInputId) (consumer : String) :
    (r.addConsumer id consumer).Describes compiled :=
  h.map (fun t _ => grows_addConsumer id consumer t) (h.toIndexes.addConsumer id consumer)

end Describes

end Registry

end RelScript
