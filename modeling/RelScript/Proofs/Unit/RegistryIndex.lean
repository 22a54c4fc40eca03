import RelScript.Proofs.Unit.Registry

/-!
The registry with its indexes: a table of the aliases that are registered, and one of the
fingerprints, each with the number of a side input. The tables hold what a search of the side inputs
finds, so registration with them hands out the same numbers and leaves the same side inputs.
-/

namespace RelScript

/-- A registry, with the side input of every alias and of every fingerprint. -/
structure IndexedRegistry where
  entries : Registry
  byAlias : Std.HashMap String SideInputId
  byFingerprint : Std.HashMap String SideInputId

namespace IndexedRegistry

/-- No side inputs. -/
def empty : IndexedRegistry := ⟨[], ∅, ∅⟩

/-- Changes the side input of a number, if there is one. -/
def modify (x : IndexedRegistry) (id : SideInputId) (f : SideInput → SideInput) :
    IndexedRegistry :=
  { x with entries := x.entries.modify id f }

/-- Registers an alias: its own side input is looked up first, then the one of its plan. -/
def register (x : IndexedRegistry) (aliasName : String) (plan : Plan) (schema : RelationSchema) :
    SideInputId × IndexedRegistry :=
  match x.byAlias[aliasName]? with
  | some id => (id, x)
  | none =>
    match x.byFingerprint[plan.fingerprint]? with
    | some id =>
      let x := { x with byAlias := x.byAlias.insert aliasName id }
      (id, x.modify id fun s => { s with aliases := s.aliases ++ [aliasName] })
    | none =>
      let id := x.entries.length
      (id, {
        entries := x.entries ++ [⟨id, [aliasName], plan, schema, plan.fingerprint, []⟩]
        byAlias := x.byAlias.insert aliasName id
        byFingerprint := x.byFingerprint.insert plan.fingerprint id })

/-- Notes that an alias reads a side input. -/
def addConsumer (x : IndexedRegistry) (id : SideInputId) (consumer : String) : IndexedRegistry :=
  x.modify id fun s =>
    if consumer ∈ s.consumers then s else { s with consumers := s.consumers ++ [consumer] }

end IndexedRegistry

/-- What is done to a registry. -/
inductive RegistryStep
  | register (aliasName : String) (plan : Plan) (schema : RelationSchema)
  | addConsumer (id : SideInputId) (consumer : String)

namespace RegistryStep

/-- The number that a step hands out, and the registry after it. -/
def run (r : Registry) : RegistryStep → Option SideInputId × Registry
  | register aliasName plan schema =>
    let (id, r) := r.register aliasName plan schema
    (some id, r)
  | addConsumer id consumer => (none, r.addConsumer id consumer)

/-- The number that a step hands out, and the indexed registry after it. -/
def runIndexed (x : IndexedRegistry) : RegistryStep → Option SideInputId × IndexedRegistry
  | register aliasName plan schema =>
    let (id, x) := x.register aliasName plan schema
    (some id, x)
  | addConsumer id consumer => (none, x.addConsumer id consumer)

/-- The numbers that some steps hand out, and the registry after them. -/
def runAll (r : Registry) : List RegistryStep → List (Option SideInputId) × Registry
  | [] => ([], r)
  | step :: steps =>
    let (id, r) := step.run r
    let (ids, r) := runAll r steps
    (id :: ids, r)

/-- The numbers that some steps hand out, and the indexed registry after them. -/
def runAllIndexed (x : IndexedRegistry) :
    List RegistryStep → List (Option SideInputId) × IndexedRegistry
  | [] => ([], x)
  | step :: steps =>
    let (id, x) := step.runIndexed x
    let (ids, x) := runAllIndexed x steps
    (id :: ids, x)

end RegistryStep

/-- A table of names is right if it has, under every name, the place of the side input of that
name. -/
def Registry.Tabulates (r : Registry) (names : SideInput → String → Prop)
    (table : Std.HashMap String SideInputId) : Prop :=
  ∀ name id, table[name]? = some id ↔ ∃ s, r[id]? = some s ∧ names s name

namespace Registry.Tabulates

variable {r : Registry} {names : SideInput → String → Prop}
  {table : Std.HashMap String SideInputId} {name : String}

theorem nil : Registry.Tabulates [] names ∅ := by simp [Registry.Tabulates]

theorem getElem?_eq_none (h : r.Tabulates names table) (hnone : ∀ s ∈ r, ¬ names s name) :
    table[name]? = none := by
  rw [Option.eq_none_iff_forall_ne_some]
  intro id hid
  obtain ⟨s, hs, hname⟩ := (h name id).mp hid
  exact hnone s (List.mem_of_getElem? hs) hname

theorem concat (h : r.Tabulates names table) (hnone : ∀ s ∈ r, ¬ names s name) {s : SideInput}
    (hname : ∀ other, names s other ↔ other = name) :
    Registry.Tabulates (r ++ [s]) names (table.insert name r.length) := by
  intro other id
  rw [Std.HashMap.getElem?_insert]
  constructor
  · intro hid
    split at hid
    · rename_i hsame
      cases hid
      exact ⟨s, List.getElem?_concat_length, (hname other).mpr (eq_of_beq hsame).symm⟩
    · obtain ⟨t, ht, hother⟩ := (h other id).mp hid
      exact ⟨t, List.getElem?_append_left (List.getElem?_eq_some_iff.mp ht).1 ▸ ht, hother⟩
  · rintro ⟨t, ht, hother⟩
    rcases Registry.getElem?_concat_cases ht with ht | ⟨rfl, rfl⟩
    · have hne : name ≠ other := by
        rintro rfl
        exact hnone t (List.mem_of_getElem? ht) hother
      simpa [hne] using (h other id).mpr ⟨t, ht, hother⟩
    · simp [(hname other).mp hother]

theorem map (h : r.Tabulates names table) {f : SideInput → SideInput}
    (hf : ∀ s name, names (f s) name ↔ names s name) :
    Registry.Tabulates (r.map f) names table := by
  intro name id
  rw [h]
  simp [hf]

end Registry.Tabulates

namespace IndexedRegistry

/-- Side inputs are numbered by their places, and found by their aliases and fingerprints. -/
structure Agrees (x : IndexedRegistry) : Prop where
  numbered : ∀ (k : Nat) (s : SideInput), x.entries[k]? = some s → s.id = k
  byAlias : x.entries.Tabulates (fun s a => a ∈ s.aliases) x.byAlias
  byFingerprint : x.entries.Tabulates (fun s f => s.fingerprint = f) x.byFingerprint

theorem agrees_empty : Agrees empty where
  numbered := by simp [empty]
  byAlias := .nil
  byFingerprint := .nil

section Steps

variable {x : IndexedRegistry} (h : x.Agrees)
include h

theorem Agrees.getElem?_id {s : SideInput} (hs : s ∈ x.entries) : x.entries[s.id]? = some s := by
  obtain ⟨k, hk⟩ := List.getElem?_of_mem hs
  rw [h.numbered k s hk]
  exact hk

theorem Agrees.entries_modify (id : SideInputId) (f : SideInput → SideInput) :
    (x.modify id f).entries = x.entries.map fun s => if s.id = id then f s else s := by
  apply List.ext_getElem?
  intro k
  rw [IndexedRegistry.modify, List.getElem?_modify, List.getElem?_map]
  cases hk : x.entries[k]? with
  | none => rfl
  | some s =>
      rw [← h.numbered k s hk]
      by_cases hid : s.id = id <;> simp [hid, Ne.symm]

theorem Agrees.numbered_map {f : SideInput → SideInput} (hf : ∀ s, SideInput.Grows s (f s))
    (k : Nat) (s : SideInput) (hs : (x.entries.map f)[k]? = some s) : s.id = k := by
  rw [List.getElem?_map] at hs
  obtain ⟨t, ht, rfl⟩ := Option.map_eq_some_iff.mp hs
  rw [(hf t).id]
  exact h.numbered k t ht

theorem Agrees.addConsumer (id : SideInputId) (consumer : String) :
    (x.addConsumer id consumer).entries = x.entries.addConsumer id consumer ∧
      (x.addConsumer id consumer).Agrees := by
  have hentries : (x.addConsumer id consumer).entries = x.entries.addConsumer id consumer := by
    rw [IndexedRegistry.addConsumer, h.entries_modify]
    refine List.map_congr_left fun s _ => ?_
    by_cases hid : s.id = id <;> by_cases hconsumer : consumer ∈ s.consumers <;>
      simp [hid, hconsumer]
  have hgrows := Registry.grows_addConsumer id consumer
  refine ⟨hentries, ?_, ?_, ?_⟩
  · rw [hentries]
    exact h.numbered_map hgrows
  · rw [hentries]
    refine h.byAlias.map fun s a => ?_
    split <;> rfl
  · rw [hentries]
    exact h.byFingerprint.map fun s f => by rw [(hgrows s).fingerprint]

theorem Agrees.byAlias_joined {s : SideInput} (hs : s ∈ x.entries) {a : String}
    (hnone : ∀ t ∈ x.entries, a ∉ t.aliases) :
    Registry.Tabulates (x.entries.map (Registry.joined s.id a)) (fun s a => a ∈ s.aliases)
      (x.byAlias.insert a s.id) := by
  intro b id
  have hjoined : ∀ t, x.entries[id]? = some t →
      (b ∈ (Registry.joined s.id a t).aliases ↔ b ∈ t.aliases ∨ id = s.id ∧ b = a) := by
    intro t ht
    rw [Registry.joined, h.numbered id t ht]
    split <;> simp_all
  have hmap : (∃ t, (x.entries.map (Registry.joined s.id a))[id]? = some t ∧ b ∈ t.aliases) ↔
      ∃ t, x.entries[id]? = some t ∧ (b ∈ t.aliases ∨ id = s.id ∧ b = a) := by
    rw [List.getElem?_map]
    simp only [Option.map_eq_some_iff, exists_exists_and_eq_and]
    exact exists_congr fun t => and_congr_right (hjoined t)
  rw [Std.HashMap.getElem?_insert, hmap]
  by_cases hab : a = b
  · subst hab
    simp only [beq_self_eq_true, if_true, Option.some.injEq, and_true]
    constructor
    · rintro rfl
      exact ⟨s, h.getElem?_id hs, .inr rfl⟩
    · rintro ⟨t, ht, hold | hid⟩
      · exact absurd hold (hnone t (List.mem_of_getElem? ht))
      · exact hid.symm
  · simpa [hab, Ne.symm hab] using h.byAlias b id

theorem Agrees.register (aliasName : String) (plan : Plan) (schema : RelationSchema) :
    (x.register aliasName plan schema).1 = (x.entries.register aliasName plan schema).1 ∧
      (x.register aliasName plan schema).2.entries =
        (x.entries.register aliasName plan schema).2 ∧
      (x.register aliasName plan schema).2.Agrees := by
  rcases x.entries.register_cases aliasName plan schema with ⟨s, hs, halias, hlist⟩ |
    ⟨halias, ⟨s, hs, hplan, hlist⟩ | ⟨hplan, hlist⟩⟩
  · have hfound : x.byAlias[aliasName]? = some s.id :=
      (h.byAlias _ _).mpr ⟨s, h.getElem?_id hs, halias⟩
    rw [IndexedRegistry.register, hfound, hlist]
    exact ⟨rfl, rfl, h⟩
  · have hnone := h.byAlias.getElem?_eq_none halias
    have hfound : x.byFingerprint[plan.fingerprint]? = some s.id :=
      (h.byFingerprint _ _).mpr ⟨s, h.getElem?_id hs, hplan⟩
    rw [IndexedRegistry.register, hnone, hfound, hlist]
    have hentries :
        (x.modify s.id fun t => { t with aliases := t.aliases ++ [aliasName] }).entries =
          x.entries.map (Registry.joined s.id aliasName) := h.entries_modify s.id _
    refine ⟨rfl, hentries, ?_, ?_, ?_⟩
    · exact hentries ▸ h.numbered_map (Registry.grows_joined s.id aliasName)
    · exact hentries ▸ h.byAlias_joined hs halias
    · refine hentries ▸ h.byFingerprint.map fun t f => ?_
      rw [(Registry.grows_joined s.id aliasName t).fingerprint]
  · have hnone := h.byAlias.getElem?_eq_none halias
    have hnew := h.byFingerprint.getElem?_eq_none hplan
    rw [IndexedRegistry.register, hnone, hnew, hlist]
    refine ⟨rfl, rfl, fun k t ht => ?_, h.byAlias.concat halias ?_, h.byFingerprint.concat hplan ?_⟩
    · rcases Registry.getElem?_concat_cases ht with ht | ⟨rfl, rfl⟩
      · exact h.numbered k t ht
      · rfl
    · exact fun _ => List.mem_singleton
    · exact fun _ => eq_comm

end Steps

end IndexedRegistry

namespace RegistryStep

open IndexedRegistry

theorem runIndexed_eq {x : IndexedRegistry} (h : x.Agrees) (step : RegistryStep) :
    (step.runIndexed x).1 = (step.run x.entries).1 ∧
      (step.runIndexed x).2.entries = (step.run x.entries).2 ∧ (step.runIndexed x).2.Agrees := by
  cases step with
  | register aliasName plan schema =>
      obtain ⟨hid, hentries⟩ := h.register aliasName plan schema
      exact ⟨congrArg some hid, hentries⟩
  | addConsumer id consumer => exact ⟨rfl, h.addConsumer id consumer⟩

theorem runAllIndexed_eq {x : IndexedRegistry} (h : x.Agrees) (steps : List RegistryStep) :
    (runAllIndexed x steps).1 = (runAll x.entries steps).1 ∧
      (runAllIndexed x steps).2.entries = (runAll x.entries steps).2 ∧
      (runAllIndexed x steps).2.Agrees := by
  induction steps generalizing x with
  | nil => exact ⟨rfl, rfl, h⟩
  | cons step steps ih =>
      obtain ⟨hid, hentries, hagrees⟩ := runIndexed_eq h step
      obtain ⟨hids, hrest⟩ := ih hagrees
      rw [hentries] at hids hrest
      exact ⟨congrArg₂ List.cons hid hids, hrest⟩

/-- Whatever is done to an empty registry: with its indexes it hands out the same numbers and has
the same side inputs. -/
theorem runAllIndexed_empty (steps : List RegistryStep) :
    (runAllIndexed .empty steps).1 = (runAll [] steps).1 ∧
      (runAllIndexed .empty steps).2.entries = (runAll [] steps).2 :=
  ⟨(runAllIndexed_eq agrees_empty steps).1, (runAllIndexed_eq agrees_empty steps).2.1⟩

end RegistryStep

end RelScript
