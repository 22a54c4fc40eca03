import RelScript.Proofs.Execution.Locality
import RelScript.Proofs.Physical.Stages

/-!
What stages leave behind when they run one by one, each after its parents: at any time, the slots,
the results and the tables of the stages that have run are those that they have in the end.
-/

namespace RelScript

/-- The output runs the tree, and stores its rows in the end if they are to be stored. -/
def OutputPlan.Stores (o : OutputPlan) (input : Operator) : Prop :=
  input.targets = [] ∧ o.plan = match o.target with
    | .store name => .store name input
    | .collect => input

theorem OutputPlan.Stores.same_run {o : OutputPlan} {input : Operator} (h : o.Stores input)
    (settings : RunSettings) {slots slots' : List Slot} {w w' : EngineState}
    (hslots : ∀ id ∈ o.plan.sideInputs, slots.find? (·.id = id) = slots'.find? (·.id = id))
    (htables : ∀ source ∈ o.plan.sources, w.catalog.get source = w'.catalog.get source) :
    (o.run settings slots w).1 = (o.run settings slots' w').1 ∧
      (∀ name, o.target ≠ .store name →
        (o.run settings slots w).2.catalog.get name = w.catalog.get name) ∧
      ∀ name, o.target = .store name → w.catalog.get name = w'.catalog.get name →
        (o.run settings slots w).2.catalog.get name =
          (o.run settings slots' w').2.catalog.get name := by
  obtain ⟨hempty, hplan⟩ := h
  have hown : o.plan.sideInputs = input.sideInputs ∧ o.plan.sources = input.sources := by
    cases htarget : o.target <;> rw [hplan, htarget] <;> exact ⟨rfl, rfl⟩
  rw [hown.1] at hslots
  rw [hown.2] at htables
  -- A store is the topmost operator, and all below it meets the same.
  have hmeets : input.MeetsSame (settings.context slots) (settings.context slots') w.catalog
      w'.catalog := ⟨rfl, rfl, hslots, htables, hempty⟩
  obtain ⟨hresult, hcatalog, hcatalog'⟩ := hmeets.same_execute [] w w' rfl rfl
  have hrun : ∀ slots w, o.run settings slots w =
      ((o.plan.execute (settings.context slots) [] w).1.map o.result,
        (o.plan.execute (settings.context slots) [] w).2) := fun _ _ => rfl
  rw [hrun, hrun]
  cases htarget : o.target with
  | collect =>
      have hinput : o.plan = input := by rw [hplan, htarget]
      rw [hinput, hresult, hcatalog, hcatalog']
      exact ⟨rfl, fun _ _ => rfl, nofun⟩
  | store name =>
      have hstore : o.plan = .store name input := by rw [hplan, htarget]
      obtain ⟨hrows, hreceive⟩ := execute_store hcatalog name
      obtain ⟨hrows', hreceive'⟩ := execute_store hcatalog' name
      rw [hstore]
      dsimp only
      rw [hrows, hrows', hreceive, hreceive', hresult]
      refine ⟨?_, fun other hother => ?_, ?_⟩
      · simp only [Catalog.map_write]
      · have hne : other ≠ name := by
          rintro rfl
          exact hother rfl
        exact Catalog.get_receive hne _
      · rintro _ ⟨⟩ hget
        exact Catalog.get_receive_self hget _

namespace PhysicalUnit

/-- A unit in which nothing is stored but the rows of outputs, after they are known. -/
structure StoresLast (u : PhysicalUnit) : Prop where
  sideInputs : ∀ p ∈ u.sideInputs, p.plan.targets = []
  outputs : ∀ o ∈ u.outputs, ∃ input, o.Stores input

/-- The slots after all side inputs have run in the order of their numbers. -/
def finalSlots (settings : RunSettings) (u : PhysicalUnit) (w : EngineState) : List Slot :=
  (materializeAll settings u.schedule [] w).1

/-- Some stages have run, and have left behind what they leave behind in the end. -/
structure Progress (u : PhysicalUnit) (settings : RunSettings) (w : EngineState)
    (done : List Nat) (r : StagesRun) : Prop where
  slots : ∀ id, r.slots.find? (·.id = id) =
    if id ∈ done then (u.finalSlots settings w).find? (·.id = id) else none
  terminal : ∀ slot ∈ r.slots, slot.state.isTerminal = true
  results : ∀ k, r.results.lookup (u.sideInputs.length + k) =
    if u.sideInputs.length + k ∈ done then
      u.outputs[k]?.map fun o => (o.run settings (u.finalSlots settings w) w).1
    else none
  stored : ∀ (k : Nat) (o : OutputPlan) name, u.outputs[k]? = some o → o.target = .store name →
    u.sideInputs.length + k ∈ done → r.state.catalog.get name =
      (o.run settings (u.finalSlots settings w) w).2.catalog.get name
  kept : ∀ name, (∀ (k : Nat) (o : OutputPlan), u.outputs[k]? = some o →
    o.target = .store name → u.sideInputs.length + k ∉ done) →
      r.state.catalog.get name = w.catalog.get name

theorem mem_targets {u : PhysicalUnit} {name : String} :
    name ∈ u.targets ↔ ∃ o ∈ u.outputs, o.target = .store name := by
  rw [targets, List.mem_filterMap]
  refine exists_congr fun o => and_congr_right fun _ => ?_
  cases o.target <;> simp

theorem eq_of_target {u : PhysicalUnit} (h : u.targets.Nodup) {j k : Nat} {o o' : OutputPlan}
    (ho : u.outputs[j]? = some o) (ho' : u.outputs[k]? = some o') {name : String}
    (htarget : o.target = .store name) (htarget' : o'.target = .store name) : j = k := by
  rw [targets, List.Nodup, List.pairwise_filterMap, List.pairwise_iff_getElem] at h
  obtain ⟨hj, hoj⟩ := List.getElem?_eq_some_iff.mp ho
  obtain ⟨hk, hok⟩ := List.getElem?_eq_some_iff.mp ho'
  rcases Nat.lt_trichotomy j k with hlt | heq | hgt
  · refine absurd rfl (h j k hj hk hlt name ?_ name ?_)
    · rw [hoj, htarget]
    · rw [hok, htarget']
  · exact heq
  · refine absurd rfl (h k j hk hj hgt name ?_ name ?_)
    · rw [hok, htarget']
    · rw [hoj, htarget]

section Progress

variable {u : PhysicalUnit} {settings : RunSettings} {w : EngineState} {done : List Nat}
  {r : StagesRun}

theorem progress_start (u : PhysicalUnit) (settings : RunSettings) (w : EngineState) :
    u.Progress settings w [] ⟨[], [], w⟩ := by
  constructor
  case kept => exact fun _ _ => rfl
  all_goals simp

theorem Progress.get_source (h : u.Progress settings w done r) {source : String}
    (hsource : source ∉ u.targets) : r.state.catalog.get source = w.catalog.get source := by
  apply h.kept
  intro k o ho htarget
  exact absurd (mem_targets.mpr ⟨o, List.mem_of_getElem? ho, htarget⟩) hsource

theorem Progress.find?_slots (h : u.Progress settings w done r) {ids : List SideInputId}
    (hids : ∀ id ∈ ids, id ∈ done) : ∀ id ∈ ids,
      r.slots.find? (·.id = id) = (u.finalSlots settings w).find? (·.id = id) := by
  intro id hid
  rw [h.slots, if_pos (hids id hid)]

theorem finalSlots_spec (hclosed : u.Closed) (hlast : u.StoresLast) (settings : RunSettings)
    (w : EngineState) :
    (∀ k, (u.finalSlots settings w).find? (·.id = u.sideInputs.length + k) = none) ∧
      ∀ p ∈ u.sideInputs, ∃ slots w', w'.catalog = w.catalog ∧
        (u.finalSlots settings w).find? (·.id = p.id) =
          some (materialize settings p slots w').1 ∧
        ∀ id < p.id, (u.finalSlots settings w).find? (·.id = id) = slots.find? (·.id = id) := by
  have hkeeps : ∀ p ∈ u.sideInputs, ∀ slots w', w'.catalog = w.catalog →
      (p.plan.execute (settings.context slots) [] w').2.catalog = w.catalog := by
    intro p hp slots w' hw'
    rw [Operator.catalog_execute (hlast.sideInputs p hp), hw']
  obtain ⟨-, hothers, hown⟩ :=
    materializeAll_spec settings hclosed.ordered.pairwise_id hkeeps [] w rfl
  rw [finalSlots, hclosed.ordered.schedule_eq]
  refine ⟨fun k => ?_, hown⟩
  refine hothers (u.sideInputs.length + k) fun p hp => ?_
  obtain ⟨j, hj⟩ := List.getElem?_of_mem hp
  have hlt : j < u.sideInputs.length := (List.getElem?_eq_some_iff.mp hj).1
  rw [hclosed.numbered j p hj]
  exact (Nat.lt_of_lt_of_le hlt (Nat.le_add_right _ k)).ne'

theorem Progress.find?_finalSlots (h : u.Progress settings w done r) (hclosed : u.Closed)
    (hlast : u.StoresLast) (hapart : u.StoresApart) {n : Nat} {p : SideInputPlan}
    (hp : u.sideInputs[n]? = some p) (hwaits : ∀ id ∈ p.plan.sideInputs, id ∈ done) :
    (u.finalSlots settings w).find? (·.id = n) =
      some (materialize settings p r.slots r.state).1 := by
  have hmem := List.mem_of_getElem? hp
  obtain ⟨-, hown⟩ := finalSlots_spec hclosed hlast settings w
  obtain ⟨slots, w', hw', hfound, hbefore⟩ := hown p hmem
  rw [hclosed.numbered n p hp] at hfound
  have hmeets : p.plan.MeetsSame (settings.context slots) (settings.context r.slots) w'.catalog
      r.state.catalog := by
    refine ⟨rfl, rfl, fun id hid => ?_, fun source hsource => ?_, hlast.sideInputs p hmem⟩
    · show slots.find? (·.id = id) = r.slots.find? (·.id = id)
      rw [h.slots, if_pos (hwaits id hid)]
      exact (hbefore id (hclosed.below p hmem id hid)).symm
    · rw [h.get_source (hapart.unreadBySideInputs p hmem source hsource), hw']
  rw [← materialize_same hmeets]
  exact hfound

theorem Progress.sideInput (h : u.Progress settings w done r) (hclosed : u.Closed)
    (hlast : u.StoresLast) (hapart : u.StoresApart) {n : Nat} {p : SideInputPlan}
    (hp : u.sideInputs[n]? = some p) (hwaits : ∀ id ∈ p.plan.sideInputs, id ∈ done) :
    u.Progress settings w (done ++ [n]) (u.runStage settings r n) := by
  have hn : n < u.sideInputs.length := (List.getElem?_eq_some_iff.mp hp).1
  have hid : (materialize settings p r.slots r.state).1.id = n :=
    (id_materialize settings p r.slots r.state).trans (hclosed.numbered n p hp)
  have hcatalog : (materialize settings p r.slots r.state).2.catalog = r.state.catalog := by
    rw [catalog_materialize]
    exact Operator.catalog_execute (hlast.sideInputs p (List.mem_of_getElem? hp)) _ _ _
  have houtput : ∀ k, u.sideInputs.length + k ∈ done ++ [n] ↔ u.sideInputs.length + k ∈ done := by
    intro k
    have hne : u.sideInputs.length + k ≠ n := by omega
    simp [hne]
  rw [runStage_sideInput hp]
  refine ⟨fun id => ?_, fun slot hslot => ?_, fun k => ?_, fun k o name => ?_, fun name => ?_⟩
  · rw [find?_putSlot, hid]
    by_cases hsame : id = n
    · subst hsame
      rw [if_pos rfl, if_pos (by simp), h.find?_finalSlots hclosed hlast hapart hp hwaits]
    · have hdone : id ∈ done ++ [n] ↔ id ∈ done := by simp [hsame]
      rw [if_neg hsame, h.slots, if_congr hdone rfl rfl]
  · rcases List.mem_append.mp hslot with hslot | hslot
    · exact h.terminal slot (List.mem_filter.mp hslot).1
    · rw [List.mem_singleton.mp hslot, state_materialize]
      exact Slot.isTerminal_settled _ _
  · rw [h.results, if_congr (houtput k) rfl rfl]
  · rw [hcatalog, houtput]
    exact h.stored k o name
  · simp only [hcatalog, houtput]
    exact h.kept name

theorem Progress.output (h : u.Progress settings w done r) (hclosed : u.Closed)
    (hlast : u.StoresLast) (hapart : u.StoresApart) {k : Nat} {o : OutputPlan}
    (ho : u.outputs[k]? = some o) (hnew : u.sideInputs.length + k ∉ done)
    (hwaits : ∀ id ∈ o.plan.sideInputs, id ∈ done) :
    u.Progress settings w (done ++ [u.sideInputs.length + k])
      (u.runStage settings r (u.sideInputs.length + k)) := by
  have hmem := List.mem_of_getElem? ho
  obtain ⟨input, hinput⟩ := hlast.outputs o hmem
  have hread : ∀ source ∈ o.plan.sources,
      r.state.catalog.get source = w.catalog.get source := fun source hsource =>
    h.get_source (hapart.unreadByOutputs o hmem source hsource)
  obtain ⟨hresult, hothers, hown⟩ :=
    hinput.same_run settings (h.find?_slots hwaits) hread
  have hdone : ∀ j, u.sideInputs.length + j ∈ done ++ [u.sideInputs.length + k] ↔
      u.sideInputs.length + j ∈ done ∨ j = k := by
    intro j
    simp
  rw [runStage_output ho]
  constructor
  case terminal => exact h.terminal
  case slots =>
    intro id
    -- An output fills no slot, and no slot has its number.
    by_cases hid : id = u.sideInputs.length + k
    · subst hid
      have hnone := (finalSlots_spec hclosed hlast settings w).1 k
      rw [h.slots, if_neg hnew, hnone, ite_self]
    · have hsame : id ∈ done ++ [u.sideInputs.length + k] ↔ id ∈ done := by simp [hid]
      rw [h.slots, if_congr hsame rfl rfl]
  case results =>
    intro j
    rw [List.lookup_append, h.results]
    by_cases hj : j = k
    · subst hj
      rw [if_neg hnew, if_pos ((hdone j).mpr (Or.inr rfl)), ho, hresult]
      simp
    · have hsame : u.sideInputs.length + j ∈ done ++ [u.sideInputs.length + k] ↔
          u.sideInputs.length + j ∈ done := by simp [hj]
      have hlookup : [(u.sideInputs.length + k, (o.run settings r.slots r.state).1)].lookup
          (u.sideInputs.length + j) = none := by
        rw [List.lookup_cons, beq_false_of_ne (by omega)]
        rfl
      rw [if_congr hsame rfl rfl, hlookup, Option.or_none]
  case stored =>
    intro j o' name ho' htarget hj
    by_cases hsame : j = k
    · subst hsame
      rw [ho] at ho'
      cases ho'
      -- Targets are distinct, so no stage that is done has stored here.
      refine hown name htarget (h.kept name fun i o' hi htarget' => ?_)
      rw [eq_of_target hapart.distinct hi ho htarget' htarget]
      exact hnew
    · have hne : o.target ≠ .store name := fun htarget' =>
        hsame (eq_of_target hapart.distinct ho' ho htarget htarget')
      rw [hothers name hne]
      exact h.stored j o' name ho' htarget (((hdone j).mp hj).resolve_right hsame)
  case kept =>
    intro name hname
    have hne : o.target ≠ .store name := fun htarget =>
      hname k o ho htarget ((hdone k).mpr (Or.inr rfl))
    rw [hothers name hne]
    apply h.kept
    intro j o' ho' htarget hj
    exact hname j o' ho' htarget ((hdone j).mpr (Or.inl hj))

/-- Stages that run after their parents make progress. -/
theorem progress_runStages (hclosed : u.Closed) (hlast : u.StoresLast) (hapart : u.StoresApart)
    {order : List Nat} (hnodup : order.Nodup) (hstages : ∀ n ∈ order, n < u.stages.length)
    (hparents : ∀ before n after, order = before ++ n :: after →
      ∀ s ∈ u.stages, s.id = n → ∀ parent ∈ s.parents, parent ∈ before) :
    u.Progress settings w order (u.runStages settings order w) := by
  induction order using List.reverseRecOn with
  | nil => exact progress_start u settings w
  | append_singleton before n ih =>
      have hbefore := ih (hnodup.sublist (List.sublist_append_left _ _))
        (fun m hm => hstages m (List.mem_append_left _ hm)) fun first m rest hsplit =>
          hparents first m (rest ++ [n]) (by rw [hsplit, List.append_assoc, List.cons_append])
      have hnew : n ∉ before := by
        intro hmem
        exact List.disjoint_of_nodup_append hnodup hmem (List.mem_singleton.mpr rfl)
      have hwaits : ∀ {plan : Operator},
          (∃ s ∈ u.stages, s.id = n ∧ s.parents = u.parentsOf plan) →
          (∀ id ∈ plan.sideInputs, id < u.sideInputs.length) →
          ∀ id ∈ plan.sideInputs, id ∈ before := by
        rintro plan ⟨s, hs, hid, hplan⟩ hbelow id hmem
        apply hparents before n [] rfl s hs hid
        rw [hplan]
        exact (hclosed.mem_parentsOf hbelow).mpr hmem
      have hrun : u.runStages settings (before ++ [n]) w =
          u.runStage settings (u.runStages settings before w) n := by
        simp [runStages]
      have hn := hstages n (List.mem_append_right _ (List.mem_singleton.mpr rfl))
      rw [length_stages] at hn
      rw [hrun]
      by_cases hside : n < u.sideInputs.length
      · have hp := List.getElem?_eq_getElem hside
        refine hbefore.sideInput hclosed hlast hapart hp
          (hwaits (exists_stage_sideInput hp) fun id hid => ?_)
        have hbelow := hclosed.below _ (List.mem_of_getElem? hp) id hid
        rw [hclosed.numbered n _ hp] at hbelow
        exact Nat.lt_trans hbelow hside
      · obtain ⟨k, rfl⟩ := Nat.exists_eq_add_of_le (Nat.not_lt.mp hside)
        have ho := List.getElem?_eq_getElem (Nat.lt_of_add_lt_add_left hn)
        exact hbefore.output hclosed hlast hapart ho hnew
          (hwaits (exists_stage_output ho) (hclosed.outputsBelow _ (List.mem_of_getElem? ho)))

theorem Progress.agree {done' : List Nat} {r' : StagesRun} (h : u.Progress settings w done r)
    (h' : u.Progress settings w done' r') (hdone : ∀ n, n ∈ done ↔ n ∈ done') :
    (∀ id, r.slots.find? (·.id = id) = r'.slots.find? (·.id = id)) ∧
      (∀ k, r.results.lookup (u.sideInputs.length + k) =
        r'.results.lookup (u.sideInputs.length + k)) ∧
      ∀ name, r.state.catalog.get name = r'.state.catalog.get name := by
  refine ⟨fun id => ?_, fun k => ?_, fun name => ?_⟩
  · rw [h.slots, h'.slots, if_congr (hdone id) rfl rfl]
  · rw [h.results, h'.results, if_congr (hdone _) rfl rfl]
  · by_cases hstored : ∃ (k : Nat) (o : OutputPlan), u.outputs[k]? = some o ∧
        o.target = .store name ∧ u.sideInputs.length + k ∈ done
    · obtain ⟨k, o, ho, htarget, hk⟩ := hstored
      rw [h.stored k o name ho htarget hk, h'.stored k o name ho htarget ((hdone _).mp hk)]
    · have hkept : ∀ (k : Nat) (o : OutputPlan), u.outputs[k]? = some o →
          o.target = .store name → u.sideInputs.length + k ∉ done :=
        fun k o ho htarget hk => hstored ⟨k, o, ho, htarget, hk⟩
      rw [h.kept name hkept, h'.kept name fun k o ho htarget => (hdone _).not.mp
        (hkept k o ho htarget)]

end Progress

end PhysicalUnit

end RelScript
