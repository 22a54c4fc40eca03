import RelScript.Proofs.Unit.Isolation

/-!
The graph that the stages of a unit make. Adding its edges one at a time to the parents of one stage
and to the children of the other gives the stages as they are defined, so the two lists mirror each
other. In an accepted unit every edge leads from a side input to a later stage that binds it.
-/

namespace RelScript

section Lists

/-- A list with an element at its end that it may have already. -/
def addNew (x : Nat) (items : List Nat) : List Nat := if x ∈ items then items else items ++ [x]

theorem eraseDups_concat (items : List Nat) (x : Nat) :
    (items ++ [x]).eraseDups = addNew x items.eraseDups := by
  rw [List.eraseDups_append, addNew]
  by_cases hx : x ∈ items <;> simp [List.removeAll, hx, List.eraseDups_cons]

theorem nodup_addNew {x : Nat} {items : List Nat} (h : items.Nodup) : (addNew x items).Nodup := by
  rw [addNew]
  split
  · exact h
  · rename_i hx
    rw [← List.concat_eq_append]
    exact h.concat hx

theorem nodup_eraseDups (items : List Nat) : items.eraseDups.Nodup := by
  induction items using List.reverseRecOn with
  | nil => exact List.nodup_nil
  | append_singleton items x ih =>
      rw [eraseDups_concat]
      exact nodup_addNew ih

theorem eraseDups_sublist (items : List Nat) : items.eraseDups.Sublist items := by
  induction items using List.reverseRecOn with
  | nil => exact .slnil
  | append_singleton items x ih =>
      rw [eraseDups_concat, addNew]
      split
      · exact ih.trans (List.sublist_append_left _ _)
      · exact ih.append_right _

theorem eraseDups_eq_of_mem_iff {items sorted : List Nat} (hitems : items.Pairwise (· ≤ ·))
    (hsorted : sorted.Pairwise (· < ·)) (hmem : ∀ x, x ∈ items ↔ x ∈ sorted) :
    items.eraseDups = sorted := by
  have hperm : items.eraseDups.Perm sorted := by
    rw [List.perm_ext_iff_of_nodup (nodup_eraseDups items) hsorted.nodup]
    exact fun x => List.mem_eraseDups.trans (hmem x)
  exact hperm.eq_of_pairwise (fun _ _ _ _ => Nat.le_antisymm)
    (hitems.sublist (eraseDups_sublist items)) (hsorted.imp Nat.le_of_lt)

end Lists

section Linking

/-- Adds an edge to the children of its first stage and to the parents of its second one. -/
def addEdge (stages : List Stage) (edge : Nat × Nat) : List Stage :=
  (stages.modify edge.1 fun s => { s with children := addNew edge.2 s.children }).modify edge.2
    fun s => { s with parents := addNew edge.1 s.parents }

/-- The stage at `n` with all edges that lead to it and from it. -/
def Stage.linkedBy (edges : List (Nat × Nat)) (n : Nat) (s : Stage) : Stage :=
  { s with
    parents := ((edges.filter (·.2 = n)).map (·.1)).eraseDups
    children := ((edges.filter (·.1 = n)).map (·.2)).eraseDups }

theorem Stage.linkedBy_concat (edges : List (Nat × Nat)) (edge : Nat × Nat) (n : Nat) (s : Stage) :
    s.linkedBy (edges ++ [edge]) n =
      { s.linkedBy edges n with
        parents := if edge.2 = n then addNew edge.1 (s.linkedBy edges n).parents
          else (s.linkedBy edges n).parents
        children := if edge.1 = n then addNew edge.2 (s.linkedBy edges n).children
          else (s.linkedBy edges n).children } := by
  by_cases hto : edge.2 = n <;> by_cases hfrom : edge.1 = n <;>
    simp [linkedBy, hto, hfrom, eraseDups_concat]

theorem getElem?_foldl_addEdge {stages : List Stage}
    (hbare : ∀ s ∈ stages, s.parents = [] ∧ s.children = []) (edges : List (Nat × Nat)) (n : Nat) :
    (edges.foldl addEdge stages)[n]? = stages[n]?.map (Stage.linkedBy edges n) := by
  induction edges using List.reverseRecOn with
  | nil =>
      cases hs : stages[n]? with
      | none => exact hs
      | some s =>
          obtain ⟨id, kind, operators, parents, children⟩ := s
          obtain ⟨rfl, rfl⟩ := hbare _ (List.mem_of_getElem? hs)
          simp [hs, Stage.linkedBy]
  | append_singleton edges edge ih =>
      rw [List.foldl_append, List.foldl_cons, List.foldl_nil, addEdge, List.getElem?_modify,
        List.getElem?_modify, ih]
      cases stages[n]? with
      | none => rfl
      | some s =>
          simp only [Option.map_some, Option.map_eq_map, Stage.linkedBy_concat]
          split <;> split <;> rfl

namespace PhysicalUnit

/-- The edges of a unit in the order in which they are found: stage by stage, from the side inputs
that the stage waits for. -/
def edges (u : PhysicalUnit) : List (Nat × Nat) :=
  u.stageWork.zipIdx.flatMap fun w => (w.1.2.sideInputs.filterMap u.stageOf?).map (·, w.2)

/-- The stages of a unit before any edge. -/
def bareStages (u : PhysicalUnit) : List Stage :=
  u.stageWork.zipIdx.map fun w => ⟨w.2, w.1.1, w.1.2.nodes.map (·.name), [], []⟩

/-- The stages of a unit, linked by its edges one after the other. -/
def linkedStages (u : PhysicalUnit) : List Stage := u.edges.foldl addEdge u.bareStages

variable {u : PhysicalUnit} {n parent child : Nat} {kind : StageKind} {plan : Operator} {s : Stage}

theorem getElem?_stages :
    u.stages[n]? = u.stageWork[n]?.map fun w =>
      ⟨n, w.1, w.2.nodes.map (·.name), u.parentsOf w.2, u.childrenOf n⟩ := by
  rw [stages, List.getElem?_map, List.getElem?_zipIdx]
  cases u.stageWork[n]? <;> simp

theorem mem_edges :
    (parent, child) ∈ u.edges ↔ ∃ w, u.stageWork[child]? = some w ∧ parent ∈ u.parentsOf w.2 := by
  simp [edges, parentsOf, List.mem_zipIdx_iff_getElem?]

theorem mem_childrenOf :
    child ∈ u.childrenOf parent ↔ (parent, child) ∈ u.edges := by
  simp [mem_edges, childrenOf, List.mem_zipIdx_iff_getElem?]

theorem pairwise_places (u : PhysicalUnit) :
    (u.stageWork.zipIdx.map Prod.snd).Pairwise (· < ·) := by
  rw [List.zipIdx_map_snd]
  exact List.pairwise_lt_range'

theorem edges_to (h : u.stageWork[n]? = some (kind, plan)) :
    (u.edges.filter (·.2 = n)).map (·.1) = plan.sideInputs.filterMap u.stageOf? := by
  have hfilter : ∀ w : (StageKind × Operator) × Nat,
      (((w.1.2.sideInputs.filterMap u.stageOf?).map (·, w.2)).filter (·.2 = n)).map (·.1) =
        if w.2 = n then w.1.2.sideInputs.filterMap u.stageOf? else [] := by
    intro w
    by_cases hn : w.2 = n <;> simp [List.filter_map, Function.comp_def, hn]
  rw [edges, List.filter_flatMap, List.map_flatMap]
  simp only [hfilter]
  have hmem : ((kind, plan), n) ∈ u.stageWork.zipIdx := List.mem_zipIdx_iff_getElem?.mpr h
  exact flatMap_of_key (pairwise_places u).nodup
    (fun w => w.1.2.sideInputs.filterMap u.stageOf?) hmem

theorem pairwise_childrenOf (u : PhysicalUnit) (parent : Nat) :
    (u.childrenOf parent).Pairwise (· < ·) :=
  (pairwise_places u).sublist (List.filter_sublist.map _)

theorem pairwise_edges (u : PhysicalUnit) : (u.edges.map (·.2)).Pairwise (· ≤ ·) := by
  have hsorted : u.stageWork.zipIdx.Pairwise (·.2 < ·.2) := List.pairwise_map.mp (pairwise_places u)
  rw [edges, List.map_flatMap, List.pairwise_flatMap]
  refine ⟨fun w _ => ?_, hsorted.imp fun hlt a ha b hb => ?_⟩
  · simp only [List.map_map, Function.comp_def, List.map_const']
    exact List.pairwise_replicate.mpr (.inr le_rfl)
  · simp only [List.map_map, Function.comp_def, List.map_const', List.mem_replicate] at ha hb
    omega

theorem edges_from (u : PhysicalUnit) (n : Nat) :
    ((u.edges.filter (·.1 = n)).map (·.2)).eraseDups = u.childrenOf n := by
  refine eraseDups_eq_of_mem_iff ((pairwise_edges u).sublist (List.filter_sublist.map _))
    (pairwise_childrenOf u n) fun child => ?_
  simp [mem_childrenOf]

/-- Edges that are added one at a time give the stages as they are defined. -/
theorem linkedStages_eq (u : PhysicalUnit) : u.linkedStages = u.stages := by
  have hbare : ∀ s ∈ u.bareStages, s.parents = [] ∧ s.children = [] := by
    intro s hs
    obtain ⟨w, -, rfl⟩ := List.mem_map.mp hs
    exact ⟨rfl, rfl⟩
  apply List.ext_getElem?
  intro n
  rw [linkedStages, getElem?_foldl_addEdge hbare, getElem?_stages, bareStages, List.getElem?_map,
    List.getElem?_zipIdx]
  cases hw : u.stageWork[n]? with
  | none => rfl
  | some w => simp [Stage.linkedBy, edges_to hw, edges_from, parentsOf]

end PhysicalUnit

end Linking

theorem Operator.mem_sideInputs_iff {o : Operator} {id : SideInputId} :
    id ∈ o.sideInputs ↔ ∃ ids input, .broadcast ids input ∈ o.nodes ∧ id ∈ ids := by
  constructor
  · intro h
    obtain ⟨node, hnode, hid⟩ := List.mem_flatMap.mp (mem_sideInputs.mp h)
    cases node with
    | broadcast ids input => exact ⟨ids, input, hnode, hid⟩
    | _ => cases hid
  · rintro ⟨ids, input, hnode, hid⟩
    exact mem_sideInputs.mpr (List.mem_flatMap.mpr ⟨_, hnode, hid⟩)

namespace PhysicalUnit

/-- Some broadcast of the plan of a stage binds the side input. -/
def Binds (u : PhysicalUnit) (stage : Nat) (id : SideInputId) : Prop :=
  ∃ kind plan, u.stageWork[stage]? = some (kind, plan) ∧
    ∃ ids input, .broadcast ids input ∈ plan.nodes ∧ id ∈ ids

/-- The stages of a unit are an acyclic graph. They are the ones that edges added one at a time
link; side inputs come first, in the order of their numbers, and then the outputs. An edge leads
from the stage of a side input to a later stage that binds it, and both of the stages have it. -/
structure StageGraph (u : PhysicalUnit) : Prop where
  linked : u.linkedStages = u.stages
  ids : ∀ n (s : Stage), u.stages[n]? = some s → s.id = n
  kinds : u.stages.map (·.kind) = (List.range u.sideInputs.length).map .sideInput ++
    u.outputs.map (.output ·.aliasName)
  mirrored : ∀ p c (s t : Stage), u.stages[p]? = some s → u.stages[c]? = some t →
    (p ∈ t.parents ↔ c ∈ s.children)
  edge : ∀ p c (s t : Stage), u.stages[p]? = some s → u.stages[c]? = some t →
    (p ∈ t.parents ↔ ∃ id, s.kind = .sideInput id ∧ u.Binds c id)
  nodup : ∀ s ∈ u.stages, s.parents.Nodup ∧ s.children.Nodup
  parentsBefore : ∀ s ∈ u.stages, ∀ p ∈ s.parents, p < s.id
  childrenAfter : ∀ s ∈ u.stages, ∀ c ∈ s.children, s.id < c ∧ c < u.stages.length
  acyclic : ∀ n, ¬ Relation.TransGen (fun p c => ∃ s ∈ u.stages, s.id = c ∧ p ∈ s.parents) n n
  sinks : ∀ s ∈ u.stages, ∀ a, s.kind = .output a → s.children = []
  rooted : u.stages ≠ [] → u.rootStages ≠ []

section Graph

variable {u : PhysicalUnit} {n p c : Nat} {s t : Stage}

theorem id_of_getElem?_stages (h : u.stages[n]? = some s) : s.id = n := by
  rw [getElem?_stages, Option.map_eq_some_iff] at h
  obtain ⟨w, -, rfl⟩ := h
  rfl

theorem getElem?_stages_of_mem (h : s ∈ u.stages) : u.stages[s.id]? = some s := by
  obtain ⟨n, hn⟩ := List.getElem?_of_mem h
  rwa [id_of_getElem?_stages hn]

theorem mem_parents_iff (h : u.stages[c]? = some t) : p ∈ t.parents ↔ (p, c) ∈ u.edges := by
  rw [getElem?_stages, Option.map_eq_some_iff] at h
  obtain ⟨w, hw, rfl⟩ := h
  simp [mem_edges, hw]

theorem mem_children_iff (h : u.stages[p]? = some s) : c ∈ s.children ↔ (p, c) ∈ u.edges := by
  rw [getElem?_stages, Option.map_eq_some_iff] at h
  obtain ⟨w, hw, rfl⟩ := h
  exact mem_childrenOf

theorem nodup_parents_children (h : s ∈ u.stages) : s.parents.Nodup ∧ s.children.Nodup := by
  have hs := getElem?_stages_of_mem h
  rw [getElem?_stages, Option.map_eq_some_iff] at hs
  obtain ⟨w, -, hs⟩ := hs
  rw [← hs]
  exact ⟨nodup_eraseDups _, (pairwise_childrenOf u _).nodup⟩

theorem Closed.kinds (h : u.Closed) : u.stages.map (·.kind) =
    (List.range u.sideInputs.length).map .sideInput ++ u.outputs.map (.output ·.aliasName) := by
  have hids : u.sideInputs.map (fun p => StageKind.sideInput p.id) =
      (List.range u.sideInputs.length).map .sideInput := by
    rw [← h.ordered.map_id, List.map_map]
    rfl
  have hwork : u.stages.map (·.kind) = u.stageWork.map (·.1) := by
    rw [stages, List.map_map, ← List.zipIdx_map_fst 0 u.stageWork, List.map_map]
    simp [Function.comp_def]
  simp [hwork, stageWork, ← hids, Function.comp_def]

theorem Closed.kind_eq_sideInput_iff (h : u.Closed) (hs : u.stages[n]? = some s)
    {id : SideInputId} : s.kind = .sideInput id ↔ n = id ∧ n < u.sideInputs.length := by
  have hkind : (u.stages.map (·.kind))[n]? = some s.kind := by
    rw [List.getElem?_map, hs]
    rfl
  rw [h.kinds, List.getElem?_append, List.length_map, List.length_range] at hkind
  split at hkind
  · rename_i hlt
    rw [List.getElem?_map, List.getElem?_range hlt] at hkind
    have hn : .sideInput n = s.kind := Option.some.inj hkind
    simp [← hn, hlt]
  · rename_i hge
    rw [List.getElem?_map, Option.map_eq_some_iff] at hkind
    obtain ⟨o, -, ho⟩ := hkind
    simp [← ho, hge]

theorem Closed.below_of_stageWork (h : u.Closed) {kind : StageKind} {plan : Operator}
    (hw : (kind, plan) ∈ u.stageWork) : ∀ id ∈ plan.sideInputs, id < u.sideInputs.length := by
  intro id hid
  rcases List.mem_append.mp hw with hside | houtput
  · obtain ⟨q, hq, hwork⟩ := List.mem_map.mp hside
    cases hwork
    obtain ⟨k, hk⟩ := List.getElem?_of_mem hq
    have hlt := (List.getElem?_eq_some_iff.mp hk).1
    have hbelow := h.below q hq id hid
    rw [h.numbered k q hk] at hbelow
    exact Nat.lt_trans hbelow hlt
  · obtain ⟨o, ho, hwork⟩ := List.mem_map.mp houtput
    cases hwork
    exact h.outputsBelow o ho id hid

theorem Closed.mem_edges_iff (h : u.Closed) : (p, c) ∈ u.edges ↔ u.Binds c p := by
  constructor
  · intro hedge
    obtain ⟨⟨kind, plan⟩, hw, hparent⟩ := mem_edges.mp hedge
    have hbelow := h.below_of_stageWork (List.mem_of_getElem? hw)
    exact ⟨kind, plan, hw, Operator.mem_sideInputs_iff.mp ((h.mem_parentsOf hbelow).mp hparent)⟩
  · rintro ⟨kind, plan, hw, hbinds⟩
    have hbelow := h.below_of_stageWork (List.mem_of_getElem? hw)
    exact mem_edges.mpr
      ⟨_, hw, (h.mem_parentsOf hbelow).mpr (Operator.mem_sideInputs_iff.mpr hbinds)⟩

theorem Closed.edge_lt (h : u.Closed) (hedge : (p, c) ∈ u.edges) :
    p < u.sideInputs.length ∧ p < c ∧ c < u.stages.length := by
  obtain ⟨⟨kind, plan⟩, hw, hparent⟩ := mem_edges.mp hedge
  have hbelow := h.below_of_stageWork (List.mem_of_getElem? hw)
  have hstage : u.stages[c]? = some _ := getElem?_stages.trans (congrArg _ hw)
  exact ⟨hbelow p ((h.mem_parentsOf hbelow).mp hparent),
    h.parents_lt (List.mem_of_getElem? hstage) p hparent, (List.getElem?_eq_some_iff.mp hstage).1⟩

theorem Closed.stageGraph (h : u.Closed) : u.StageGraph where
  linked := linkedStages_eq u
  ids _ _ := id_of_getElem?_stages
  kinds := h.kinds
  mirrored p c s t hs ht := by rw [mem_parents_iff ht, mem_children_iff hs]
  edge p c s t hs ht := by
    rw [mem_parents_iff ht, h.mem_edges_iff]
    constructor
    · intro hbinds
      have hlt := (h.edge_lt (h.mem_edges_iff.mpr hbinds)).1
      exact ⟨p, (h.kind_eq_sideInput_iff hs).mpr ⟨rfl, hlt⟩, hbinds⟩
    · rintro ⟨id, hkind, hbinds⟩
      obtain ⟨rfl, -⟩ := (h.kind_eq_sideInput_iff hs).mp hkind
      exact hbinds
  nodup _ := nodup_parents_children
  parentsBefore _ := h.parents_lt
  childrenAfter s hs c hc :=
    (h.edge_lt ((mem_children_iff (getElem?_stages_of_mem hs)).mp hc)).2
  acyclic n hcycle := by
    -- Edges only lead to greater numbers.
    have hpath : ∀ p c, Relation.TransGen
        (fun p c => ∃ s ∈ u.stages, s.id = c ∧ p ∈ s.parents) p c → p < c := by
      intro p c hpath
      induction hpath with
      | single hedge =>
          obtain ⟨s, hs, rfl, hparent⟩ := hedge
          exact h.parents_lt hs _ hparent
      | tail _ hedge ih =>
          obtain ⟨s, hs, rfl, hparent⟩ := hedge
          exact Nat.lt_trans ih (h.parents_lt hs _ hparent)
    exact Nat.lt_irrefl n (hpath n n hcycle)
  sinks s hs a hkind := by
    rw [List.eq_nil_iff_forall_not_mem]
    intro c hc
    have hs := getElem?_stages_of_mem hs
    have hlt := (h.edge_lt ((mem_children_iff hs).mp hc)).1
    rw [(h.kind_eq_sideInput_iff hs).mpr ⟨rfl, hlt⟩] at hkind
    cases hkind
  rooted hne := by
    obtain ⟨s, rest, hstages⟩ := List.exists_cons_of_ne_nil hne
    have hs : s ∈ u.stages := hstages ▸ List.mem_cons_self
    have hid : s.id = 0 := id_of_getElem?_stages (n := 0) (by rw [hstages]; rfl)
    have hnone : s.parents = [] := by
      rw [List.eq_nil_iff_forall_not_mem]
      intro p hp
      have hlt := h.parents_lt hs p hp
      omega
    refine List.ne_nil_of_mem (List.mem_map.mpr ⟨s, List.mem_filter.mpr ⟨hs, ?_⟩, rfl⟩)
    rw [hnone]
    rfl

end Graph

end PhysicalUnit

/-- The stages of an accepted unit are an acyclic graph, whose outputs are its statements. -/
theorem Script.stages_wellFormed {script : Script} {statements : List Statement}
    {u : CompiledUnit} (hscript : script.IsScripted) (h : script.compile statements = .ok u)
    {batchSize : Nat} {phys : PhysicalUnit} (hphys : u.lower batchSize = .ok phys) :
    phys.StageGraph ∧
      phys.outputs.map (fun o => (⟨o.aliasName, o.target⟩ : Statement)) = statements :=
  ⟨(Script.closed_of_lower hscript h hphys).stageGraph, Script.outputs_of_lower h hphys⟩

theorem bestOrders_stageGraph : ∃ u phys, bestOrders.compile orderStores = .ok u ∧
    u.lower 8192 = .ok phys ∧ phys.StageGraph ∧
      phys.stages.map (·.kind) = [.sideInput 0, .output "top", .output "orders"] := by
  obtain ⟨u, phys, hu, hphys, -, hsides, -, -⟩ := bestOrders_stages
  obtain ⟨hgraph, houtputs⟩ := Script.stages_wellFormed isScripted_bestOrders hu hphys
  refine ⟨u, phys, hu, hphys, hgraph, ?_⟩
  have hlength : phys.sideInputs.length = 1 := by simpa using congrArg List.length hsides
  have hnames := congrArg (List.map fun s => StageKind.output s.aliasName) houtputs
  rw [List.map_map] at hnames
  change phys.outputs.map (fun o => StageKind.output o.aliasName) = _ at hnames
  rw [hgraph.kinds, hlength, hnames]
  rfl

end RelScript
