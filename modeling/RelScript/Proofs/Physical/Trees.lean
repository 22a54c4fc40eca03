import RelScript.Physical.Basic
import RelScript.Proofs.Plan.Traversal

/-!
Operator trees: the side inputs that a tree waits for, the tables that it scans and those that it
stores to. A tree has all that its inputs have.
-/

namespace RelScript

namespace Operator

/-- The tables that the tree scans. -/
def sources (o : Operator) : List String :=
  o.nodes.filterMap fun
    | scan source _ _ => some source
    | _ => none

/-- The tables that the tree stores to. -/
def targets (o : Operator) : List String :=
  o.nodes.filterMap fun
    | store target _ => some target
    | _ => none

theorem mem_sideInputs {o : Operator} {id : SideInputId} :
    id ∈ o.sideInputs ↔ id ∈ o.nodes.flatMap Operator.ownSideInputs :=
  (Plan.lists_ascending _).2 id

theorem nodes_eq (o : Operator) : o.nodes = o :: o.children.flatMap nodes := by
  cases o <;> simp [nodes, children]

variable {o i : Operator}

theorem nodes_subset_of_child (h : i ∈ o.children) : i.nodes ⊆ o.nodes := by
  intro n hn
  rw [nodes_eq]
  exact List.mem_cons_of_mem _ (List.mem_flatMap.mpr ⟨i, h, hn⟩)

theorem sources_subset_of_child (h : i ∈ o.children) : i.sources ⊆ o.sources := by
  intro source hsource
  obtain ⟨n, hn, hscan⟩ := List.mem_filterMap.mp hsource
  exact List.mem_filterMap.mpr ⟨n, nodes_subset_of_child h hn, hscan⟩

theorem targets_subset_of_child (h : i ∈ o.children) : i.targets ⊆ o.targets := by
  intro target htarget
  obtain ⟨n, hn, hstore⟩ := List.mem_filterMap.mp htarget
  exact List.mem_filterMap.mpr ⟨n, nodes_subset_of_child h hn, hstore⟩

theorem sideInputs_subset_of_child (h : i ∈ o.children) : i.sideInputs ⊆ o.sideInputs := by
  intro id hid
  rw [mem_sideInputs, List.mem_flatMap] at hid ⊢
  obtain ⟨n, hn, hown⟩ := hid
  exact ⟨n, nodes_subset_of_child h hn, hown⟩

theorem targets_store (target : String) (input : Operator) :
    (store target input).targets = target :: input.targets := rfl

end Operator

end RelScript
