import RelScript.Proofs.Plan.Traversal

/-!
What a plan reads, said along its syntax: the aliases that it takes as relations, and those of which
its expressions take fields. The dependencies of a plan are exactly these aliases.
-/

namespace RelScript

/-- Somewhere in the expression a field of the alias is read. -/
def Expr.ReadsScalar (a : String) : Expr → Prop
  | scalarRef b _ => b = a
  | binary l _ r | junction _ l r => l.ReadsScalar a ∨ r.ReadsScalar a
  | cast e _ | not e => e.ReadsScalar a
  | column _ | position _ | columnRef _ _ | literal _ | relationRef _ | placeholder _ => False

/-- Somewhere in the plan the alias is read, as a relation or as a scalar. -/
def Plan.Reads (a : String) : Plan → Prop
  | load _ _ => False
  | relation b => b = a
  | project columns input => (∃ c ∈ columns, c.value.ReadsScalar a) ∨ input.Reads a
  | filter predicate input | split _ predicate input =>
    predicate.ReadsScalar a ∨ input.Reads a
  | aggregate keys aggregates input =>
    (∃ k ∈ keys, k.ReadsScalar a) ∨ (∃ g ∈ aggregates, g.value.arg.ReadsScalar a) ∨
      input.Reads a
  | join left right on =>
    (∃ k ∈ on, k.1.ReadsScalar a ∨ k.2.ReadsScalar a) ∨ left.Reads a ∨ right.Reads a
  | limit _ input | store _ input | sideInputs _ input => input.Reads a

theorem Expr.exists_scalarAlias_iff {a : String} {e : Expr} :
    (∃ x ∈ e.parts, x.scalarAlias? = some a) ↔ e.ReadsScalar a := by
  induction e with
  | binary l op r ihl ihr | junction j l r ihl ihr =>
      simp only [parts, List.mem_cons, List.mem_append, or_and_right, exists_or, exists_eq_left,
        ihl, ihr]
      simp [scalarAlias?, ReadsScalar]
  | cast e t ih | not e ih =>
      simp only [parts, List.mem_cons, or_and_right, exists_or, exists_eq_left, ih]
      simp [scalarAlias?, ReadsScalar]
  | _ => simp [parts, scalarAlias?, ReadsScalar]

namespace Plan

theorem reads_iff_node {a : String} {p : Plan} :
    p.Reads a ↔ (p.relationAlias? = some a ∨ ∃ e ∈ p.exprs, e.ReadsScalar a) ∨
      ∃ c ∈ p.children, c.Reads a := by
  cases p with
  | join left right on =>
      simp only [Reads, relationAlias?, exprs, children, List.mem_flatMap, List.mem_cons,
        List.not_mem_nil, or_false, exists_eq_or_imp, exists_eq_left, reduceCtorEq, false_or]
      refine or_congr_left ⟨?_, ?_⟩
      · rintro ⟨k, hk, h | h⟩
        · exact ⟨k.1, ⟨k, hk, Or.inl rfl⟩, h⟩
        · exact ⟨k.2, ⟨k, hk, Or.inr rfl⟩, h⟩
      · rintro ⟨e, ⟨k, hk, rfl | rfl⟩, h⟩
        · exact ⟨k, hk, Or.inl h⟩
        · exact ⟨k, hk, Or.inr h⟩
  | _ => simp [Reads, relationAlias?, exprs, children, or_and_right, exists_or, or_assoc]

theorem mem_dependencies {a : String} {p : Plan} :
    a ∈ p.dependencies ↔
      ∃ n ∈ p.nodes, n.relationAlias? = some a ∨ ∃ e ∈ n.exprs, e.ReadsScalar a := by
  simp only [dependencies, relationAliases, scalarAliases, List.mem_eraseDups, List.mem_append,
    List.mem_filterMap, List.mem_flatMap, Expr.exists_scalarAlias_iff]
  constructor
  · rintro (⟨n, hn, ha⟩ | ⟨e, ⟨n, hn, he⟩, ha⟩)
    · exact ⟨n, hn, Or.inl ha⟩
    · exact ⟨n, hn, Or.inr ⟨e, he, ha⟩⟩
  · rintro ⟨n, hn, ha | ⟨e, he, ha⟩⟩
    · exact Or.inl ⟨n, hn, ha⟩
    · exact Or.inr ⟨e, ⟨n, hn, he⟩, ha⟩

/-- The dependencies of a plan are the aliases that it reads. -/
theorem mem_dependencies_iff {a : String} {p : Plan} : a ∈ p.dependencies ↔ p.Reads a := by
  have hnode : ∀ {p : Plan}, (∀ c ∈ p.children, a ∈ c.dependencies ↔ c.Reads a) →
      (a ∈ p.dependencies ↔ p.Reads a) := by
    intro p ih
    rw [mem_dependencies, reads_iff_node]
    constructor
    · rintro ⟨n, hn, ha⟩
      rw [nodes_eq] at hn
      rcases List.mem_cons.mp hn with rfl | hn
      · exact Or.inl ha
      · obtain ⟨c, hc, hn⟩ := List.mem_flatMap.mp hn
        exact Or.inr ⟨c, hc, (ih c hc).mp (mem_dependencies.mpr ⟨n, hn, ha⟩)⟩
    · rintro (ha | ⟨c, hc, ha⟩)
      · exact ⟨p, mem_nodes_self p, ha⟩
      · obtain ⟨n, hn, ha⟩ := mem_dependencies.mp ((ih c hc).mpr ha)
        exact ⟨n, nodes_subset_of_child hc hn, ha⟩
  induction p with
  | load | relation => exact hnode (by simp [children])
  | join left right on ihl ihr => exact hnode (by simp [children, ihl, ihr])
  | _ =>
      rename_i ih
      exact hnode (by simp [children, ih])

end Plan

end RelScript
