import Mathlib.Data.List.Sort
import RelScript.Script.ScalarBinding

/-!
Plans under changes to the leaves of their expressions, what a plan reads and writes, and the lists
of side inputs around the nodes that read them.
-/

namespace RelScript

namespace Expr

/-- The expression with its leaves replaced. -/
def mapLeaves (f : Expr → Expr) : Expr → Expr
  | binary l op r => binary (l.mapLeaves f) op (r.mapLeaves f)
  | cast e t => cast (e.mapLeaves f) t
  | junction j l r => junction j (l.mapLeaves f) (r.mapLeaves f)
  | not e => not (e.mapLeaves f)
  | leaf => f leaf

/-- The placeholder that a part is. -/
def placeholder? : Expr → Option Placeholder
  | placeholder p => some p
  | _ => none

/-- The placeholders in an expression, in order of appearance. -/
def placeholders (e : Expr) : List Placeholder := e.parts.filterMap placeholder?

@[simp] theorem placeholders_binary (l r : Expr) (op : BinaryOp) :
    (binary l op r).placeholders = l.placeholders ++ r.placeholders := by
  simp [placeholders, parts, List.filterMap_cons, placeholder?]

@[simp] theorem placeholders_cast (e : Expr) (t : DataType) :
    (cast e t).placeholders = e.placeholders := by
  simp [placeholders, parts, List.filterMap_cons, placeholder?]

@[simp] theorem placeholders_junction (j : Junction) (l r : Expr) :
    (junction j l r).placeholders = l.placeholders ++ r.placeholders := by
  simp [placeholders, parts, List.filterMap_cons, placeholder?]

@[simp] theorem placeholders_not (e : Expr) : (not e).placeholders = e.placeholders := by
  simp [placeholders, parts, List.filterMap_cons, placeholder?]

end Expr

namespace Plan

/-- The plan with its expressions replaced. -/
def mapExprs (f : Expr → Expr) : Plan → Plan
  | load source schema => load source schema
  | relation aliasName => relation aliasName
  | project columns input => project (columns.map fun c => ⟨f c.value, c.name⟩) (input.mapExprs f)
  | filter predicate input => filter (f predicate) (input.mapExprs f)
  | split branch predicate input => split branch (f predicate) (input.mapExprs f)
  | aggregate keys aggregates input =>
    aggregate (keys.map f) (aggregates.map fun a => ⟨⟨a.value.fn, f a.value.arg⟩, a.name⟩)
      (input.mapExprs f)
  | join left right on =>
    join (left.mapExprs f) (right.mapExprs f) (on.map fun k => (f k.1, f k.2))
  | limit count input => limit count (input.mapExprs f)
  | store target input => store target (input.mapExprs f)
  | sideInputs ids input => sideInputs ids (input.mapExprs f)

/-- All expressions of a plan, every node's before those of its inputs. -/
def allExprs (p : Plan) : List Expr := p.nodes.flatMap exprs

/-- All placeholders of a plan. -/
def placeholders (p : Plan) : List Placeholder := p.allExprs.flatMap Expr.placeholders

theorem nodes_eq (p : Plan) : p.nodes = p :: p.children.flatMap nodes := by
  cases p <;> simp [nodes, children]

theorem mem_nodes_self (p : Plan) : p ∈ p.nodes := by
  rw [nodes_eq]
  exact List.mem_cons_self

theorem nodes_subset_of_child {p c : Plan} (hc : c ∈ p.children) : c.nodes ⊆ p.nodes := by
  intro n hn
  rw [nodes_eq]
  exact List.mem_cons_of_mem _ (List.mem_flatMap.mpr ⟨c, hc, hn⟩)

theorem nodes_subset_of_mem {p n : Plan} (hn : n ∈ p.nodes) : n.nodes ⊆ p.nodes := by
  induction p with
  | load | relation =>
      rw [List.mem_singleton.mp hn]
      exact List.Subset.refl _
  | join left right on ihl ihr =>
      rcases List.mem_cons.mp hn with rfl | hn
      · exact List.Subset.refl _
      · rcases List.mem_append.mp hn with hn | hn
        · exact List.Subset.trans (ihl hn) (nodes_subset_of_child List.mem_cons_self)
        · exact List.Subset.trans (ihr hn)
            (nodes_subset_of_child (List.mem_cons_of_mem _ List.mem_cons_self))
  | _ =>
      rename_i ih
      rcases List.mem_cons.mp hn with rfl | hn
      · exact List.Subset.refl _
      · exact List.Subset.trans (ih hn) (nodes_subset_of_child (List.mem_singleton.mpr rfl))

theorem allExprs_eq (p : Plan) : p.allExprs = p.exprs ++ p.children.flatMap allExprs := by
  rw [allExprs, nodes_eq, List.flatMap_cons, List.flatMap_assoc]
  rfl

theorem exprs_join (left right : Plan) (on : List (Expr × Expr)) :
    (join left right on).exprs = on.flatMap fun k => [k.1, k.2] := rfl

theorem mem_exprs_join {left right : Plan} {on : List (Expr × Expr)} {k : Expr × Expr}
    (hk : k ∈ on) : k.1 ∈ (join left right on).exprs ∧ k.2 ∈ (join left right on).exprs :=
  ⟨List.mem_flatMap.mpr ⟨k, hk, List.mem_cons_self⟩,
    List.mem_flatMap.mpr ⟨k, hk, List.mem_cons_of_mem _ List.mem_cons_self⟩⟩

theorem exprs_mapExprs (f : Expr → Expr) (p : Plan) : (p.mapExprs f).exprs = p.exprs.map f := by
  cases p with
  | join left right on =>
      simp only [mapExprs, exprs, List.flatMap_map, List.map_flatMap, List.map_cons, List.map_nil]
  | _ => simp [mapExprs, exprs]

theorem nodes_mapExprs (f : Expr → Expr) (p : Plan) :
    (p.mapExprs f).nodes = p.nodes.map (·.mapExprs f) := by
  induction p with
  | join left right on ihl ihr => simp [mapExprs, nodes, ihl, ihr]
  | _ => simp_all [mapExprs, nodes]

theorem allExprs_mapExprs (f : Expr → Expr) (p : Plan) :
    (p.mapExprs f).allExprs = p.allExprs.map f := by
  simp only [allExprs, nodes_mapExprs, List.flatMap_map, List.map_flatMap, exprs_mapExprs]

theorem mapExprs_mapExprs (f g : Expr → Expr) (p : Plan) :
    (p.mapExprs f).mapExprs g = p.mapExprs (fun e => g (f e)) := by
  induction p with
  | _ => simp_all [mapExprs, Function.comp_def]

theorem mapExprs_congr {f g : Expr → Expr} {p : Plan} (h : ∀ e ∈ p.allExprs, f e = g e) :
    p.mapExprs f = p.mapExprs g := by
  induction p with
  | load source schema => rfl
  | relation aliasName => rfl
  | project columns input ih =>
      simp only [allExprs, nodes, List.flatMap_cons, exprs, List.mem_append] at h
      have hcolumns : ∀ c ∈ columns, f c.value = g c.value :=
        fun c hc => h c.value (Or.inl (List.mem_map_of_mem hc))
      rw [mapExprs, mapExprs, ih fun e he => h e (Or.inr he)]
      congr 1
      exact List.map_congr_left fun c hc => by rw [hcolumns c hc]
  | filter predicate input ih | split branch predicate input ih =>
      simp only [allExprs, nodes, List.flatMap_cons, exprs, List.mem_append,
        List.mem_singleton] at h
      rw [mapExprs, mapExprs, ih fun e he => h e (Or.inr he), h predicate (Or.inl rfl)]
  | aggregate keys aggregates input ih =>
      simp only [allExprs, nodes, List.flatMap_cons, exprs, List.mem_append] at h
      have hkeys : ∀ k ∈ keys, f k = g k := fun k hk => h k (Or.inl (Or.inl hk))
      have hargs : ∀ a ∈ aggregates, f a.value.arg = g a.value.arg :=
        fun a ha => h a.value.arg (Or.inl (Or.inr (List.mem_map_of_mem ha)))
      rw [mapExprs, mapExprs, ih fun e he => h e (Or.inr he), List.map_congr_left hkeys]
      congr 1
      exact List.map_congr_left fun a ha => by rw [hargs a ha]
  | join left right on ihl ihr =>
      simp only [allExprs, nodes, List.flatMap_cons, List.flatMap_append, exprs,
        List.mem_append, List.mem_flatMap] at h
      have hkeys : ∀ k ∈ on, f k.1 = g k.1 ∧ f k.2 = g k.2 := fun k hk =>
        ⟨h k.1 (Or.inl ⟨k, hk, by simp⟩), h k.2 (Or.inl ⟨k, hk, by simp⟩)⟩
      rw [mapExprs, mapExprs, ihl fun e he => h e (Or.inr (Or.inl (List.mem_flatMap.mp he))),
        ihr fun e he => h e (Or.inr (Or.inr (List.mem_flatMap.mp he)))]
      congr 1
      exact List.map_congr_left fun k hk => by rw [(hkeys k hk).1, (hkeys k hk).2]
  | limit count input ih | store target input ih | sideInputs ids input ih =>
      simp only [allExprs, nodes, List.flatMap_cons, exprs, List.nil_append] at h
      rw [mapExprs, mapExprs, ih h]

/-- What a node reads or writes outside of its unit. -/
inductive Access
  | load (source : String) (schema : RelationSchema)
  | relation (aliasName : String)
  | store (target : String)

/-- The table or the alias that a node reads or writes. -/
def access? : Plan → Option Access
  | load source schema => some (.load source schema)
  | relation aliasName => some (.relation aliasName)
  | store target _ => some (.store target)
  | _ => none

/-- What a plan reads and writes. -/
def accesses (p : Plan) : List Access := p.nodes.filterMap access?

theorem accesses_subset_of_child {p c : Plan} (hc : c ∈ p.children) :
    c.accesses ⊆ p.accesses := by
  intro x hx
  obtain ⟨n, hn, hnx⟩ := List.mem_filterMap.mp hx
  exact List.mem_filterMap.mpr ⟨n, nodes_subset_of_child hc hn, hnx⟩

theorem accesses_mapExprs (f : Expr → Expr) (p : Plan) :
    (p.mapExprs f).accesses = p.accesses := by
  have hnode : (fun n : Plan => access? (n.mapExprs f)) = access? := by
    funext n
    cases n <;> rfl
  rw [accesses, nodes_mapExprs, List.filterMap_map, accesses]
  exact congrArg (List.filterMap · p.nodes) hnode

/-- The side inputs that the expressions of a node itself read. -/
def reads (p : Plan) : List SideInputId :=
  (p.exprs.flatMap Expr.placeholders).map (·.sideInput)

/-- A node under the list of the side inputs that it reads, if it reads any. -/
def listed (node : Plan) : Plan := ScalarScope.wrap node node.reads

/-- The plan with new lists of side inputs: around every node that reads some, and nowhere else. -/
def relist : Plan → Plan
  | load source schema => load source schema
  | relation aliasName => relation aliasName
  | project columns input => listed (project columns input.relist)
  | filter predicate input => listed (filter predicate input.relist)
  | split branch predicate input => listed (split branch predicate input.relist)
  | aggregate keys aggregates input => listed (aggregate keys aggregates input.relist)
  | join left right on => listed (join left.relist right.relist on)
  | limit count input => limit count input.relist
  | store target input => store target input.relist
  | sideInputs _ input => input.relist

theorem wrap_cases (node : Plan) (used : List SideInputId) :
    used = [] ∧ ScalarScope.wrap node used = node ∨
      used ≠ [] ∧ ScalarScope.wrap node used = sideInputs (ascending used) node := by
  cases used with
  | nil => exact Or.inl ⟨rfl, rfl⟩
  | cons id used => exact Or.inr ⟨List.cons_ne_nil _ _, rfl⟩

@[simp] theorem allExprs_wrap (node : Plan) (used : List SideInputId) :
    (ScalarScope.wrap node used).allExprs = node.allExprs := by
  cases used <;> rfl

@[simp] theorem allExprs_listed (node : Plan) : node.listed.allExprs = node.allExprs :=
  allExprs_wrap node node.reads

@[simp] theorem accesses_wrap (node : Plan) (used : List SideInputId) :
    (ScalarScope.wrap node used).accesses = node.accesses := by
  cases used <;> rfl

@[simp] theorem accesses_listed (node : Plan) : node.listed.accesses = node.accesses :=
  accesses_wrap node node.reads

theorem allExprs_relist (p : Plan) : p.relist.allExprs = p.allExprs := by
  induction p with
  | load | relation => rfl
  | _ =>
      simp only [relist, allExprs_listed]
      simp_all [allExprs, nodes, exprs]

theorem accesses_relist (p : Plan) : p.relist.accesses = p.accesses := by
  induction p with
  | load | relation => rfl
  | _ =>
      simp only [relist, accesses_listed]
      simp_all [accesses, nodes, access?, List.filterMap_cons]

theorem mapExprs_listed_relist (f : Expr → Expr) (node : Plan) :
    (node.listed.mapExprs f).relist = (node.mapExprs f).relist := by
  rcases wrap_cases node node.reads with ⟨-, h⟩ | ⟨-, h⟩
  · rw [listed, h]
  · rw [listed, h, mapExprs, relist]

/-- Lists of side inputs that will be replaced do not matter. -/
theorem relist_mapExprs_relist (f : Expr → Expr) (p : Plan) :
    (p.relist.mapExprs f).relist = (p.mapExprs f).relist := by
  induction p with
  | load | relation => rfl
  | _ =>
      simp only [relist, mapExprs_listed_relist]
      simp_all [mapExprs, relist]

/-- A list holds exactly the given numbers, in strictly ascending order. -/
def Lists (ids used : List SideInputId) : Prop :=
  ids.Pairwise (· < ·) ∧ ∀ id, id ∈ ids ↔ id ∈ used

/-- Every node that reads side inputs stands directly under a list of exactly these, and there are
no other lists. `above` is the list right above the plan, empty if there is none. -/
def Listed : Plan → (above : List SideInputId) → Prop
  | load _ _, above => above = []
  | relation _, above => above = []
  | project columns input, above => Lists above (project columns input).reads ∧ input.Listed []
  | filter predicate input, above => Lists above (filter predicate input).reads ∧ input.Listed []
  | split branch predicate input, above =>
    Lists above (split branch predicate input).reads ∧ input.Listed []
  | aggregate keys aggregates input, above =>
    Lists above (aggregate keys aggregates input).reads ∧ input.Listed []
  | join left right on, above =>
    Lists above (join left right on).reads ∧ left.Listed [] ∧ right.Listed []
  | limit _ input, above => above = [] ∧ input.Listed []
  | store _ input, above => above = [] ∧ input.Listed []
  | sideInputs ids input, above => above = [] ∧ ids ≠ [] ∧ input.Listed ids

theorem mem_insertAscending {n m : Nat} {ns : List Nat} :
    m ∈ insertAscending n ns ↔ m = n ∨ m ∈ ns := by
  induction ns with
  | nil => simp [insertAscending]
  | cons k ns ih =>
      rw [insertAscending]
      split
      · simp
      split
      · rename_i hnk
        simp [hnk]
      · rw [List.mem_cons, ih, List.mem_cons]
        tauto

theorem pairwise_insertAscending {n : Nat} {ns : List Nat} (hns : ns.Pairwise (· < ·)) :
    (insertAscending n ns).Pairwise (· < ·) := by
  induction ns with
  | nil => simp [insertAscending]
  | cons k ns ih =>
      obtain ⟨hk, hrest⟩ := List.pairwise_cons.mp hns
      rw [insertAscending]
      split
      · rename_i hnk
        refine List.pairwise_cons.mpr ⟨fun m hm => ?_, hns⟩
        rcases List.mem_cons.mp hm with rfl | hm
        · exact hnk
        · exact Nat.lt_trans hnk (hk m hm)
      split
      · exact hns
      · refine List.pairwise_cons.mpr ⟨fun m hm => ?_, ih hrest⟩
        rcases mem_insertAscending.mp hm with rfl | hm
        · omega
        · exact hk m hm

theorem lists_ascending (used : List SideInputId) : Lists (ascending used) used := by
  induction used with
  | nil => exact ⟨List.Pairwise.nil, fun _ => Iff.rfl⟩
  | cons id used ih =>
      refine ⟨pairwise_insertAscending ih.1, fun n => ?_⟩
      rw [ascending, List.foldr_cons, mem_insertAscending, List.mem_cons]
      exact or_congr_right (ih.2 n)

theorem Lists.eq {ids ids' used : List SideInputId} (h : Lists ids used) (h' : Lists ids' used) :
    ids = ids' :=
  h.1.eq_of_mem_iff h'.1 fun id => (h.2 id).trans (h'.2 id).symm

theorem ascending_eq_of_lists {ids used : List SideInputId} (h : Lists ids used) :
    ascending used = ids := (lists_ascending used).eq h

theorem lists_nil_iff {used : List SideInputId} : Lists [] used ↔ used = [] := by
  constructor
  · rintro ⟨-, h⟩
    exact List.eq_nil_iff_forall_not_mem.mpr fun id hid => by simpa using (h id).mpr hid
  · rintro rfl
    exact lists_ascending []

theorem listed_wrap {node : Plan} {used : List SideInputId} (hused : used = node.reads)
    (h : ∀ above, Lists above node.reads → node.Listed above) :
    (ScalarScope.wrap node used).Listed [] := by
  subst hused
  rcases wrap_cases node node.reads with ⟨hnil, hw⟩ | ⟨hne, hw⟩
  · rw [hw]
    exact h [] (lists_nil_iff.mpr hnil)
  · rw [hw]
    refine ⟨rfl, fun hids => hne ?_, h _ (lists_ascending _)⟩
    exact lists_nil_iff.mp (hids ▸ lists_ascending node.reads)

theorem listed_relist (p : Plan) : p.relist.Listed [] := by
  induction p with
  | load | relation => rfl
  | project columns input ih => exact listed_wrap rfl fun above h => ⟨h, ih⟩
  | filter predicate input ih => exact listed_wrap rfl fun above h => ⟨h, ih⟩
  | split branch predicate input ih => exact listed_wrap rfl fun above h => ⟨h, ih⟩
  | aggregate keys aggregates input ih => exact listed_wrap rfl fun above h => ⟨h, ih⟩
  | join left right on ihl ihr => exact listed_wrap rfl fun above h => ⟨h, ihl, ihr⟩
  | limit count input ih => exact ⟨rfl, ih⟩
  | store target input ih => exact ⟨rfl, ih⟩
  | sideInputs ids input ih => exact ih

theorem listed_of_lists {node : Plan} {above : List SideInputId} (h : Lists above node.reads) :
    node.listed = if above = [] then node else sideInputs above node := by
  rcases wrap_cases node node.reads with ⟨hnil, hw⟩ | ⟨hne, hw⟩
  · rw [hnil] at h
    have habove : above = [] := h.eq (lists_ascending [])
    rw [listed, hw, if_pos habove]
  · have habove : above ≠ [] := by
      rintro rfl
      exact hne (lists_nil_iff.mp h)
    rw [listed, hw, if_neg habove, ascending_eq_of_lists h]

theorem relist_of_listed_above {p : Plan} {above : List SideInputId} (h : p.Listed above) :
    p.relist = if above = [] then p else sideInputs above p := by
  induction p generalizing above with
  | load source schema => exact (if_pos (show above = [] from h)).symm
  | relation aliasName => exact (if_pos (show above = [] from h)).symm
  | project columns input ih =>
      rw [relist, ih h.2, if_pos rfl]
      exact listed_of_lists h.1
  | filter predicate input ih =>
      rw [relist, ih h.2, if_pos rfl]
      exact listed_of_lists h.1
  | split branch predicate input ih =>
      rw [relist, ih h.2, if_pos rfl]
      exact listed_of_lists h.1
  | aggregate keys aggregates input ih =>
      rw [relist, ih h.2, if_pos rfl]
      exact listed_of_lists h.1
  | join left right on ihl ihr =>
      rw [relist, ihl h.2.1, ihr h.2.2, if_pos rfl, if_pos rfl]
      exact listed_of_lists h.1
  | limit count input ih => rw [relist, ih h.2, if_pos rfl, if_pos h.1]
  | store target input ih => rw [relist, ih h.2, if_pos rfl, if_pos h.1]
  | sideInputs ids input ih => rw [relist, ih h.2.2, if_neg h.2.1, if_pos h.1]

theorem relist_of_listed {p : Plan} (h : p.Listed []) : p.relist = p := relist_of_listed_above h

end Plan

end RelScript
