import RelScript.Proofs.Outcome
import RelScript.Proofs.Plan.Substitution
import RelScript.Script.Basic

/-!
Definitions without the names of other aliases. The relations that a definition reads are replaced
by the definitions of their aliases, and these again; the names of the scalars that it reads are
kept apart from the rest of it, with which they make up the definition.
-/

namespace RelScript

namespace Expr

/-- The expression without the names of the relations that it reads as scalars. -/
def nameless (e : Expr) : Expr :=
  e.mapLeaves fun
    | scalarRef _ field => scalarRef "" field
    | leaf => leaf

/-- The names of the relations that an expression reads as scalars, bound or not, in order. -/
def scalarNames : Expr → List String
  | scalarRef a _ => [a]
  | placeholder p => [p.aliasName]
  | binary l _ r | junction _ l r => l.scalarNames ++ r.scalarNames
  | cast e _ | not e => e.scalarNames
  | column _ | position _ | columnRef _ _ | literal _ | relationRef _ => []

theorem eq_of_nameless {e e' : Expr} (h : e.nameless = e'.nameless) {rest rest' : List String}
    (hnames : e.scalarNames ++ rest = e'.scalarNames ++ rest') : e = e' ∧ rest = rest' := by
  -- The names of a right operand follow those of the left, so the rest is general.
  induction e generalizing e' rest rest' with
  | binary l op r ihl ihr =>
      cases e' with
      | binary l' op' r' =>
          obtain ⟨hl, rfl, hr⟩ := Expr.binary.inj h
          simp only [scalarNames, List.append_assoc] at hnames
          obtain ⟨rfl, hrest⟩ := ihl hl hnames
          obtain ⟨rfl, rfl⟩ := ihr hr hrest
          exact ⟨rfl, rfl⟩
      | _ => cases h
  | junction j l r ihl ihr =>
      cases e' with
      | junction j' l' r' =>
          obtain ⟨rfl, hl, hr⟩ := Expr.junction.inj h
          simp only [scalarNames, List.append_assoc] at hnames
          obtain ⟨rfl, hrest⟩ := ihl hl hnames
          obtain ⟨rfl, rfl⟩ := ihr hr hrest
          exact ⟨rfl, rfl⟩
      | _ => cases h
  | cast e t ih =>
      cases e' with
      | cast e' t' =>
          obtain ⟨he, rfl⟩ := Expr.cast.inj h
          obtain ⟨rfl, rfl⟩ := ih he hnames
          exact ⟨rfl, rfl⟩
      | _ => cases h
  | not e ih =>
      cases e' with
      | not e' =>
          obtain ⟨rfl, rfl⟩ := ih (Expr.not.inj h) hnames
          exact ⟨rfl, rfl⟩
      | _ => cases h
  | scalarRef a field =>
      cases e' with
      | scalarRef a' field' =>
          obtain ⟨-, rfl⟩ := Expr.scalarRef.inj h
          obtain ⟨rfl, rfl⟩ := List.cons.inj hnames
          exact ⟨rfl, rfl⟩
      | _ => cases h
  | placeholder p =>
      cases e' with
      | placeholder p' =>
          cases h
          exact ⟨rfl, (List.cons.inj hnames).2⟩
      | _ => cases h
  | _ =>
      cases e' <;> cases h
      exact ⟨rfl, hnames⟩
end Expr

namespace Plan

/-- The plan without the names of the relations that it reads as scalars. -/
def nameless (p : Plan) : Plan := p.mapExprs Expr.nameless

/-- The names of the relations that a plan reads as scalars, bound or not, in order. -/
def scalarNames (p : Plan) : List String := p.allExprs.flatMap Expr.scalarNames

theorem scalarNames_eq (p : Plan) :
    p.scalarNames = p.exprs.flatMap Expr.scalarNames ++ p.children.flatMap scalarNames := by
  rw [scalarNames, allExprs_eq, List.flatMap_append, List.flatMap_assoc]
  rfl

theorem scalarNames_project (columns : List (Named Expr)) (input : Plan) :
    (project columns input).scalarNames =
      columns.flatMap (fun c => c.value.scalarNames) ++ input.scalarNames := by
  rw [scalarNames_eq]
  simp [exprs, children, List.flatMap_map]

theorem scalarNames_filter (predicate : Expr) (input : Plan) :
    (filter predicate input).scalarNames = predicate.scalarNames ++ input.scalarNames := by
  rw [scalarNames_eq]
  simp [exprs, children]

theorem scalarNames_split (branch : String) (predicate : Expr) (input : Plan) :
    (split branch predicate input).scalarNames = predicate.scalarNames ++ input.scalarNames := by
  rw [scalarNames_eq]
  simp [exprs, children]

theorem scalarNames_aggregate (keys : List Expr) (aggregates : List (Named Aggregate))
    (input : Plan) :
    (aggregate keys aggregates input).scalarNames = keys.flatMap Expr.scalarNames ++
      aggregates.flatMap (fun g => g.value.arg.scalarNames) ++ input.scalarNames := by
  rw [scalarNames_eq]
  simp [exprs, children, List.flatMap_map]

theorem scalarNames_join (left right : Plan) (on : List (Expr × Expr)) :
    (join left right on).scalarNames = on.flatMap (fun k => k.1.scalarNames ++ k.2.scalarNames) ++
      (left.scalarNames ++ right.scalarNames) := by
  rw [scalarNames_eq]
  simp [exprs, children, List.flatMap_assoc]

@[simp] theorem scalarNames_wrap (node : Plan) (used : List SideInputId) :
    (ScalarScope.wrap node used).scalarNames = node.scalarNames := by
  rw [scalarNames, allExprs_wrap, scalarNames]

theorem eq_of_namelessColumn {c c' : Named Expr} {rest rest' : List String}
    (h : Named.mk c.value.nameless c.name = ⟨c'.value.nameless, c'.name⟩)
    (hnames : c.value.scalarNames ++ rest = c'.value.scalarNames ++ rest') :
    c = c' ∧ rest = rest' := by
  obtain ⟨e, n⟩ := c
  obtain ⟨e', n'⟩ := c'
  obtain ⟨he, rfl⟩ := Named.mk.inj h
  obtain ⟨rfl, rfl⟩ := Expr.eq_of_nameless he hnames
  exact ⟨rfl, rfl⟩

theorem eq_of_namelessAggregate {g g' : Named Aggregate} {rest rest' : List String}
    (h : Named.mk (Aggregate.mk g.value.fn g.value.arg.nameless) g.name =
      ⟨⟨g'.value.fn, g'.value.arg.nameless⟩, g'.name⟩)
    (hnames : g.value.arg.scalarNames ++ rest = g'.value.arg.scalarNames ++ rest') :
    g = g' ∧ rest = rest' := by
  obtain ⟨⟨fn, e⟩, n⟩ := g
  obtain ⟨⟨fn', e'⟩, n'⟩ := g'
  obtain ⟨ha, rfl⟩ := Named.mk.inj h
  obtain ⟨rfl, he⟩ := Aggregate.mk.inj ha
  obtain ⟨rfl, rfl⟩ := Expr.eq_of_nameless he hnames
  exact ⟨rfl, rfl⟩

theorem eq_of_namelessKeys {k k' : Expr × Expr} {rest rest' : List String}
    (h : (k.1.nameless, k.2.nameless) = (k'.1.nameless, k'.2.nameless))
    (hnames : (k.1.scalarNames ++ k.2.scalarNames) ++ rest =
      (k'.1.scalarNames ++ k'.2.scalarNames) ++ rest') : k = k' ∧ rest = rest' := by
  obtain ⟨l, r⟩ := k
  obtain ⟨l', r'⟩ := k'
  obtain ⟨hl, hr⟩ := Prod.mk.inj h
  rw [List.append_assoc, List.append_assoc] at hnames
  obtain ⟨rfl, hrest⟩ := Expr.eq_of_nameless hl hnames
  obtain ⟨rfl, rfl⟩ := Expr.eq_of_nameless hr hrest
  exact ⟨rfl, rfl⟩

theorem eq_of_nameless {p q : Plan} (h : p.nameless = q.nameless) {rest rest' : List String}
    (hnames : p.scalarNames ++ rest = q.scalarNames ++ rest') : p = q ∧ rest = rest' := by
  -- Here the names of an input follow those of the node over it.
  induction p generalizing q rest rest' with
  | load source schema | relation a =>
      cases q <;> cases h
      exact ⟨rfl, hnames⟩
  | project columns input ih =>
      cases q with
      | project columns' input' =>
          obtain ⟨hcolumns, hinput⟩ := Plan.project.inj h
          rw [scalarNames_project, scalarNames_project, List.append_assoc,
            List.append_assoc] at hnames
          obtain ⟨rfl, hrest⟩ := eq_of_map_eq eq_of_namelessColumn hcolumns hnames
          obtain ⟨rfl, rfl⟩ := ih hinput hrest
          exact ⟨rfl, rfl⟩
      | _ => cases h
  | filter predicate input ih =>
      cases q with
      | filter predicate' input' =>
          obtain ⟨he, hinput⟩ := Plan.filter.inj h
          rw [scalarNames_filter, scalarNames_filter, List.append_assoc,
            List.append_assoc] at hnames
          obtain ⟨rfl, hrest⟩ := Expr.eq_of_nameless he hnames
          obtain ⟨rfl, rfl⟩ := ih hinput hrest
          exact ⟨rfl, rfl⟩
      | _ => cases h
  | split branch predicate input ih =>
      cases q with
      | split branch' predicate' input' =>
          obtain ⟨rfl, he, hinput⟩ := Plan.split.inj h
          rw [scalarNames_split, scalarNames_split, List.append_assoc, List.append_assoc] at hnames
          obtain ⟨rfl, hrest⟩ := Expr.eq_of_nameless he hnames
          obtain ⟨rfl, rfl⟩ := ih hinput hrest
          exact ⟨rfl, rfl⟩
      | _ => cases h
  | aggregate keys aggregates input ih =>
      cases q with
      | aggregate keys' aggregates' input' =>
          obtain ⟨hkeys, haggregates, hinput⟩ := Plan.aggregate.inj h
          rw [scalarNames_aggregate, scalarNames_aggregate, List.append_assoc, List.append_assoc,
            List.append_assoc, List.append_assoc] at hnames
          obtain ⟨rfl, hrest⟩ := eq_of_map_eq (fun h hnames => Expr.eq_of_nameless h hnames) hkeys
            hnames
          obtain ⟨rfl, hinputs⟩ := eq_of_map_eq eq_of_namelessAggregate haggregates hrest
          obtain ⟨rfl, rfl⟩ := ih hinput hinputs
          exact ⟨rfl, rfl⟩
      | _ => cases h
  | join left right on ihl ihr =>
      cases q with
      | join left' right' on' =>
          obtain ⟨hl, hr, hon⟩ := Plan.join.inj h
          rw [scalarNames_join, scalarNames_join, List.append_assoc, List.append_assoc,
            List.append_assoc, List.append_assoc] at hnames
          obtain ⟨rfl, hrest⟩ := eq_of_map_eq eq_of_namelessKeys hon hnames
          obtain ⟨rfl, hright⟩ := ihl hl hrest
          obtain ⟨rfl, rfl⟩ := ihr hr hright
          exact ⟨rfl, rfl⟩
      | _ => cases h
  | limit count input ih =>
      cases q with
      | limit count' input' =>
          obtain ⟨rfl, hinput⟩ := Plan.limit.inj h
          obtain ⟨rfl, rfl⟩ := ih hinput hnames
          exact ⟨rfl, rfl⟩
      | _ => cases h
  | store target input ih =>
      cases q with
      | store target' input' =>
          obtain ⟨rfl, hinput⟩ := Plan.store.inj h
          obtain ⟨rfl, rfl⟩ := ih hinput hnames
          exact ⟨rfl, rfl⟩
      | _ => cases h
  | sideInputs ids input ih =>
      cases q with
      | sideInputs ids' input' =>
          obtain ⟨rfl, hinput⟩ := Plan.sideInputs.inj h
          obtain ⟨rfl, rfl⟩ := ih hinput hnames
          exact ⟨rfl, rfl⟩
      | _ => cases h

/-- The plan with the relations that it reads replaced. -/
def inline (f : String → Plan) : Plan → Plan
  | load source schema => load source schema
  | relation aliasName => f aliasName
  | project columns input => project columns (input.inline f)
  | filter predicate input => filter predicate (input.inline f)
  | split branch predicate input => split branch predicate (input.inline f)
  | aggregate keys aggregates input => aggregate keys aggregates (input.inline f)
  | join left right on => join (left.inline f) (right.inline f) on
  | limit count input => limit count (input.inline f)
  | store target input => store target (input.inline f)
  | sideInputs ids input => sideInputs ids (input.inline f)

theorem inline_congr {f g : String → Plan} {p : Plan}
    (h : ∀ a, Access.relation a ∈ p.accesses → f a = g a) : p.inline f = p.inline g := by
  induction p with
  | load => rfl
  | relation a => exact h a (List.mem_singleton.mpr rfl)
  | join left right on ihl ihr =>
      rw [inline, inline, ihl fun a ha => h a (accesses_subset_of_child List.mem_cons_self ha),
        ihr fun a ha => h a (accesses_subset_of_child
          (List.mem_cons_of_mem _ List.mem_cons_self) ha)]
  | _ =>
      rename_i ih
      rw [inline, inline, ih fun a ha => h a (accesses_subset_of_child List.mem_cons_self ha)]

theorem mem_scalarRefs_inline {f : String → Plan} {p : Plan} {ref : String × FieldSelector}
    (h : ref ∈ (p.inline f).scalarRefs) :
    ref ∈ p.scalarRefs ∨ ∃ a, Access.relation a ∈ p.accesses ∧ ref ∈ (f a).scalarRefs := by
  induction p with
  | load => exact Or.inl h
  | relation a => exact Or.inr ⟨a, List.mem_singleton.mpr rfl, h⟩
  | join left right on ihl ihr =>
      rw [inline, scalarRefs_eq] at h
      rw [scalarRefs_eq]
      simp only [children, List.flatMap_cons, List.flatMap_nil, List.append_nil,
        List.mem_append] at h ⊢
      rcases h with h | h | h
      · exact Or.inl (Or.inl h)
      · refine (ihl h).imp (fun h => Or.inr (Or.inl h)) ?_
        rintro ⟨a, ha, href⟩
        exact ⟨a, accesses_subset_of_child List.mem_cons_self ha, href⟩
      · refine (ihr h).imp (fun h => Or.inr (Or.inr h)) ?_
        rintro ⟨a, ha, href⟩
        exact ⟨a, accesses_subset_of_child (List.mem_cons_of_mem _ List.mem_cons_self) ha, href⟩
  | _ =>
      rename_i ih
      rw [inline, scalarRefs_eq] at h
      rw [scalarRefs_eq]
      simp only [children, List.flatMap_singleton, List.mem_append] at h ⊢
      rcases h with h | h
      · exact Or.inl (Or.inl h)
      · refine (ih h).imp Or.inr ?_
        rintro ⟨a, ha, href⟩
        exact ⟨a, accesses_subset_of_child List.mem_cons_self ha, href⟩

end Plan

namespace Script

/-- The definition of an alias with all relations replaced by their definitions, and these again. -/
inductive Inlined (script : Script) : String → Plan → Prop
  | intro {a : String} {d : Plan} (f : String → Plan) :
    script.get? a = some d → (∀ b, Plan.Access.relation b ∈ d.accesses → Inlined script b (f b)) →
      Inlined script a (d.inline f)

variable {script : Script}

theorem Inlined.unique {a : String} {p q : Plan} (hp : script.Inlined a p)
    (hq : script.Inlined a q) : p = q := by
  induction hp generalizing q with
  | intro f hd _ ih =>
      cases hq with
      | intro g hd' hg =>
          cases hd.symm.trans hd'
          exact Plan.inline_congr fun b hb => ih b hb (hg b hb)

/-- An alias has an inlined definition if the relations that it reads have one. What holds of all
scalars of its own definition and of theirs holds of all scalars of the inlined one. -/
theorem exists_inlined {P : String → Prop} {a : String} {d : Plan} (hd : script.get? a = some d)
    (hscalars : ∀ ref ∈ d.scalarRefs, P ref.1)
    (hrelations : ∀ b, Plan.Access.relation b ∈ d.accesses →
      ∃ p, script.Inlined b p ∧ ∀ ref ∈ p.scalarRefs, P ref.1) :
    ∃ p, script.Inlined a p ∧ ∀ ref ∈ p.scalarRefs, P ref.1 := by
  have : Nonempty Plan := ⟨d⟩
  choose! f hf using hrelations
  refine ⟨d.inline f, .intro f hd fun b hb => (hf b hb).1, fun ref href => ?_⟩
  rcases Plan.mem_scalarRefs_inline href with hown | ⟨b, hb, hread⟩
  · exact hscalars ref hown
  · exact (hf b hb).2 ref hread

end Script

end RelScript
