import RelScript.Proofs.Plan.Traversal

/-!
Placeholders put in the place of scalar references, and placeholders that get other numbers.
-/

namespace RelScript

/-- The placeholder for every scalar reference. -/
abbrev Placeholding := String → FieldSelector → Placeholder

/-- The placeholder with the number that its alias has now. -/
def Placeholder.reassign (ids : String → SideInputId) (p : Placeholder) : Placeholder :=
  { p with sideInput := ids p.aliasName }

namespace Expr

theorem mapLeaves_mapLeaves {f g : Expr → Expr} (e : Expr) :
    (e.mapLeaves f).mapLeaves g = e.mapLeaves fun x => (f x).mapLeaves g := by
  induction e with
  | binary l op r ihl ihr => rw [mapLeaves, mapLeaves, mapLeaves, ihl, ihr]
  | cast e t ih => rw [mapLeaves, mapLeaves, mapLeaves, ih]
  | junction j l r ihl ihr => rw [mapLeaves, mapLeaves, mapLeaves, ihl, ihr]
  | not e ih => rw [mapLeaves, mapLeaves, mapLeaves, ih]
  | _ => rfl

@[simp] theorem parts_ne_nil (e : Expr) : e.parts ≠ [] := by
  cases e <;> simp [parts]

/-- Whether an expression has no parts but itself. -/
def IsLeaf (e : Expr) : Prop := e.parts = [e]

theorem mapLeaves_congr {f g : Expr → Expr} {e : Expr}
    (h : ∀ x ∈ e.parts, x.IsLeaf → f x = g x) : e.mapLeaves f = e.mapLeaves g := by
  induction e with
  | binary l op r ihl ihr =>
      simp only [parts, List.mem_cons, List.mem_append] at h
      rw [mapLeaves, mapLeaves, ihl fun x hx => h x (Or.inr (Or.inl hx)),
        ihr fun x hx => h x (Or.inr (Or.inr hx))]
  | cast e t ih =>
      rw [mapLeaves, mapLeaves, ih fun x hx => h x (List.mem_cons_of_mem _ hx)]
  | junction j l r ihl ihr =>
      simp only [parts, List.mem_cons, List.mem_append] at h
      rw [mapLeaves, mapLeaves, ihl fun x hx => h x (Or.inr (Or.inl hx)),
        ihr fun x hx => h x (Or.inr (Or.inr hx))]
  | not e ih =>
      rw [mapLeaves, mapLeaves, ih fun x hx => h x (List.mem_cons_of_mem _ hx)]
  | _ => exact h _ (List.mem_singleton.mpr rfl) rfl

/-- The alias and the field that a part reads as a scalar. -/
def scalarRef? : Expr → Option (String × FieldSelector)
  | scalarRef aliasName field => some (aliasName, field)
  | _ => none

/-- The scalar references in an expression, in order of appearance. -/
def scalarRefs (e : Expr) : List (String × FieldSelector) := e.parts.filterMap scalarRef?

@[simp] theorem scalarRefs_binary (l r : Expr) (op : BinaryOp) :
    (binary l op r).scalarRefs = l.scalarRefs ++ r.scalarRefs := by
  simp [scalarRefs, parts, List.filterMap_cons, scalarRef?]

@[simp] theorem scalarRefs_cast (e : Expr) (t : DataType) :
    (cast e t).scalarRefs = e.scalarRefs := by
  simp [scalarRefs, parts, List.filterMap_cons, scalarRef?]

@[simp] theorem scalarRefs_junction (j : Junction) (l r : Expr) :
    (junction j l r).scalarRefs = l.scalarRefs ++ r.scalarRefs := by
  simp [scalarRefs, parts, List.filterMap_cons, scalarRef?]

@[simp] theorem scalarRefs_not (e : Expr) : (not e).scalarRefs = e.scalarRefs := by
  simp [scalarRefs, parts, List.filterMap_cons, scalarRef?]

/-- The alias that a part uses as a whole tuple. -/
def relationRef? : Expr → Option String
  | relationRef aliasName => some aliasName
  | _ => none

/-- The aliases that an expression uses as whole tuples. -/
def relationRefs (e : Expr) : List String := e.parts.filterMap relationRef?

@[simp] theorem relationRefs_binary (l r : Expr) (op : BinaryOp) :
    (binary l op r).relationRefs = l.relationRefs ++ r.relationRefs := by
  simp [relationRefs, parts, List.filterMap_cons, relationRef?]

@[simp] theorem relationRefs_cast (e : Expr) (t : DataType) :
    (cast e t).relationRefs = e.relationRefs := by
  simp [relationRefs, parts, List.filterMap_cons, relationRef?]

@[simp] theorem relationRefs_junction (j : Junction) (l r : Expr) :
    (junction j l r).relationRefs = l.relationRefs ++ r.relationRefs := by
  simp [relationRefs, parts, List.filterMap_cons, relationRef?]

@[simp] theorem relationRefs_not (e : Expr) : (not e).relationRefs = e.relationRefs := by
  simp [relationRefs, parts, List.filterMap_cons, relationRef?]

/-- The expression with a placeholder for every scalar reference. -/
def substitute (value : Placeholding) (e : Expr) : Expr :=
  e.mapLeaves fun
    | scalarRef aliasName field => placeholder (value aliasName field)
    | leaf => leaf

/-- The expression with new numbers for its placeholders. -/
def reassign (ids : String → SideInputId) (e : Expr) : Expr :=
  e.mapLeaves fun
    | placeholder p => placeholder (p.reassign ids)
    | leaf => leaf

theorem placeholders_reassign (ids : String → SideInputId) (e : Expr) :
    (e.reassign ids).placeholders = e.placeholders.map (·.reassign ids) := by
  unfold reassign
  induction e with
  | binary l op r ihl ihr => simp [mapLeaves, ihl, ihr]
  | cast e t ih => simp [mapLeaves, ih]
  | junction j l r ihl ihr => simp [mapLeaves, ihl, ihr]
  | not e ih => simp [mapLeaves, ih]
  | _ => rfl

theorem groupName_reassign (ids : String → SideInputId) (e : Expr) :
    (e.reassign ids).groupName = e.groupName := by
  cases e <;> rfl

theorem placeholders_substitute {value : Placeholding} {e : Expr} (he : e.placeholders = []) :
    (e.substitute value).placeholders = e.scalarRefs.map fun r => value r.1 r.2 := by
  unfold substitute scalarRefs
  induction e with
  | binary l op r ihl ihr =>
      rw [placeholders_binary, List.append_eq_nil_iff] at he
      simp [mapLeaves, parts, List.filterMap_cons, scalarRef?, ihl he.1, ihr he.2]
  | cast e t ih =>
      rw [placeholders_cast] at he
      simp [mapLeaves, parts, List.filterMap_cons, scalarRef?, ih he]
  | junction j l r ihl ihr =>
      rw [placeholders_junction, List.append_eq_nil_iff] at he
      simp [mapLeaves, parts, List.filterMap_cons, scalarRef?, ihl he.1, ihr he.2]
  | not e ih =>
      rw [placeholders_not] at he
      simp [mapLeaves, parts, List.filterMap_cons, scalarRef?, ih he]
  | placeholder p => cases he
  | _ => rfl

theorem mem_scalarRefs {e : Expr} {aliasName : String} {field : FieldSelector} :
    (aliasName, field) ∈ e.scalarRefs ↔ scalarRef aliasName field ∈ e.parts := by
  rw [scalarRefs, List.mem_filterMap]
  constructor
  · rintro ⟨x, hx, hr⟩
    cases x with
    | scalarRef a f =>
        cases hr
        exact hx
    | _ => cases hr
  · exact fun h => ⟨_, h, rfl⟩

theorem mem_placeholders {e : Expr} {p : Placeholder} :
    p ∈ e.placeholders ↔ placeholder p ∈ e.parts := by
  rw [placeholders, List.mem_filterMap]
  constructor
  · rintro ⟨x, hx, hp⟩
    cases x with
    | placeholder q =>
        cases hp
        exact hx
    | _ => cases hp
  · exact fun h => ⟨_, h, rfl⟩

theorem reassign_substitute {v w : Placeholding} {ids : String → SideInputId} {e : Expr}
    (he : e.placeholders = []) (h : ∀ r ∈ e.scalarRefs, w r.1 r.2 = (v r.1 r.2).reassign ids) :
    (e.substitute v).reassign ids = e.substitute w := by
  rw [substitute, reassign, mapLeaves_mapLeaves]
  refine mapLeaves_congr fun x hx hleaf => ?_
  cases x with
  | scalarRef aliasName field =>
      exact congrArg placeholder (h (aliasName, field) (mem_scalarRefs.mpr hx)).symm
  | placeholder p =>
      have hp := mem_placeholders.mpr hx
      rw [he] at hp
      cases hp
  | binary | cast | junction | not => simp [IsLeaf, parts] at hleaf
  | _ => rfl

theorem substitute_congr {v w : Placeholding} {e : Expr}
    (h : ∀ r ∈ e.scalarRefs, v r.1 r.2 = w r.1 r.2) : e.substitute v = e.substitute w := by
  refine mapLeaves_congr fun x hx _ => ?_
  cases x with
  | scalarRef aliasName field =>
      exact congrArg placeholder (h (aliasName, field) (mem_scalarRefs.mpr hx))
  | _ => rfl

theorem reassign_congr {ids ids' : String → SideInputId} {e : Expr}
    (h : ∀ p ∈ e.placeholders, ids p.aliasName = ids' p.aliasName) :
    e.reassign ids = e.reassign ids' := by
  refine mapLeaves_congr fun x hx _ => ?_
  cases x with
  | placeholder p =>
      have hp := h p (mem_placeholders.mpr hx)
      simp only [Placeholder.reassign, hp]
  | _ => rfl

end Expr

namespace Plan

/-- The scalar references in a plan. -/
def scalarRefs (p : Plan) : List (String × FieldSelector) := p.allExprs.flatMap Expr.scalarRefs

/-- A plan as scripts define it: scalars are read by reference only, and there are no lists of side
inputs. -/
def IsScripted (p : Plan) : Prop :=
  p.placeholders = [] ∧ ∀ n ∈ p.nodes, ∀ ids input, n ≠ sideInputs ids input

theorem IsScripted.placeholders_eq_nil {p : Plan} (hp : p.IsScripted) {e : Expr}
    (he : e ∈ p.allExprs) : e.placeholders = [] :=
  List.flatMap_eq_nil_iff.mp hp.1 e he

theorem IsScripted.child {p c : Plan} (hp : p.IsScripted) (hc : c ∈ p.children) :
    c.IsScripted := by
  constructor
  · refine List.flatMap_eq_nil_iff.mpr fun e he => hp.placeholders_eq_nil ?_
    rw [allExprs_eq]
    exact List.mem_append_right _ (List.mem_flatMap.mpr ⟨c, hc, he⟩)
  · intro n hn
    refine hp.2 n ?_
    rw [nodes_eq]
    exact List.mem_cons_of_mem _ (List.mem_flatMap.mpr ⟨c, hc, hn⟩)

theorem IsScripted.own {p : Plan} (hp : p.IsScripted) {e : Expr} (he : e ∈ p.exprs) :
    e.placeholders = [] := by
  refine hp.placeholders_eq_nil ?_
  rw [allExprs_eq]
  exact List.mem_append_left _ he

theorem scalarRefs_eq (p : Plan) :
    p.scalarRefs = p.exprs.flatMap Expr.scalarRefs ++ p.children.flatMap scalarRefs := by
  rw [scalarRefs, allExprs_eq, List.flatMap_append, List.flatMap_assoc]
  rfl

/-- The plan with a placeholder for every scalar reference, and with lists of side inputs. -/
def substitute (value : Placeholding) (p : Plan) : Plan :=
  (p.mapExprs (·.substitute value)).relist

/-- The plan with new numbers for its placeholders, and with new lists of side inputs. -/
def reassign (ids : String → SideInputId) (p : Plan) : Plan :=
  (p.mapExprs (·.reassign ids)).relist

theorem placeholders_substitute {value : Placeholding} {p : Plan} (hp : p.placeholders = []) :
    (p.substitute value).placeholders = p.scalarRefs.map fun r => value r.1 r.2 := by
  rw [placeholders, List.flatMap_eq_nil_iff] at hp
  rw [substitute, placeholders, allExprs_relist, allExprs_mapExprs, List.flatMap_map, scalarRefs,
    List.map_flatMap]
  exact List.flatMap_congr fun e he => Expr.placeholders_substitute (hp e he)

theorem placeholders_reassign (ids : String → SideInputId) (p : Plan) :
    (p.reassign ids).placeholders = p.placeholders.map (·.reassign ids) := by
  rw [reassign, placeholders, allExprs_relist, allExprs_mapExprs, List.flatMap_map, placeholders,
    List.map_flatMap]
  exact List.flatMap_congr fun e _ => Expr.placeholders_reassign ids e

theorem accesses_substitute (value : Placeholding) (p : Plan) :
    (p.substitute value).accesses = p.accesses := by
  rw [substitute, accesses_relist, accesses_mapExprs]

theorem reassign_substitute {v w : Placeholding} {ids : String → SideInputId} {p : Plan}
    (hp : p.placeholders = []) (h : ∀ r ∈ p.scalarRefs, w r.1 r.2 = (v r.1 r.2).reassign ids) :
    (p.substitute v).reassign ids = p.substitute w := by
  rw [placeholders, List.flatMap_eq_nil_iff] at hp
  rw [substitute, reassign, relist_mapExprs_relist, mapExprs_mapExprs, substitute]
  congr 1
  refine mapExprs_congr fun e he => Expr.reassign_substitute (hp e he) fun r hr => h r ?_
  exact List.mem_flatMap.mpr ⟨e, he, hr⟩

theorem substitute_congr {v w : Placeholding} {p : Plan}
    (h : ∀ r ∈ p.scalarRefs, v r.1 r.2 = w r.1 r.2) : p.substitute v = p.substitute w :=
  congrArg relist (mapExprs_congr fun _ he =>
    Expr.substitute_congr fun r hr => h r (List.mem_flatMap.mpr ⟨_, he, hr⟩))

theorem reassign_congr {ids ids' : String → SideInputId} {p : Plan}
    (h : ∀ q ∈ p.placeholders, ids q.aliasName = ids' q.aliasName) :
    p.reassign ids = p.reassign ids' :=
  congrArg relist (mapExprs_congr fun e he =>
    Expr.reassign_congr fun q hq => h q (List.mem_flatMap.mpr ⟨e, he, hq⟩))

theorem listed_substitute (value : Placeholding) (p : Plan) : (p.substitute value).Listed [] :=
  listed_relist _

end Plan

end RelScript
