import RelScript.Encoding.Plan
import RelScript.Proofs.Plan.Substitution
import RelScript.Proofs.Text.Readability

/-!
What the fingerprint of a plan shows. Plans have one fingerprint if and only if they are equal once
all constants that are not finite count as one.
-/

namespace RelScript

/-- The expression with its constants replaced. -/
def Expr.mapLiterals (f : Literal → Literal) (e : Expr) : Expr :=
  e.mapLeaves fun
    | literal v => literal (f v)
    | leaf => leaf

/-- The plan with the constants of its expressions replaced. -/
def Plan.mapLiterals (f : Literal → Literal) (p : Plan) : Plan := p.mapExprs (·.mapLiterals f)

/-- The constant as far as a fingerprint shows it: whatever is not finite is written alike. -/
def Literal.legible : Literal → Literal
  | .float x => .float (if x.isFinite then x else Ieee.quietNaN .double false)
  | v => v

/-- The plan as far as its fingerprint shows it. -/
def Plan.legible (p : Plan) : Plan := p.mapLiterals Literal.legible

end RelScript

namespace RelScript.Encoding

open Text (Json)
open Text.Json

theorem plainItems_map {α : Type} (f : α → Json) (items : List α) :
    plainItems (items.map f) = items.map fun a => plain (f a) := by
  induction items with
  | nil => rfl
  | cons a items ih => rw [List.map_cons, plainItems, ih, List.map_cons]

theorem map_eq_map_iff {α β γ : Type} {f : α → β} {g : α → γ}
    (hfg : ∀ a b, f a = f b ↔ g a = g b) {as bs : List α} :
    as.map f = bs.map f ↔ as.map g = bs.map g := by
  induction as generalizing bs with
  | nil => cases bs <;> simp
  | cons a as ih =>
      cases bs with
      | nil => simp
      | cons b bs => rw [List.map_cons, List.map_cons, List.map_cons, List.map_cons,
          List.cons.injEq, List.cons.injEq, hfg, ih]

theorem plain_ofType (t : DataType) : plain (ofType t) = ofType t := by
  cases t with
  | duration k => cases k <;> rfl
  | _ => rfl

/-- All types. -/
def types : List DataType :=
  [.null, .boolean, .integer .int8, .integer .int16, .integer .int32, .integer .int64,
    .integer .uint8, .integer .uint16, .integer .uint32, .integer .uint64, .float .single,
    .float .double, .text .short, .text .long, .bytes .short, .bytes .long, .date .days,
    .date .millis, .duration .days, .duration .millis]

theorem mem_types (t : DataType) : t ∈ types := by
  cases t with
  | null => decide
  | boolean => decide
  | integer k => cases k <;> decide
  | float k => cases k <;> decide
  | text e => cases e <;> decide
  | bytes e => cases e <;> decide
  | date k => cases k <;> decide
  | duration k => cases k <;> decide

theorem name_injective {t u : DataType} (h : t.name = u.name) : t = u := by
  have hall : ∀ t ∈ types, ∀ u ∈ types, t.name = u.name → t = u := by decide
  exact hall t (mem_types t) u (mem_types u) h

theorem ofType_injective {t u : DataType} (h : ofType t = ofType u) : t = u := by
  cases t with
  | duration j =>
      cases u with
      | duration k => cases j <;> cases k <;> first | rfl | simp [ofType, Json.tagged] at h
      | _ => cases j <;> cases h
  | _ =>
      cases u with
      | duration k => cases k <;> cases h
      | _ => exact name_injective (Json.string.inj h)

theorem plain_ofField (f : Field) : plain (ofField f) = ofField f := by
  simp only [ofField, plain, plainFields, plain_ofType]

theorem ofField_injective {f g : Field} (h : ofField f = ofField g) : f = g := by
  simp only [ofField, Json.object.injEq, List.cons.injEq, Prod.mk.injEq, Json.string.injEq,
    Json.bool.injEq, true_and, and_true] at h
  obtain ⟨hname, htype, hnullable⟩ := h
  cases f
  cases g
  rw [Field.mk.injEq]
  exact ⟨hname, ofType_injective htype, hnullable⟩

theorem plain_ofSchema (s : Schema) : plain (ofSchema s) = ofSchema s := by
  simp only [ofSchema, plain, plainFields, plainItems_map, plain_ofField]

theorem ofDeclared_injective {s t : RelationSchema} (h : ofDeclared s = ofDeclared t) : s = t := by
  cases s with
  | none =>
      cases t with
      | none => rfl
      | some t => cases h
  | some s =>
      cases t with
      | none => cases h
      | some t =>
          simp only [ofDeclared, ofSchema, Json.object.injEq, List.cons.injEq, Prod.mk.injEq,
            Json.array.injEq, true_and, and_true] at h
          rw [List.map_injective_iff.mpr (fun _ _ => ofField_injective) h]

theorem plain_ofDeclared (s : RelationSchema) : plain (ofDeclared s) = ofDeclared s := by
  cases s with
  | none => rfl
  | some s => exact plain_ofSchema s

/-- All operators of two operands other than the logical ones. -/
def operators : List BinaryOp :=
  [.compare .eq, .compare .notEq, .compare .lt, .compare .ltEq, .compare .gt, .compare .gtEq,
    .arith .plus, .arith .minus, .arith .multiply, .arith .divide, .concat]

theorem mem_operators (op : BinaryOp) : op ∈ operators := by
  cases op with
  | compare c => cases c <;> decide
  | arith a => cases a <;> decide
  | concat => decide

theorem tag_injective {a b : BinaryOp} (h : a.tag = b.tag) : a = b := by
  have hall : ∀ a ∈ operators, ∀ b ∈ operators, a.tag = b.tag → a = b := by decide
  exact hall a (mem_operators a) b (mem_operators b) h

theorem plain_tagged (tag : String) (value : Json) :
    plain (.tagged tag value) = .tagged tag (plain value) := rfl

theorem tagged_inj {s t : String} {j k : Json} :
    Json.tagged s j = .tagged t k ↔ s = t ∧ j = k := by
  simp [Json.tagged]

theorem plain_float_eq_iff {x y : Ieee.Bits .double} :
    plain (.float x) = plain (.float y) ↔
      Literal.legible (.float x) = Literal.legible (.float y) := by
  have hnan : (Ieee.quietNaN .double false).isFinite = false := by decide
  simp only [plain, Literal.legible, Literal.float.injEq]
  cases hx : x.isFinite <;> cases hy : y.isFinite
  · simp
  · simp only [Bool.false_eq_true, if_false, if_true, reduceCtorEq, false_iff]
    rintro rfl
    rw [hnan] at hy
    cases hy
  · simp only [Bool.false_eq_true, if_false, if_true, reduceCtorEq, false_iff]
    rintro rfl
    rw [hnan] at hx
    cases hx
  · simp

theorem plain_ofLiteral_eq_iff {v w : Literal} :
    plain (ofLiteral v) = plain (ofLiteral w) ↔ v.legible = w.legible := by
  cases v with
  | float x =>
      cases w with
      | float y =>
          simp only [ofLiteral, plain_tagged, tagged_inj, true_and]
          exact plain_float_eq_iff
      | _ => simp [ofLiteral, Json.tagged, plain, plainFields, Literal.legible]
  | _ =>
      cases w <;> simp [ofLiteral, Json.tagged, plain, plainFields, Literal.legible,
        Subtype.val_inj]

theorem ofPlaceholder_injective {p q : Placeholder} (h : ofPlaceholder p = ofPlaceholder q) :
    p = q := by
  simp only [ofPlaceholder, Json.object.injEq, List.cons.injEq, Prod.mk.injEq, Json.string.injEq,
    Json.int.injEq, Json.bool.injEq, true_and, and_true, Int.natCast_inj] at h
  obtain ⟨hid, halias, hindex, htype, htyped⟩ := h
  cases p
  cases q
  rw [Placeholder.mk.injEq]
  exact ⟨hid, halias, hindex, ofType_injective htype, htyped⟩

theorem plain_ofPlaceholder (p : Placeholder) : plain (ofPlaceholder p) = ofPlaceholder p := by
  simp only [ofPlaceholder, plain, plainFields, plain_ofType]

theorem ofSelector_injective {f g : FieldSelector} (h : ofSelector f = ofSelector g) : f = g := by
  cases f <;> cases g <;> simp_all [ofSelector, Json.tagged]

theorem plain_ofSelector (f : FieldSelector) : plain (ofSelector f) = ofSelector f := by
  cases f <;> rfl

section Forms

attribute [local simp] ofExpr ofPlan plain_tagged tagged_inj plain plainFields plainItems
  Expr.mapLiterals Expr.mapLeaves Plan.mapLiterals Plan.mapExprs

theorem plain_ofExpr_eq_iff {d e : Expr} :
    plain (ofExpr d) = plain (ofExpr e) ↔
      d.mapLiterals Literal.legible = e.mapLiterals Literal.legible := by
  -- A junction is written under a tag of its own kind, so the kinds are tried wherever one stands.
  induction d generalizing e with
  | column | position | columnRef | relationRef =>
      cases e with
      | junction j _ _ => cases j <;> simp
      | _ => simp
  | literal v =>
      cases e with
      | literal w => simp [plain_ofLiteral_eq_iff]
      | junction j _ _ => cases j <;> simp
      | _ => simp
  | binary l op r ihl ihr =>
      have hop : ∀ {op'}, op.tag = BinaryOp.tag op' ↔ op = op' :=
        ⟨tag_injective, fun h => by rw [h]⟩
      cases e with
      | binary l' op' r' => simp [ihl, ihr, hop]
      | junction j _ _ => cases j <;> simp
      | _ => simp
  | cast d t ih =>
      have htype : ∀ {t'}, ofType t = ofType t' ↔ t = t' := ⟨ofType_injective, fun h => by rw [h]⟩
      cases e with
      | cast e t' => simp [plain_ofType, ih, htype]
      | junction j _ _ => cases j <;> simp
      | _ => simp
  | junction j l r ihl ihr =>
      cases e with
      | junction j' l' r' => cases j <;> cases j' <;> simp [ihl, ihr]
      | _ => cases j <;> simp
  | not d ih =>
      cases e with
      | not e => simp [ih]
      | junction j _ _ => cases j <;> simp
      | _ => simp
  | scalarRef a f =>
      have hfield : ∀ {f'}, ofSelector f = ofSelector f' ↔ f = f' :=
        ⟨ofSelector_injective, fun h => by rw [h]⟩
      cases e with
      | scalarRef a' f' => simp [plain_ofSelector, hfield]
      | junction j _ _ => cases j <;> simp
      | _ => simp
  | placeholder p =>
      have hplace : ∀ {q}, ofPlaceholder p = ofPlaceholder q ↔ p = q :=
        ⟨ofPlaceholder_injective, fun h => by rw [h]⟩
      cases e with
      | placeholder q => simp [plain_ofPlaceholder, hplace]
      | junction j _ _ => cases j <;> simp
      | _ => simp

theorem plain_ofAggregate_eq_iff {a b : Aggregate} :
    plain (ofAggregate a) = plain (ofAggregate b) ↔
      a.fn = b.fn ∧ a.arg.mapLiterals Literal.legible = b.arg.mapLiterals Literal.legible := by
  have htag : a.fn.tag = b.fn.tag ↔ a.fn = b.fn := by
    cases a.fn <;> cases b.fn <;> decide
  rw [ofAggregate, ofAggregate, plain_tagged, plain_tagged, tagged_inj, plain_ofExpr_eq_iff, htag]

theorem plain_ofColumns_eq_iff {as bs : List (Named Expr)} :
    plain (ofColumns as) = plain (ofColumns bs) ↔
      as.map (fun c => Named.mk (c.value.mapLiterals Literal.legible) c.name) =
        bs.map (fun c => Named.mk (c.value.mapLiterals Literal.legible) c.name) := by
  rw [ofColumns, ofColumns, plain, plain, Json.array.injEq, plainItems_map, plainItems_map]
  refine map_eq_map_iff fun a b => ?_
  simp [plain, plainItems, plain_ofExpr_eq_iff]

theorem plain_ofAggregates_eq_iff {as bs : List (Named Aggregate)} :
    plain (ofAggregates as) = plain (ofAggregates bs) ↔
      as.map (fun a =>
          Named.mk (Aggregate.mk a.value.fn (a.value.arg.mapLiterals Literal.legible)) a.name) =
        bs.map (fun a =>
          Named.mk (Aggregate.mk a.value.fn (a.value.arg.mapLiterals Literal.legible)) a.name) := by
  rw [ofAggregates, ofAggregates, plain, plain, Json.array.injEq, plainItems_map, plainItems_map]
  refine map_eq_map_iff fun a b => ?_
  simp [plain, plainItems, plain_ofAggregate_eq_iff]

theorem plain_ofKeys_eq_iff {as bs : List (Expr × Expr)} :
    plain (ofKeys as) = plain (ofKeys bs) ↔
      as.map (fun k => (k.1.mapLiterals Literal.legible, k.2.mapLiterals Literal.legible)) =
        bs.map (fun k => (k.1.mapLiterals Literal.legible, k.2.mapLiterals Literal.legible)) := by
  rw [ofKeys, ofKeys, plain, plain, Json.array.injEq, plainItems_map, plainItems_map]
  refine map_eq_map_iff fun a b => ?_
  simp [plain, plainItems, plain_ofExpr_eq_iff]

theorem plain_naturals_eq_iff {ms ns : List Nat} :
    plain (.naturals ms) = plain (.naturals ns) ↔ ms = ns := by
  rw [Json.naturals, Json.naturals, plain, plain, Json.array.injEq, plainItems_map, plainItems_map]
  rw [map_eq_map_iff (g := id) fun m n => by simp [plain], List.map_id, List.map_id]

theorem plain_ofPlan_eq_iff {p q : Plan} :
    plain (ofPlan p) = plain (ofPlan q) ↔ p.legible = q.legible := by
  unfold Plan.legible
  induction p generalizing q with
  | load source schema =>
      have hschema : ∀ {t}, ofDeclared schema = ofDeclared t ↔ schema = t :=
        ⟨ofDeclared_injective, fun h => by rw [h]⟩
      cases q <;> simp [plain_ofDeclared, hschema]
  | relation aliasName => cases q <;> simp
  | project columns input ih => cases q <;> simp [plain_ofColumns_eq_iff, ih]
  | filter predicate input ih => cases q <;> simp [plain_ofExpr_eq_iff, ih]
  | split branch predicate input ih => cases q <;> simp [plain_ofExpr_eq_iff, ih]
  | aggregate keys aggregates input ih =>
      have hkeys : ∀ {ks : List Expr},
          (keys.map fun k => plain (ofExpr k)) = (ks.map fun k => plain (ofExpr k)) ↔
            keys.map (·.mapLiterals Literal.legible) = ks.map (·.mapLiterals Literal.legible) :=
        map_eq_map_iff fun _ _ => plain_ofExpr_eq_iff
      cases q <;> simp [plainItems_map, plain_ofAggregates_eq_iff, hkeys, ih]
  | join left right on ihl ihr => cases q <;> simp [plain_ofKeys_eq_iff, ihl, ihr]
  | limit count input ih => cases q <;> simp [ih]
  | store target input ih => cases q <;> simp [ih]
  | sideInputs ids input ih => cases q <;> simp [plain_naturals_eq_iff, ih]

end Forms

end RelScript.Encoding

namespace RelScript

/-- A fingerprint shows everything of a plan but which number a constant is that is not finite. -/
theorem Plan.fingerprint_eq_iff {p q : Plan} :
    p.fingerprint = q.fingerprint ↔ p.legible = q.legible := by
  rw [fingerprint, fingerprint, Text.Json.render_eq_iff, Encoding.plain_ofPlan_eq_iff]

theorem Literal.type_legible (v : Literal) : v.legible.type = v.type := by
  cases v <;> rfl

theorem Expr.type_legible (input : RelationSchema) (e : Expr) :
    (e.mapLiterals Literal.legible).type input = e.type input := by
  unfold mapLiterals
  induction e with
  | literal v => exact congrArg Except.ok v.type_legible
  | binary l op r ihl _ =>
      cases op with
      | compare | concat => rfl
      | arith a => exact ihl
  | _ => rfl

theorem Expr.groupName_legible (e : Expr) :
    (e.mapLiterals Literal.legible).groupName = e.groupName := by
  cases e <;> rfl

theorem Aggregate.type_legible (input : RelationSchema) (a : Aggregate) :
    Aggregate.type input ⟨a.fn, a.arg.mapLiterals Literal.legible⟩ = a.type input := by
  obtain ⟨fn, arg⟩ := a
  cases fn with
  | count | avg => rfl
  | sum | min | max => exact arg.type_legible input

theorem Plan.schema_legible (p : Plan) : p.legible.schema = p.schema := by
  unfold legible mapLiterals
  induction p with
  | load | relation => rfl
  | project columns input ih =>
      simp only [mapExprs, schema, ih, List.mapM_map, Function.comp_def, Expr.type_legible]
  | filter predicate input ih | split branch predicate input ih => exact ih
  | aggregate keys aggregates input ih =>
      simp only [mapExprs, schema, ih, List.mapM_map, Function.comp_def, Expr.type_legible,
        Expr.groupName_legible, Aggregate.type_legible]
  | join left right on ihl ihr => simp only [mapExprs, schema, ihl, ihr]
  | limit count input ih | store target input ih | sideInputs ids input ih => exact ih

theorem Plan.schema_eq_of_fingerprint_eq {p q : Plan} (h : p.fingerprint = q.fingerprint) :
    p.schema = q.schema := by
  rw [← p.schema_legible, fingerprint_eq_iff.mp h, q.schema_legible]

/-- The constant that a part is. -/
def Expr.literal? : Expr → Option Literal
  | literal v => some v
  | _ => none

/-- The constants in an expression. -/
def Expr.literals (e : Expr) : List Literal := e.parts.filterMap literal?

theorem Expr.mem_literals {e : Expr} {v : Literal} (h : literal v ∈ e.parts) : v ∈ e.literals :=
  List.mem_filterMap.mpr ⟨_, h, rfl⟩

/-- The constants in a plan. -/
def Plan.literals (p : Plan) : List Literal := p.allExprs.flatMap Expr.literals

theorem Expr.mapLiterals_congr {f g : Literal → Literal} {e : Expr}
    (h : ∀ v ∈ e.literals, f v = g v) : e.mapLiterals f = e.mapLiterals g := by
  refine mapLeaves_congr fun x hx _ => ?_
  cases x with
  | literal v => exact congrArg literal (h v (mem_literals hx))
  | _ => rfl

theorem Expr.mapLiterals_id (e : Expr) : e.mapLiterals id = e := by
  unfold mapLiterals
  induction e with
  | binary l op r ihl ihr => rw [mapLeaves, ihl, ihr]
  | cast e t ih => rw [mapLeaves, ih]
  | junction j l r ihl ihr => rw [mapLeaves, ihl, ihr]
  | not e ih => rw [mapLeaves, ih]
  | _ => rfl

theorem Plan.mapLiterals_congr {f g : Literal → Literal} {p : Plan}
    (h : ∀ v ∈ p.literals, f v = g v) : p.mapLiterals f = p.mapLiterals g :=
  mapExprs_congr fun e he => Expr.mapLiterals_congr fun v hv =>
    h v (List.mem_flatMap.mpr ⟨e, he, hv⟩)

theorem Plan.mapExprs_id (p : Plan) : p.mapExprs id = p := by
  induction p with
  | _ => simp_all [mapExprs]

theorem Plan.mapLiterals_id (p : Plan) : p.mapLiterals id = p :=
  (mapExprs_congr fun e _ => e.mapLiterals_id).trans p.mapExprs_id

/-- Whether a constant is written in a way of its own. -/
def Literal.isFinite : Literal → Bool
  | .float x => x.isFinite
  | _ => true

theorem Literal.legible_of_isFinite {v : Literal} (h : v.isFinite = true) : v.legible = v := by
  cases v with
  | float x => exact congrArg Literal.float (if_pos h)
  | _ => rfl

theorem Expr.mapLiterals_mapLiterals (f g : Literal → Literal) (e : Expr) :
    (e.mapLiterals f).mapLiterals g = e.mapLiterals (g ∘ f) := by
  rw [mapLiterals, mapLiterals, mapLeaves_mapLeaves]
  refine mapLeaves_congr fun x _ hleaf => ?_
  cases x with
  | binary | cast | junction | not => simp [IsLeaf, parts] at hleaf
  | _ => rfl

theorem Plan.mapLiterals_mapLiterals (f g : Literal → Literal) (p : Plan) :
    (p.mapLiterals f).mapLiterals g = p.mapLiterals (g ∘ f) := by
  rw [mapLiterals, mapLiterals, mapExprs_mapExprs]
  exact mapExprs_congr fun e _ => e.mapLiterals_mapLiterals f g

theorem Plan.eq_of_legible {constants : Set Literal} (h : constants.InjOn Literal.legible)
    {p q : Plan} (hp : ∀ v ∈ p.literals, v ∈ constants) (hq : ∀ v ∈ q.literals, v ∈ constants)
    (hpq : p.legible = q.legible) : p = q := by
  have : Nonempty Literal := ⟨.null⟩
  have hback : ∀ {p : Plan}, (∀ v ∈ p.literals, v ∈ constants) →
      p.legible.mapLiterals (Function.invFunOn Literal.legible constants) = p := by
    intro p hp
    rw [legible, mapLiterals_mapLiterals]
    have hself := fun v hv => h.leftInvOn_invFunOn (hp v hv)
    exact (mapLiterals_congr hself).trans p.mapLiterals_id
  rw [← hback hp, ← hback hq, hpq]

end RelScript
