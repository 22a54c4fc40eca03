import Mathlib
import RelScript.Proofs.Encoding.Fingerprint
import RelScript.Proofs.Unit.Consistency
import RelScript.Proofs.Unit.Numbering

/-!
Which aliases share a side input: those whose plans show the same in a fingerprint. The constants of
two such plans differ at most where neither is finite.
-/

namespace RelScript

/-- The constant, where one stands for all that are no number. -/
def Literal.canonical : Literal → Literal
  | .float x => .float (if x.isNaN then Ieee.quietNaN .double false else x)
  | v => v

/-- Whether a constant is infinite. -/
def Literal.isInfinite : Literal → Bool
  | .float x => !x.isFinite && !x.isNaN
  | _ => false

/-- The plan up to the patterns of constants that are no number. -/
def Plan.canonical (p : Plan) : Plan := p.mapLiterals Literal.canonical

theorem Literal.legible_eq_canonical {v : Literal} (h : v.isInfinite = false) :
    v.legible = v.canonical := by
  cases v with
  | float x =>
      rw [legible, canonical]
      cases hnan : x.isNaN with
      | false =>
          rw [isInfinite, hnan, Bool.not_false, Bool.and_true, Bool.not_eq_false'] at h
          rw [if_pos h]
          rfl
      | true =>
          have hx : x.isFinite = false := by
            rw [Ieee.Bits.isFinite, Ieee.Bits.number, if_pos hnan]
          rw [hx]
          rfl
  | _ => rfl

theorem Plan.legible_eq_canonical {p : Plan} (h : ∀ v ∈ p.literals, v.isInfinite = false) :
    p.legible = p.canonical :=
  mapLiterals_congr fun v hv => Literal.legible_eq_canonical (h v hv)

namespace Compilation

variable {script : Script} {roots : List String} {c : Compilation}

theorem Built.shares_iff (h : Built script roots c) {s t : SideInput} (hs : s ∈ c.registry)
    (ht : t ∈ c.registry) {a b : String} (ha : a ∈ s.aliases) (hb : b ∈ t.aliases) :
    ∃ x y, c.get? a = some x ∧ c.get? b = some y ∧ (s = t ↔ x.plan.legible = y.plan.legible) := by
  have hc := h.indexes
  obtain ⟨x, hx, hxs⟩ := hc.alike s hs a ha
  obtain ⟨y, hy, hyt⟩ := hc.alike t ht b hb
  refine ⟨x, y, hx, hy, ?_⟩
  rw [← Plan.fingerprint_eq_iff, hxs, hyt]
  exact ⟨congrArg SideInput.fingerprint, hc.planOnce s hs t ht⟩

end Compilation

theorem Script.compile_eq_ok {script : Script} {statements : List Statement} {u : CompiledUnit} :
    script.compile statements = .ok u ↔
      ∃ c, Compilation.compileStatements script .empty statements = .ok (u.statements, c) ∧
        u.sideInputs = c.registry := by
  rw [compile, bind_eq_ok]
  constructor
  · rintro ⟨⟨compiled, c⟩, hc, hu⟩
    cases hu
    exact ⟨c, hc, rfl⟩
  · rintro ⟨c, hc, hu⟩
    refine ⟨_, hc, ?_⟩
    show Except.ok (CompiledUnit.mk u.statements c.registry) = _
    rw [← hu]

/-- In an accepted unit two aliases share a side input if and only if their plans are equal once all
constants that are not finite count as one. Without infinite constants that is equality up to
constants that are no number. -/
theorem Script.compile_shares_iff {script : Script} {statements : List Statement}
    {u : CompiledUnit} (h : script.compile statements = .ok u) :
    ∃ c, Compilation.compileStatements script .empty statements = .ok (u.statements, c) ∧
      ∀ s ∈ u.sideInputs, ∀ t ∈ u.sideInputs, ∀ a ∈ s.aliases, ∀ b ∈ t.aliases,
        ∃ x y, c.get? a = some x ∧ c.get? b = some y ∧
          (s = t ↔ x.plan.legible = y.plan.legible) ∧
            ((∀ v ∈ x.plan.literals, v.isInfinite = false) →
              (∀ v ∈ y.plan.literals, v.isInfinite = false) →
                (s = t ↔ x.plan.canonical = y.plan.canonical)) := by
  obtain ⟨c, hc, hsides⟩ := compile_eq_ok.mp h
  refine ⟨c, hc, ?_⟩
  rw [hsides]
  intro s hs t ht a ha b hb
  obtain ⟨hgrown, -⟩ := Compilation.grown_of_compileStatements .empty
    (fun s hs => script.reached_of_mem (List.mem_map_of_mem hs)) hc
  obtain ⟨x, y, hx, hy, hiff⟩ := hgrown.built.shares_iff hs ht ha hb
  refine ⟨x, y, hx, hy, hiff, fun hxv hyv => ?_⟩
  rw [hiff, Plan.legible_eq_canonical hxv, Plan.legible_eq_canonical hyv]

/-- A relation of one constant. -/
def constant (x : Ieee.Bits .double) (input : Plan) : Plan :=
  .project [⟨.literal (.float x), "v"⟩] input

/-- A relation of two scalars. -/
def scalarPair : Plan :=
  .project [⟨.scalarRef "up" (.position 0), "a"⟩, ⟨.scalarRef "down" (.position 0), "b"⟩]
    (.relation "one")

/-- A script that reads two constants as scalars. -/
def twoConstants (x y : Ieee.Bits .double) : Script :=
  ⟨[("one", .load "one" none), ("up", constant x (.relation "one")),
    ("down", constant y (.relation "one")), ("both", scalarPair)]⟩

theorem isScripted_twoConstants (x y : Ieee.Bits .double) : (twoConstants x y).IsScripted := by
  simp [Script.IsScripted, twoConstants, constant, scalarPair, Plan.IsScripted, Plan.placeholders,
    Plan.allExprs, Plan.nodes, Plan.exprs, Expr.placeholders, Expr.parts, Expr.placeholder?]

namespace Compilation

/-- A constant compiled. -/
def constantAlias (x : Ieee.Bits .double) : CompiledAlias :=
  ⟨constant x (.load "one" none), some [⟨"v", .float64, true⟩]⟩

/-- Two constants compiled. -/
def constantsRead (x y : Ieee.Bits .double) : Compilation :=
  ⟨[], [("down", constantAlias y), ("up", constantAlias x), ("one", ⟨.load "one" none, none⟩)]⟩

theorem compileAll_constants (x y : Ieee.Bits .double) :
    compileAll (twoConstants x y) ["one", "up", "down"] .empty ["one", "up", "down"] =
      .ok (constantsRead x y) := by
  cbv

theorem described_constantsRead (x y : Ieee.Bits .double) : (constantsRead x y).Described := by
  refine Registry.Describes.cons (Registry.Describes.cons (Registry.describes_nil.cons rfl ?_)
    rfl ?_) rfl ?_
  · exact fun p hp => by cases hp
  · exact fun p hp => by cases hp
  · exact fun p hp => by cases hp

theorem dependencies_scalarPair : scalarPair.dependencies = ["one", "up", "down"] := by
  cbv

theorem add_scalarPair (x y : Ieee.Bits .double) :
    ∃ c, (constantsRead x y).add (twoConstants x y) "both" scalarPair = .ok c ∧
      (∃ id, c.registry.Holds "up" id) ∧ ∃ id, c.registry.Holds "down" id := by
  have hpair : scalarPair.IsScripted :=
    (isScripted_twoConstants x y).of_get? (a := "both") rfl
  have hdescribed := described_constantsRead x y
  have hrefs : scalarPair.scalarRefs = [("up", .position 0), ("down", .position 0)] := rfl
  have hselects : Selects (constantsRead x y).compiled scalarPair.scalarRefs := by
    rw [hrefs]
    exact List.forall_mem_cons.mpr ⟨rfl, List.forall_mem_singleton.mpr rfl⟩
  have hrelations : NoRelationRefs scalarPair :=
    List.forall_mem_cons.mpr ⟨rfl, List.forall_mem_singleton.mpr rfl⟩
  obtain ⟨c, hc⟩ := exists_add (twoConstants x y) hdescribed hpair hrelations hselects
    (fun r _ _ => ⟨_, rfl⟩) "both"
  have hdeps : ∀ b ∈ scalarPair.dependencies, ((constantsRead x y).get? b).isSome := by
    rw [dependencies_scalarPair]
    exact List.forall_mem_cons.mpr
      ⟨rfl, List.forall_mem_cons.mpr ⟨rfl, List.forall_mem_singleton.mpr rfl⟩⟩
  obtain ⟨-, -, z, -, hsolves⟩ := add_spec hdescribed hpair rfl hdeps hc
  have hreg := hsolves.registered
  rw [hrefs] at hreg
  exact ⟨c, hc, hreg _ List.mem_cons_self, hreg _ (List.mem_cons_of_mem _ List.mem_cons_self)⟩

theorem compileStatements_twoConstants (x y : Ieee.Bits .double) :
    ∃ compiled c, compileStatements (twoConstants x y) .empty [⟨"both", .collect⟩] =
        .ok (compiled, c) ∧
      c.get? "up" = some (constantAlias x) ∧ c.get? "down" = some (constantAlias y) ∧
        (∃ id, c.registry.Holds "up" id) ∧ ∃ id, c.registry.Holds "down" id := by
  obtain ⟨c, hadd, hup, hdown⟩ := add_scalarPair x y
  have hcycles : (twoConstants x y).checkCycles "both" = .ok () := by cbv
  have halias : compileAlias (twoConstants x y) (twoConstants x y).aliases .empty "both" =
      .ok c := by
    rw [compileAlias]
    refine bind_eq_ok.mpr ⟨_, ?_, hadd⟩
    rw [dependencies_scalarPair]
    exact compileAll_constants x y
  have hkeeps : (constantsRead x y).Keeps c := keeps_add rfl hadd
  obtain ⟨z, hz⟩ := Option.isSome_iff_exists.mp (isSome_get?_add hadd)
  refine ⟨_, c, bind_eq_ok.mpr ⟨_, compileRoot_eq_ok.mpr ⟨hcycles, halias, hz⟩, rfl⟩,
    hkeeps _ _ rfl, hkeeps _ _ rfl, hup, hdown⟩

end Compilation

/-- The two infinities. -/
def infinities : Script :=
  twoConstants (Ieee.infinity .double false) (Ieee.infinity .double true)

theorem compile_infinities : ∃ u, infinities.compile [⟨"both", .collect⟩] = .ok u := by
  obtain ⟨compiled, c, hc, -⟩ := Compilation.compileStatements_twoConstants
    (Ieee.infinity .double false) (Ieee.infinity .double true)
  exact ⟨⟨compiled, c.registry⟩, Script.compile_eq_ok.mpr ⟨c, hc, rfl⟩⟩

theorem infinities_shares_iff :
    ∃ u, infinities.compile [⟨"both", .collect⟩] = .ok u ∧
      ∃ c, Compilation.compileStatements infinities .empty [⟨"both", .collect⟩] =
          .ok (u.statements, c) ∧
        ∀ s ∈ u.sideInputs, ∀ t ∈ u.sideInputs, ∀ a ∈ s.aliases, ∀ b ∈ t.aliases,
          ∃ x y, c.get? a = some x ∧ c.get? b = some y ∧
            (s = t ↔ x.plan.legible = y.plan.legible) ∧
              ((∀ v ∈ x.plan.literals, v.isInfinite = false) →
                (∀ v ∈ y.plan.literals, v.isInfinite = false) →
                  (s = t ↔ x.plan.canonical = y.plan.canonical)) := by
  obtain ⟨u, hu⟩ := compile_infinities
  exact ⟨u, hu, Script.compile_shares_iff hu⟩

/-- Two relations of different constants may share a side input, so that the scalar of the one is
read from the other. -/
theorem infinities_share_side_input :
    ∃ u c, infinities.compile [⟨"both", .collect⟩] = .ok u ∧
      Compilation.compileStatements infinities .empty [⟨"both", .collect⟩] =
        .ok (u.statements, c) ∧
      ∃ s ∈ u.sideInputs, "up" ∈ s.aliases ∧ "down" ∈ s.aliases ∧
        ∃ x y, c.get? "up" = some x ∧ c.get? "down" = some y ∧
          x.plan.canonical ≠ y.plan.canonical := by
  obtain ⟨compiled, c, hc, hup, hdown, ⟨i, s, hs, hsup⟩, j, t, ht, htdown⟩ :=
    Compilation.compileStatements_twoConstants (Ieee.infinity .double false)
      (Ieee.infinity .double true)
  obtain ⟨hgrown, -⟩ := Compilation.grown_of_compileStatements .empty
    (fun s hs => Script.reached_of_mem _ (List.mem_map_of_mem hs)) hc
  obtain ⟨x, y, hx, hy, hiff⟩ :=
    hgrown.built.shares_iff (List.mem_of_getElem? hs) (List.mem_of_getElem? ht) hsup htdown
  rw [hup] at hx
  rw [hdown] at hy
  cases hx
  cases hy
  have hst : s = t := by
    rw [hiff]
    decide +kernel
  refine ⟨⟨compiled, c.registry⟩, c, Script.compile_eq_ok.mpr ⟨c, hc, rfl⟩, hc, s,
    List.mem_of_getElem? hs, hsup, hst ▸ htdown, _, _, hup, hdown, ?_⟩
  decide +kernel

end RelScript
