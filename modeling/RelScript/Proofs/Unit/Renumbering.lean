import RelScript.Proofs.Analysis.Renumbering
import RelScript.Proofs.Unit.Consistency

/-!
One alias in two compilations. What the compilations make of it differs in the numbers of side
inputs only, and each of them accepts whatever the other one does.
-/

namespace RelScript

namespace Compilation

variable {script : Script} {roots roots' : List String} {c c' : Compilation}

/-- Another compilation has the same alias under other numbers. -/
def Renumbers (c c' : Compilation) (ids : String → SideInputId) (a : String) : Prop :=
  ∀ x, c.get? a = some x → ∃ x', c'.get? a = some x' ∧ x'.plan = x.plan.reassign ids ∧
    x'.schema = x.schema

theorem field?_renumbers {ids : String → SideInputId} {a : String} {f : FieldSelector}
    (h : c.Renumbers c' ids a) (ha : (c.get? a).isSome) :
    field? c'.compiled a f = field? c.compiled a f := by
  obtain ⟨x, hx⟩ := Option.isSome_iff_exists.mp ha
  obtain ⟨x', hx', -, hschema⟩ := h x hx
  have hlookup : c.compiled.lookup a = some x := hx
  have hlookup' : c'.compiled.lookup a = some x' := hx'
  rw [field?, field?, hlookup, hlookup', Option.bind_some, Option.bind_some, hschema]

theorem Solves.renumber {d : Plan} {x : CompiledAlias} (h : Solves script c d x)
    (hd : d.IsScripted) {r : Registry}
    (hdeps : ∀ b ∈ d.dependencies, c.Renumbers c' r.idOf b) :
    (relationScope script c'.compiled).analyze (d.substitute (placeholding c'.compiled r)) =
      .ok (x.plan.reassign r.idOf, x.schema) := by
  obtain ⟨columns, hplan, hschema⟩ := RelationScope.analyze_eq_ok.mp h.analyzed
  have hsubstitute : (d.substitute (placeholding c.compiled c.registry)).reassign r.idOf =
      d.substitute (placeholding c'.compiled r) := by
    refine Plan.reassign_substitute hd.1 fun ref href => ?_
    have hdep := Plan.mem_dependencies_of_scalar href
    simp only [placeholding, field?_renumbers (hdeps _ hdep) (h.dependencies _ hdep)]
    rfl
  rw [← hsubstitute]
  refine RelationScope.analyze_eq_ok.mpr ⟨columns, hplan.reassign r.idOf fun a ha => ?_, hschema⟩
  rw [Plan.accesses_substitute] at ha
  intro q schema hq hqschema
  obtain ⟨y, hy, rfl, rfl⟩ := relationScope_eq_ok.mp ⟨hq, hqschema⟩
  obtain ⟨y', hy', hplan', hschema'⟩ := hdeps a (Plan.mem_dependencies_of_relation ha) y hy
  exact relationScope_eq_ok.mpr ⟨y', hy', hplan', hschema'⟩

/-- What two compilations make of an alias differs in the numbers of side inputs only. -/
theorem Built.renumbers (hscript : script.IsScripted) (h : Built script roots c)
    (h' : Built script roots' c') {a : String} (ha : (c'.get? a).isSome) :
    c.Renumbers c' c'.registry.idOf a := by
  intro x hx
  refine h.induction hscript (P := fun a x => (c'.get? a).isSome → ∃ x', c'.get? a = some x' ∧
    x'.plan = x.plan.reassign c'.registry.idOf ∧ x'.schema = x.schema) ?_ hx ha
  intro a d x hd hscripted hsolves hdeps ha
  obtain ⟨x', hx'⟩ := Option.isSome_iff_exists.mp ha
  have hsolves' := h'.solves_of_get? hscript hd hx'
  have hrenumbered := hsolves.renumber hscripted fun b hb y hy =>
    hdeps b hb y hy (hsolves'.dependencies b hb)
  rw [hsolves'.analyzed] at hrenumbered
  injection hrenumbered with hpair
  exact ⟨x', hx', congrArg Prod.fst hpair, congrArg Prod.snd hpair⟩

theorem Built.holds (hscript : script.IsScripted) (h : Built script roots c) {a : String}
    {x : CompiledAlias} (hx : c.get? a = some x) {p : Placeholder}
    (hp : p ∈ x.plan.placeholders) : c.registry.Holds p.aliasName p.sideInput := by
  refine h.induction hscript
    (P := fun _ x => ∀ p ∈ x.plan.placeholders, c.registry.Holds p.aliasName p.sideInput)
    ?_ hx p hp
  intro a d x _ hd hsolves hdeps p hp
  rcases hsolves.placeholder_origin hd hp with ⟨ref, href, rfl⟩ | ⟨b, y, hb, hy, hpy⟩
  · obtain ⟨id, hid⟩ := hsolves.registered ref href
    show c.registry.Holds ref.1 (c.registry.idOf ref.1)
    rwa [(h.described hscript).idOf_eq hid]
  · exact hdeps b hb y hy p hpy

end Compilation

end RelScript
