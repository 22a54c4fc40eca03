import RelScript.Proofs.Execution.Materialization
import RelScript.Proofs.Unit.Lowering
import RelScript.Proofs.Unit.Origins

/-!
Two units of one script that run side by side. An alias that both have compiled gives alike results
in both, over catalogs with the same tables in all places that the alias loads.
-/

namespace RelScript

/-- Settings that differ in the name of the query only. -/
structure RunSettings.SameLimits (settings settings' : RunSettings) : Prop where
  batchSize : settings'.batchSize = settings.batchSize
  parallelism : settings'.parallelism = settings.parallelism
  rowLimit : settings'.rowLimit = settings.rowLimit

/-- Two catalogs with the same tables in all places that the roots load. -/
def Script.SameSources (script : Script) (roots : List String) (c c' : Catalog) : Prop :=
  ∀ source schema, script.Accesses roots (.load source schema) → c'.get source = c.get source

/-- The slots offer what the side inputs give when they read these slots. -/
def Registry.Settles (r : Registry) (settings : RunSettings) (c : Catalog) (slots : List Slot) :
    Prop :=
  ∀ (k : Nat) (s : SideInput), r[k]? = some s → ∃ size o, s.plan.lower size = .ok o ∧
    ∀ w, w.catalog = c → ((settings.context slots).read k).toOption =
      offered settings.rowLimit (o.execute (settings.context slots) [] w).1

namespace Compilation

variable {script : Script} {roots roots' : List String} {c c' : Compilation}

section Simulation

variable {settings settings' : RunSettings} {slots slots' : List Slot} {t t' : Catalog}

/-- An alias gives alike results in two units whose slots match for its placeholders. -/
theorem Built.executesAlike (hlegible : script.IsLegible) (h : Built script roots c)
    (h' : Built script roots' c') (hsettings : settings.SameLimits settings')
    (htables : script.SameSources roots t t') {a : String} {x x' : CompiledAlias}
    (hx : c.get? a = some x) (hx' : c'.get? a = some x')
    (hslots : SlotsMatch c'.registry.idOf (settings.context slots) (settings'.context slots')
      x.plan.placeholders) {size size' : Nat} {o o' : Operator} (ho : x.plan.lower size = .ok o)
    (ho' : x'.plan.lower size' = .ok o') :
    ExecutesAlike t t' (settings.context slots) (settings'.context slots') o o' := by
  have hmeets : x.plan.MeetsSame c'.registry.idOf t t' (settings.context slots)
      (settings'.context slots') :=
    { batchSize := hsettings.batchSize
      parallelism := congrArg (max · 1) hsettings.parallelism
      slots := hslots
      loads := fun source schema hload =>
        htables source schema (h.accesses hx hload)
      storesNothing := fun target hstore =>
        hlegible.not_accesses_store roots target (h.accesses hx hstore) }
  obtain ⟨y, hy, hplan, -⟩ := h.renumbers hlegible.isScripted h' (by rw [hx']; rfl) x hx
  rw [hx'] at hy
  cases hy
  rw [hplan] at ho'
  have hrelisted : x.plan.relist.lower size = .ok o := by
    rwa [Plan.relist_of_listed (h.wellScoped hlegible.isScripted hx).listed]
  exact hmeets.executesAlike hrelisted ho'

theorem Built.executesAlike_self (hlegible : script.IsLegible) (h : Built script roots c)
    (settings : RunSettings) (t : Catalog) {a : String} {x : CompiledAlias}
    (hx : c.get? a = some x)
    (hread : ∀ p ∈ x.plan.placeholders, (settings.context slots).read p.sideInput =
      (settings.context slots').read p.sideInput) {size : Nat} {o : Operator}
    (ho : x.plan.lower size = .ok o) :
    ExecutesAlike t t (settings.context slots) (settings.context slots') o o := by
  refine h.executesAlike hlegible h ⟨rfl, rfl, rfl⟩ (fun _ _ _ => rfl) hx hx (fun p hp => ?_) ho ho
  have hid := (h.described hlegible.isScripted).idOf_eq (h.holds hlegible.isScripted hx hp)
  rw [hid, hread p hp]
  exact Alike.refl _

theorem Built.slotsMatch (hlegible : script.IsLegible) (h : Built script roots c)
    (h' : Built script roots' c') (hsettings : settings.SameLimits settings')
    (htables : script.SameSources roots t t') (hslots : c.registry.Settles settings t slots)
    (hslots' : c'.registry.Settles settings' t' slots') {a : String} {x : CompiledAlias}
    (hx : c.get? a = some x) (ha : (c'.get? a).isSome) :
    SlotsMatch c'.registry.idOf (settings.context slots) (settings'.context slots')
      x.plan.placeholders := by
  refine h.induction hlegible.isScripted (P := fun a x => (c'.get? a).isSome →
    SlotsMatch c'.registry.idOf (settings.context slots) (settings'.context slots')
      x.plan.placeholders) ?_ hx ha
  intro a d x hd hscripted hsolves hdeps ha p hp
  obtain ⟨x', hx'⟩ := Option.isSome_iff_exists.mp ha
  have hsolves' := h'.solves_of_get? hlegible.isScripted hd hx'
  rcases hsolves.placeholder_origin hscripted hp with ⟨ref, href, rfl⟩ | ⟨b, y, hb, hy, hpy⟩
  · obtain ⟨id, hid⟩ := hsolves.registered ref href
    obtain ⟨id', hid'⟩ := hsolves'.registered ref href
    obtain ⟨s, y, hs, hy, hplan⟩ := h.plan_of_holds hlegible hid
    obtain ⟨s', y', hs', hy', hplan'⟩ := h'.plan_of_holds hlegible hid'
    obtain ⟨size, o, ho, hoffer⟩ := hslots id s hs
    obtain ⟨size', o', ho', hoffer'⟩ := hslots' id' s' hs'
    rw [hplan] at ho
    rw [hplan'] at ho'
    have hmatch := hdeps ref.1 (Plan.mem_dependencies_of_scalar href) y hy (by rw [hy']; rfl)
    have halike := h.executesAlike hlegible h' hsettings htables hy hy' hmatch ho ho' [] []
      ⟨t, []⟩ ⟨t', []⟩ rfl rfl
    show Alike Eq ((settings.context slots).read (c.registry.idOf ref.1))
      ((settings'.context slots').read (c'.registry.idOf ref.1))
    rw [(h.described hlegible.isScripted).idOf_eq hid,
      (h'.described hlegible.isScripted).idOf_eq hid',
      Alike.iff_toOption_eq, hoffer ⟨t, []⟩ rfl, hoffer' ⟨t', []⟩ rfl, hsettings.rowLimit]
    exact offered_congr halike.1
  · exact hdeps b hb y hy (hsolves'.dependencies b hb) p hpy

end Simulation

section Materialization

variable {size : Nat} {plans : List SideInputPlan}

theorem Built.id_of_getElem? (hlegible : script.IsLegible) (h : Built script roots c)
    (hplans : List.Forall₂ (fun s p => s.lower size = .ok p) c.registry plans) {k : Nat}
    {p : SideInputPlan} (hp : plans[k]? = some p) : p.id = k := by
  obtain ⟨s, hs, hlower⟩ := exists_getElem?_of_forall₂ hplans.flip hp
  exact (SideInput.id_of_lower hlower).trans ((h.described hlegible.isScripted).numbered k s hs)

theorem Built.pairwise_id (hlegible : script.IsLegible) (h : Built script roots c)
    (hplans : List.Forall₂ (fun s p => s.lower size = .ok p) c.registry plans) :
    plans.Pairwise fun p q => p.id < q.id := by
  refine List.pairwise_iff_getElem.mpr fun i j hi hj hij => ?_
  rw [h.id_of_getElem? hlegible hplans (List.getElem?_eq_getElem hi),
    h.id_of_getElem? hlegible hplans (List.getElem?_eq_getElem hj)]
  exact hij

theorem Built.settles_materializeAll (hlegible : script.IsLegible) (h : Built script roots c)
    (hplans : List.Forall₂ (fun s p => s.lower size = .ok p) c.registry plans)
    (settings : RunSettings) (w : EngineState) :
    (materializeAll settings plans [] w).2.catalog = w.catalog ∧
      c.registry.Settles settings w.catalog (materializeAll settings plans [] w).1 := by
  have hdescribed := h.described hlegible.isScripted
  have hkeeps : ∀ p ∈ plans, ∀ slots w', w'.catalog = w.catalog →
      (p.plan.execute (settings.context slots) [] w').2.catalog = w.catalog := by
    intro p hp slots w' hw'
    obtain ⟨s, hs, hlower⟩ := forall_right_of_forall₂ hplans p hp
    obtain ⟨a, -, ha⟩ := hdescribed.first s hs
    exact (h.executesAlike_self hlegible settings w.catalog ha (fun _ _ => rfl)
      (SideInput.plan_of_lower hlower) [] [] w' w' hw' hw').2.1
  obtain ⟨hcatalog, -, hown⟩ := materializeAll_spec settings (h.pairwise_id hlegible hplans) hkeeps
    [] w rfl
  refine ⟨hcatalog, fun k s hs => ?_⟩
  obtain ⟨p, hp, hlower⟩ := exists_getElem?_of_forall₂ hplans hs
  have hid := h.id_of_getElem? hlegible hplans hp
  obtain ⟨slots, w', hw', hfound, hbefore⟩ := hown p (List.mem_of_getElem? hp)
  rw [hid] at hfound hbefore
  obtain ⟨a, -, ha⟩ := hdescribed.first s (List.mem_of_getElem? hs)
  have ho := SideInput.plan_of_lower hlower
  refine ⟨size, p.plan, ho, fun w'' hw'' => ?_⟩
  have hread : (settings.context (materializeAll settings plans [] w).1).read k =
      RunContext.resolve (materialize settings p slots w').1 := by
    rw [RunContext.read, RunContext.slot?, RunSettings.context, hfound]
  rw [hread, toOption_resolve_materialize]
  -- The plan ran when the slots below its own were full, and reads no others.
  refine offered_congr (h.executesAlike_self hlegible settings w.catalog ha (fun q hq => ?_) ho
    [] [] w' w'' hw' hw'').1
  rw [RunContext.read, RunContext.read, RunContext.slot?, RunContext.slot?, RunSettings.context,
    RunSettings.context, hbefore q.sideInput (hdescribed.below k s hs q hq)]

end Materialization

end Compilation

end RelScript
