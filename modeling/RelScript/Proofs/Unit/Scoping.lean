import Mathlib
import RelScript.Proofs.Analysis.OutputSchema
import RelScript.Proofs.Analysis.Reanalysis
import RelScript.Proofs.Encoding.Fingerprint
import RelScript.Proofs.Unit.Consistency

/-!
Compiled units are closed: their plans refer to nothing by name, side inputs read only earlier ones,
and every placeholder reads a field that its side input has, under a list of exactly the side inputs
that its node reads.
-/

namespace RelScript

/-- The field at an index has the type. All fields of an undeclared relation hold raw bytes. -/
def RelationSchema.HasField : RelationSchema → Nat → DataType → Prop
  | some fields, index, type => ∃ f, fields[index]? = some f ∧ f.type = type
  | none, _, type => type = .binary

theorem hasField_of_resolve {aliasName : String} {field : FieldSelector} {schema : RelationSchema}
    {index : Nat} {type : DataType} (h : field.resolve aliasName schema = .ok (index, type)) :
    schema.HasField index type := by
  cases schema with
  | none =>
      cases field with
      | name n => cases h
      | position p =>
          cases h
          rfl
  | some fields =>
      have hfield : ∀ {i t}, RelationSchema.fieldType? (some fields) i = some t →
          ∃ f, fields[i]? = some f ∧ f.type = t := by
        intro i t ht
        rw [RelationSchema.fieldType?, Option.bind_some, Option.map_eq_some_iff] at ht
        exact ht
      cases field with
      | name n =>
          rw [FieldSelector.resolve] at h
          split at h
          · rename_i i hi
            cases h
            have hlt : index < fields.length := (List.findIdx?_eq_some_iff_getElem.mp hi).1
            refine ⟨fields[index], List.getElem?_eq_getElem hlt, ?_⟩
            simp [RelationSchema.fieldType?, List.getElem?_eq_getElem hlt]
          · cases h
      | position p =>
          rw [FieldSelector.resolve] at h
          split at h
          · rename_i t ht
            cases h
            exact hfield ht
          · cases h

theorem DataType.isUntyped_iff (t : DataType) :
    t.isUntyped = true ↔ t = .binary ∨ t = .largeBinary := by
  cases t with
  | bytes e => cases e <;> simp [isUntyped]
  | _ => simp [isUntyped]

/-- A placeholder that reads a field of the side input of its number, for an alias of that side
input and with the type of the field. Fields of raw bytes are untyped. -/
def Placeholder.Fits (entries : List SideInput) (p : Placeholder) : Prop :=
  ∃ s, entries[p.sideInput]? = some s ∧ p.aliasName ∈ s.aliases ∧
    s.schema.HasField p.index p.type ∧
      (p.typed = false ↔ p.type = .binary ∨ p.type = .largeBinary)

namespace Plan

/-- The side inputs that a plan mentions, in placeholders or in lists. -/
def mentions (p : Plan) : List SideInputId :=
  p.nodes.flatMap fun
    | sideInputs ids _ => ids
    | n => n.reads

/-- A plan without names that can run once its side inputs are bound. -/
structure WellScoped (entries : List SideInput) (p : Plan) : Prop where
  inlined : ∀ n ∈ p.nodes, n.relationAlias? = none
  resolved : ∀ e ∈ p.allExprs, e.IsResolved
  listed : p.Listed []
  fits : ∀ q ∈ p.placeholders, q.Fits entries

theorem Listed.lists {p : Plan} {above : List SideInputId} (h : p.Listed above) :
    Lists above p.reads := by
  cases p with
  | load | relation => exact (h : above = []) ▸ lists_ascending []
  | limit | store | sideInputs => exact h.1 ▸ lists_ascending []
  | project | filter | split | aggregate | join => exact h.1

theorem Listed.of_mem_nodes {p : Plan} {above : List SideInputId} (h : p.Listed above) {n : Plan}
    (hn : n ∈ p.nodes) : ∃ above', n.Listed above' := by
  induction p generalizing above with
  | load | relation =>
      rw [List.mem_singleton.mp hn]
      exact ⟨above, h⟩
  | project _ _ ih | filter _ _ ih | split _ _ _ ih | aggregate _ _ _ ih | limit _ _ ih
  | store _ _ ih =>
      rcases List.mem_cons.mp hn with rfl | hn
      · exact ⟨above, h⟩
      · exact ih h.2 hn
  | join _ _ _ ihl ihr =>
      rcases List.mem_cons.mp hn with rfl | hn
      · exact ⟨above, h⟩
      · rcases List.mem_append.mp hn with hn | hn
        · exact ihl h.2.1 hn
        · exact ihr h.2.2 hn
  | sideInputs _ _ ih =>
      rcases List.mem_cons.mp hn with rfl | hn
      · exact ⟨above, h⟩
      · exact ih h.2.2 hn

theorem mem_placeholders_of_mem_reads {p n : Plan} (hn : n ∈ p.nodes) {id : SideInputId}
    (hid : id ∈ n.reads) : ∃ q ∈ p.placeholders, q.sideInput = id := by
  obtain ⟨q, hq, rfl⟩ := List.mem_map.mp hid
  obtain ⟨e, he, hqe⟩ := List.mem_flatMap.mp hq
  exact ⟨q, List.mem_flatMap.mpr ⟨e, List.mem_flatMap.mpr ⟨n, hn, he⟩, hqe⟩, rfl⟩

theorem Listed.mentions {p : Plan} {above : List SideInputId} (h : p.Listed above)
    {id : SideInputId} (hid : id ∈ p.mentions) : ∃ q ∈ p.placeholders, q.sideInput = id := by
  obtain ⟨n, hn, hidn⟩ := List.mem_flatMap.mp hid
  cases n with
  | sideInputs ids input =>
      obtain ⟨above', hlisted⟩ := h.of_mem_nodes hn
      refine mem_placeholders_of_mem_reads ?_ ((hlisted.2.2.lists.2 id).mp hidn)
      have hinput : input ∈ (sideInputs ids input).nodes :=
        nodes_subset_of_child (List.mem_singleton.mpr rfl) (mem_nodes_self input)
      exact nodes_subset_of_mem hn hinput
  | _ => exact mem_placeholders_of_mem_reads hn hidn

theorem WellScoped.statementPlan {entries : List SideInput} {p : Plan} (h : p.WellScoped entries)
    (target : OutputTarget) : (Compilation.statementPlan target p).WellScoped entries := by
  cases target with
  | collect => exact h
  | store name =>
      exact {
        inlined := List.forall_mem_cons.mpr ⟨rfl, h.inlined⟩
        resolved := h.resolved
        listed := ⟨rfl, h.listed⟩
        fits := h.fits }

end Plan

namespace Compilation

variable {script : Script} {roots : List String} {c : Compilation}

theorem Built.schema_eq (hscript : script.IsScripted) (h : Built script roots c) {a : String}
    {x : CompiledAlias} (hx : c.get? a = some x) : x.plan.schema = .ok x.schema := by
  refine h.induction hscript (P := fun _ x => x.plan.schema = .ok x.schema) ?_ hx
  intro a d x _ hd hsolves hdeps
  obtain ⟨scope, columns, hplan, hschema, hscope⟩ := hsolves.analyzesPlan
  rw [← hschema]
  refine hplan.schema_eq fun b q s hq hs => ?_
  obtain ⟨y, hb, hy, rfl, hfound⟩ := hscope b q hq
  cases hs.symm.trans hfound
  exact hdeps b hb y hy

theorem isAnalyzed_relationScope
    (h : ∀ a x, c.get? a = some x → RelationScope.Analyzed x.plan x.schema) :
    (relationScope script c.compiled).IsAnalyzed := by
  intro a q s hq hs
  obtain ⟨x, hx, rfl, rfl⟩ := relationScope_eq_ok.mp ⟨hq, hs⟩
  exact h a x hx

theorem Built.analyzed (h : Built script roots c) {a : String} {x : CompiledAlias}
    (hx : c.get? a = some x) : RelationScope.Analyzed x.plan x.schema := by
  induction h generalizing a x with
  | empty => cases hx
  | @add c c' b d _ _ _ _ _ hadd ih =>
      obtain ⟨bound, r, y, -, hanalyze, rfl⟩ := add_eq_ok hadd
      rw [get?, List.lookup_cons] at hx
      split at hx
      · cases hx
        exact .analyze (isAnalyzed_relationScope fun _ _ => ih) hanalyze
      · exact ih hx

theorem Built.schema_of_mem (hscript : script.IsScripted) (h : Built script roots c)
    {s : SideInput} (hs : s ∈ c.registry) {a : String} (ha : a ∈ s.aliases) {x : CompiledAlias}
    (hx : c.get? a = some x) : x.schema = s.schema := by
  have hc := h.described hscript
  obtain ⟨b, -, hb⟩ := hc.first s hs
  obtain ⟨y, hy, hfingerprint⟩ := hc.alike s hs a ha
  rw [get?, hy] at hx
  cases hx
  have hplans := Plan.schema_eq_of_fingerprint_eq (hfingerprint.trans (hc.shown s hs))
  rw [h.schema_eq hscript hy, h.schema_eq hscript hb] at hplans
  exact Except.ok.inj hplans

theorem Built.placeholding_fits (hscript : script.IsScripted) (h : Built script roots c)
    {ref : String × FieldSelector} {id : SideInputId} (hid : c.registry.Holds ref.1 id)
    (hsel : (field? c.compiled ref.1 ref.2).isSome) :
    (placeholding c.compiled c.registry ref.1 ref.2).Fits c.registry := by
  obtain ⟨found, hfound⟩ := Option.isSome_iff_exists.mp hsel
  obtain ⟨x, hx, hresolve⟩ := field?_eq_some.mp hfound
  obtain ⟨s, hs, ha⟩ := hid
  rw [placeholding_of_holds (h.described hscript) ⟨s, hs, ha⟩ hfound]
  refine ⟨s, hs, ha, ?_, ?_⟩
  · rw [← h.schema_of_mem hscript (List.mem_of_getElem? hs) ha hx]
    exact hasField_of_resolve hresolve
  · rw [← DataType.isUntyped_iff]
    exact iff_of_eq (Bool.not_eq_false' _)

/-- Every compiled alias is scoped by the registry. -/
theorem Built.wellScoped (hscript : script.IsScripted) (h : Built script roots c) {a : String}
    {x : CompiledAlias} (hx : c.get? a = some x) : x.plan.WellScoped c.registry := by
  refine h.induction hscript (P := fun _ x => x.plan.WellScoped c.registry) ?_ hx
  intro a d x _ hd hsolves hdeps
  obtain ⟨scope, columns, hplan, -, hscope⟩ := hsolves.analyzesPlan
  have halias : ∀ {b q}, scope.compiled b = .ok q → q.WellScoped c.registry := by
    intro b q hq
    obtain ⟨y, hb, hy, rfl, -⟩ := hscope b q hq
    exact hdeps b hb y hy
  constructor
  · intro n hn
    cases hplan.origin hn with
    | own _ _ hrelation _ => exact hrelation
    | inlined _ hq hn => exact (halias hq).inlined n hn
  · intro e he
    rcases hplan.expr_origin he with ⟨e₀, -, hbecomes⟩ | ⟨b, q, -, hq, heq⟩
    · exact hbecomes.isResolved
    · exact (halias hq).resolved e heq
  · exact hplan.listed (fun b q hq => (halias hq).listed) (Plan.listed_substitute _ d)
  · intro q hq
    rcases hsolves.placeholder_origin hd hq with ⟨ref, href, rfl⟩ | ⟨b, y, hb, hy, hqy⟩
    · obtain ⟨id, hid⟩ := hsolves.registered ref href
      exact h.placeholding_fits hscript hid (hsolves.selects ref href)
    · exact (hdeps b hb y hy).fits q hqy

theorem Built.wellScoped_sideInput (hscript : script.IsScripted) (h : Built script roots c)
    {k : Nat} {s : SideInput} (hs : c.registry[k]? = some s) :
    s.id = k ∧ s.plan.WellScoped c.registry ∧ ∀ id ∈ s.plan.mentions, id < k := by
  have hdescribed := h.described hscript
  obtain ⟨a, -, ha⟩ := hdescribed.first s (List.mem_of_getElem? hs)
  have hscoped : s.plan.WellScoped c.registry := h.wellScoped hscript ha
  refine ⟨hdescribed.numbered k s hs, hscoped, fun id hid => ?_⟩
  obtain ⟨q, hq, rfl⟩ := hscoped.listed.mentions hid
  exact hdescribed.below k s hs q hq

end Compilation

/-- Compiled units are closed: every plan of an accepted unit is scoped by the side inputs of the
unit, and a side input mentions only earlier ones. -/
theorem Script.compile_wellScoped {script : Script} {statements : List Statement}
    {u : CompiledUnit} (hscript : script.IsScripted) (h : script.compile statements = .ok u) :
    (∀ s ∈ u.statements, s.plan.WellScoped u.sideInputs) ∧
      ∀ (k : Nat) (s : SideInput), u.sideInputs[k]? = some s →
        s.id = k ∧ s.plan.WellScoped u.sideInputs ∧ ∀ id ∈ s.plan.mentions, id < k := by
  obtain ⟨c, hc, hsides, hstatements⟩ := Script.built_of_compile h
  rw [hsides]
  refine ⟨fun s hs => ?_, fun k s hs => hc.wellScoped_sideInput hscript hs⟩
  obtain ⟨t, -, x, hx, rfl⟩ := forall_right_of_forall₂ hstatements s hs
  exact (hc.wellScoped hscript hx).statementPlan t.target

/-- The orders of the greatest amount. -/
def topOrders : Plan :=
  .filter (.binary (.position 0) (.compare .eq) (.scalarRef "best" (.position 0)))
    (.relation "orders")

/-- A script that picks the orders of the greatest amount. -/
def bestOrders : Script :=
  ⟨[("orders", .load "orders" (some [⟨"amount", .int64, true⟩])),
    ("best", .aggregate [] [⟨⟨.max, .position 0⟩, "amount"⟩] (.relation "orders")),
    ("top", topOrders)]⟩

theorem isScripted_bestOrders : bestOrders.IsScripted := by
  simp [Script.IsScripted, bestOrders, topOrders, Plan.IsScripted, Plan.placeholders,
    Plan.allExprs, Plan.nodes, Plan.exprs, Expr.placeholders, Expr.parts, Expr.placeholder?]

namespace Compilation

/-- The orders and their greatest amount compiled. -/
def ordersRead : Compilation :=
  ⟨[], [("best", ⟨.aggregate [] [⟨⟨.max, .columnRef "amount" 0⟩, "amount"⟩]
      (.load "orders" (some [⟨"amount", .int64, true⟩])), some [⟨"amount", .int64, true⟩]⟩),
    ("orders", ⟨.load "orders" (some [⟨"amount", .int64, true⟩]),
      some [⟨"amount", .int64, true⟩]⟩)]⟩

theorem compileAll_ordersRead :
    compileAll bestOrders ["orders", "best"] .empty ["orders", "best"] = .ok ordersRead := by
  cbv

theorem described_ordersRead : ordersRead.Described := by
  refine Registry.Describes.cons (Registry.describes_nil.cons rfl ?_) rfl ?_
  · exact fun p hp => by cases hp
  · exact fun p hp => by cases hp

end Compilation

theorem compile_bestOrders : ∃ u, bestOrders.compile [⟨"top", .store "out"⟩] = .ok u := by
  have hscripted := isScripted_bestOrders.of_get? (a := "top") rfl
  have hrelations : Compilation.NoRelationRefs topOrders := List.forall_mem_singleton.mpr rfl
  have hselects : Compilation.Selects Compilation.ordersRead.compiled topOrders.scalarRefs :=
    List.forall_mem_singleton.mpr rfl
  obtain ⟨c, hc⟩ := Compilation.exists_add bestOrders Compilation.described_ordersRead hscripted
    hrelations hselects (fun r _ _ => ⟨_, rfl⟩) "top"
  have hcycles : bestOrders.checkCycles "top" = .ok () := by cbv
  have hdeps : topOrders.dependencies = ["orders", "best"] := by cbv
  have halias : Compilation.compileAlias bestOrders bestOrders.aliases .empty "top" = .ok c := by
    rw [Compilation.compileAlias]
    refine bind_eq_ok.mpr ⟨_, ?_, hc⟩
    rw [hdeps]
    exact Compilation.compileAll_ordersRead
  obtain ⟨x, hx⟩ := Option.isSome_iff_exists.mp (Compilation.isSome_get?_add hc)
  have hroot := Compilation.compileRoot_eq_ok.mpr ⟨hcycles, halias, hx⟩
  exact ⟨_, bind_eq_ok.mpr ⟨_, bind_eq_ok.mpr ⟨_, hroot, rfl⟩, rfl⟩⟩

theorem bestOrders_wellScoped :
    ∃ u, bestOrders.compile [⟨"top", .store "out"⟩] = .ok u ∧
      (∀ s ∈ u.statements, s.plan.WellScoped u.sideInputs) ∧
        ∀ (k : Nat) (s : SideInput), u.sideInputs[k]? = some s →
          s.id = k ∧ s.plan.WellScoped u.sideInputs ∧ ∀ id ∈ s.plan.mentions, id < k := by
  obtain ⟨u, hu⟩ := compile_bestOrders
  exact ⟨u, hu, Script.compile_wellScoped isScripted_bestOrders hu⟩

end RelScript
