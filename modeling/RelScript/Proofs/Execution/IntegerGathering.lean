import Mathlib
import RelScript.Proofs.Execution.KnownRows
import RelScript.Proofs.Value.Cells

/-!
Sums, minima and maxima of integers. The accumulators take the integers of a column in their range
at their values, one after the other; a sum that leaves the range on the way is a failure.
-/

namespace RelScript

namespace AggregateFn

/-- Whether the function gathers integers as integers. -/
def IsIntegral (fn : AggregateFn) : Prop := fn = .sum ∨ fn = .min ∨ fn = .max

/-- The sum, the least or the greatest of some integers. -/
def exact : AggregateFn → List Int → Option Int
  | .sum, ns => if ns = [] then none else some ns.sum
  | .min, ns => ns.min?
  | .max, ns => ns.max?
  | .count, _ | .avg, _ => none

/-- Whether the first integers sum up to one that is out of range. -/
def Overflows (fn : AggregateFn) (ns : List Int) : Prop :=
  fn = .sum ∧ ∃ first, first <+: ns ∧ ¬ IntKind.int64.Holds first.sum

/-- What an aggregate without keys comes to for the integers of all rows, of which some may be
missing: a failure if a sum leaves its range, and else one row with the exact result, or no row if
there was none. -/
structure GathersAs (fn : AggregateFn) (name : String) (entries : List (Option Int))
    (result : Outcome Relation) : Prop where
  exact : ¬ fn.Overflows entries.reduceOption → ∃ out found, result = .ok out ∧
    out.contents = ⟨[⟨name, .int64, true⟩], if entries = [] then [] else [.cons found .nil]⟩ ∧
      Option.map Subtype.val found = fn.exact entries.reduceOption
  overflow : fn.Overflows entries.reduceOption → ∃ e, result = .error e

theorem GathersAs.congr {fn : AggregateFn} {name : String} {entries : List (Option Int)}
    {result result' : Outcome Relation} (h : fn.GathersAs name entries result)
    (hresult : Alike Eq result result') : fn.GathersAs name entries result' := by
  constructor
  · intro hstays
    obtain ⟨out, found, rfl, hout⟩ := h.exact hstays
    obtain ⟨_, rfl, rfl⟩ := hresult.ok_left
    exact ⟨_, found, rfl, hout⟩
  · intro hover
    obtain ⟨e, rfl⟩ := h.overflow hover
    exact hresult.error_left

end AggregateFn

theorem reduceOption_map_val (c : List (Option (Whole .int64))) :
    (c.map (Option.map Subtype.val)).reduceOption = c.reduceOption.map Subtype.val :=
  List.reduceOption_map

/-- The cell of an integer, if there is one. -/
def Cell.ofWhole (n : Option (Whole .int64)) : Cell := n.elim .missing .int

namespace Accumulator

/-- Takes some integers in, one after the other. -/
def addAll (a : Accumulator) (ns : List (Whole .int64)) : Outcome Accumulator :=
  ns.foldlM (fun a n => a.addValue (.int n)) a

theorem addAll_cons (a : Accumulator) (n : Whole .int64) (ns : List (Whole .int64)) :
    a.addAll (n :: ns) = a.addValue (.int n) >>= fun next => next.addAll ns :=
  List.foldlM_cons

section Sums

/-- The total so far, which is zero at first. -/
def soFar (total : Option (Whole .int64)) : Int := (total.getD (Whole.zero _)).val

theorem soFar_none : soFar none = 0 := rfl

theorem holds_soFar (total : Option (Whole .int64)) : IntKind.int64.Holds (soFar total) :=
  (total.getD (Whole.zero _)).property

variable {total : Option (Whole .int64)} {n : Whole .int64}

theorem addValue_sumInt_eq (total : Option (Whole .int64)) (n : Whole .int64) :
    (sumInt total).addValue (.int n) = match Whole.ofInt? .int64 (soFar total + n.val) with
      | some next => .ok (sumInt (some next))
      | none => .error (.execution .sumOverflow) :=
  rfl

theorem addValue_sumInt (h : IntKind.int64.Holds (soFar total + n.val)) :
    (sumInt total).addValue (.int n) = .ok (sumInt (some ⟨_, h⟩)) := by
  rw [addValue_sumInt_eq, Whole.ofInt?_of_holds h]

theorem addValue_sumInt_of_not (h : ¬ IntKind.int64.Holds (soFar total + n.val)) :
    (sumInt total).addValue (.int n) = .error (.execution .sumOverflow) := by
  have hnone : Whole.ofInt? .int64 (soFar total + n.val) = none := dif_neg h
  rw [addValue_sumInt_eq, hnone]

theorem addAll_sumInt (ns : List (Whole .int64)) (total : Option (Whole .int64))
    (h : ∀ first, first <+: ns.map Subtype.val → IntKind.int64.Holds (soFar total + first.sum)) :
    ∃ last, (sumInt total).addAll ns = .ok (sumInt last) ∧
      last.map Subtype.val = if ns = [] then total.map Subtype.val
        else some (soFar total + (ns.map Subtype.val).sum) := by
  induction ns generalizing total with
  | nil => exact ⟨total, rfl, rfl⟩
  | cons n ns ih =>
      have hnext : IntKind.int64.Holds (soFar total + n.val) := by
        have hfirst := h [n.val] (List.prefix_append [n.val] (ns.map Subtype.val))
        rwa [List.sum_singleton] at hfirst
      obtain ⟨last, hlast, hsum⟩ := ih (some ⟨_, hnext⟩) fun first hfirst => by
        have hmore := h (n.val :: first) (List.cons_prefix_cons.mpr ⟨rfl, hfirst⟩)
        rwa [List.sum_cons, ← add_assoc] at hmore
      refine ⟨last, ?_, ?_⟩
      · rw [addAll_cons, addValue_sumInt hnext]
        exact hlast
      · rw [hsum, if_neg (List.cons_ne_nil n ns), List.map_cons, List.sum_cons, ← add_assoc]
        split
        · rename_i hnil
          rw [hnil, List.map_nil, List.sum_nil, add_zero]
          rfl
        · rfl

theorem addAll_sumInt_of_not (ns : List (Whole .int64)) (total : Option (Whole .int64))
    (h : ∃ first, first <+: ns.map Subtype.val ∧
      ¬ IntKind.int64.Holds (soFar total + first.sum)) :
    (sumInt total).addAll ns = .error (.execution .sumOverflow) := by
  induction ns generalizing total with
  | nil =>
      obtain ⟨first, hfirst, hnot⟩ := h
      obtain rfl := List.prefix_nil.mp hfirst
      rw [List.sum_nil, add_zero] at hnot
      exact absurd (holds_soFar total) hnot
  | cons n ns ih =>
      rw [addAll_cons]
      by_cases hnext : IntKind.int64.Holds (soFar total + n.val)
      · rw [addValue_sumInt hnext]
        obtain ⟨first, hfirst, hnot⟩ := h
        apply ih
        cases first with
        | nil =>
            rw [List.sum_nil, add_zero] at hnot
            exact absurd (holds_soFar total) hnot
        | cons m first =>
            obtain ⟨rfl, hrest⟩ := List.cons_prefix_cons.mp hfirst
            refine ⟨first, hrest, ?_⟩
            rwa [List.sum_cons, ← add_assoc] at hnot
      · rw [addValue_sumInt_of_not hnext]
        rfl

end Sums

section Extremes

theorem addValue_least (m n : Whole .int64) :
    (least (some (.int m))).addValue (.int n) = .ok (least (some (.int (min m n)))) := by
  show Except.ok (least (some (if compare n.val m.val = .lt then Cell.int n else .int m))) = _
  rw [min_comm, min_def_lt, ← apply_ite Cell.int]
  simp only [compare_lt_iff_lt, Subtype.coe_lt_coe]

theorem addValue_greatest (m n : Whole .int64) :
    (greatest (some (.int m))).addValue (.int n) = .ok (greatest (some (.int (max m n)))) := by
  show Except.ok (greatest (some (if compare n.val m.val = .gt then Cell.int n else .int m))) = _
  rw [max_def_lt, ← apply_ite Cell.int]
  simp only [compare_gt_iff_gt, Subtype.coe_lt_coe]

theorem addAll_least (ns : List (Whole .int64)) (m : Whole .int64) :
    (least (some (.int m))).addAll ns = .ok (least (some (.int (ns.foldl min m)))) := by
  induction ns generalizing m with
  | nil => rfl
  | cons n ns ih =>
      rw [addAll_cons, addValue_least]
      exact ih (min m n)

theorem addAll_greatest (ns : List (Whole .int64)) (m : Whole .int64) :
    (greatest (some (.int m))).addAll ns = .ok (greatest (some (.int (ns.foldl max m)))) := by
  induction ns generalizing m with
  | nil => rfl
  | cons n ns ih =>
      rw [addAll_cons, addValue_greatest]
      exact ih (max m n)

theorem val_min (m n : Whole .int64) : (min m n).val = min m.val n.val :=
  Monotone.map_min (f := Subtype.val) fun _ _ h => h

theorem val_max (m n : Whole .int64) : (max m n).val = max m.val n.val :=
  Monotone.map_max (f := Subtype.val) fun _ _ h => h

theorem val_foldl {f : Whole .int64 → Whole .int64 → Whole .int64} {g : Int → Int → Int}
    (h : ∀ m n, (f m n).val = g m.val n.val) (ns : List (Whole .int64)) (m : Whole .int64) :
    (ns.foldl f m).val = (ns.map Subtype.val).foldl g m.val := by
  induction ns generalizing m with
  | nil => rfl
  | cons n ns ih => rw [List.foldl_cons, List.map_cons, List.foldl_cons, ih, h]

end Extremes

end Accumulator

/-- Integers are summed and compared as what they are, and a sum fails where it leaves the range. -/
theorem Measure.addAll_start {s : Schema} {m : Measure s} (hfn : m.fn.IsIntegral)
    (ht : m.type = .int64) (ns : List (Whole .int64)) :
    (¬ m.fn.Overflows (ns.map Subtype.val) → ∃ a found, m.start.addAll ns = .ok a ∧
      a.result = Cell.ofWhole found ∧
        found.map Subtype.val = m.fn.exact (ns.map Subtype.val)) ∧
    (m.fn.Overflows (ns.map Subtype.val) →
      m.start.addAll ns = .error (.execution .sumOverflow)) := by
  obtain ⟨fn, name, arg⟩ := m
  have hother : fn ≠ .sum → ¬ fn.Overflows (ns.map Subtype.val) := fun hne h => hne h.1
  rcases hfn with rfl | rfl | rfl
  · have hstart : Measure.start ⟨.sum, name, arg⟩ = .sumInt none := if_pos ht
    rw [hstart]
    constructor
    · intro hstays
      obtain ⟨last, hlast, hsum⟩ := Accumulator.addAll_sumInt ns none fun first hfirst => by
        rw [Accumulator.soFar_none, zero_add]
        by_contra hnot
        exact hstays ⟨rfl, first, hfirst, hnot⟩
      refine ⟨_, last, hlast, rfl, hsum.trans ?_⟩
      rw [Accumulator.soFar_none, zero_add]
      exact if_congr List.map_eq_nil_iff.symm rfl rfl
    · rintro ⟨-, first, hfirst, hnot⟩
      apply Accumulator.addAll_sumInt_of_not
      refine ⟨first, hfirst, ?_⟩
      rwa [Accumulator.soFar_none, zero_add]
  · refine ⟨fun _ => ?_, fun h => absurd h (hother (by simp))⟩
    cases ns with
    | nil => exact ⟨_, none, rfl, rfl, rfl⟩
    | cons n ns =>
        refine ⟨_, some (ns.foldl min n), Accumulator.addAll_least ns n, rfl, ?_⟩
        rw [Option.map_some, Accumulator.val_foldl Accumulator.val_min]
        exact List.min?_cons'.symm
  · refine ⟨fun _ => ?_, fun h => absurd h (hother (by simp))⟩
    cases ns with
    | nil => exact ⟨_, none, rfl, rfl, rfl⟩
    | cons n ns =>
        refine ⟨_, some (ns.foldl max n), Accumulator.addAll_greatest ns n, rfl, ?_⟩
        rw [Option.map_some, Accumulator.val_foldl Accumulator.val_max]
        exact List.max?_cons'.symm

section Ungrouped

variable {s : Schema}

theorem read_integer (n : DataType.int64.Entry) : Cell.read n = .ok (Cell.ofWhole n) := by
  cases n with
  | none => rfl
  | some n => exact congrArg (Except.ok ∘ Cell.int) (Cell.keptInt_of_holds n.property)

theorem Accumulator.addAll_reduceOption_cons (a : Accumulator) (n : Option (Whole .int64))
    (c : List (Option (Whole .int64))) :
    a.addAll (List.reduceOption (n :: c)) =
      a.add (Cell.ofWhole n) >>= fun next => next.addAll (List.reduceOption c) := by
  cases n with
  | none => rfl
  | some n => exact addAll_cons a n (List.reduceOption c)

/-- The one group that there is without keys. -/
def Group.ofAll (a : Accumulator) : Group := ⟨[], [a]⟩

theorem Group.add_ofAll (a : Accumulator) (v : Cell) :
    (Group.ofAll a).add [.ok v] = (a.add v).map Group.ofAll := by
  show ([(a, (Except.ok v : Outcome Cell))].mapM fun x => x.2 >>= x.1.add) >>= _ = _
  rw [List.mapM_cons]
  show (a.add v >>= fun _ => _) >>= _ = _
  cases a.add v <;> rfl

/-- A row without keys, for one integer or a missing one. -/
def keylessRow (n : Option (Whole .int64)) : List (Outcome Cell) × List (Outcome Cell) :=
  ([], [.ok (Cell.ofWhole n)])

theorem addRow_keylessRow (start a : Accumulator) (n : Option (Whole .int64)) :
    addRow [start] [Group.ofAll a] (keylessRow n) =
      (a.add (Cell.ofWhole n)).map fun next => [Group.ofAll next] := by
  show (Group.ofAll a).add [.ok (Cell.ofWhole n)] >>= _ = _
  rw [Group.add_ofAll]
  cases a.add (Cell.ofWhole n) <;> rfl

theorem addRow_keylessRow_nil (start : Accumulator) (n : Option (Whole .int64)) :
    addRow [start] [] (keylessRow n) =
      (start.add (Cell.ofWhole n)).map fun next => [Group.ofAll next] := by
  show (Group.ofAll start).add [.ok (Cell.ofWhole n)] >>= _ = _
  rw [Group.add_ofAll]
  cases start.add (Cell.ofWhole n) <;> rfl

theorem foldlM_addRow (start a : Accumulator) (c : List (Option (Whole .int64))) :
    (c.map keylessRow).foldlM (addRow [start]) [Group.ofAll a] =
      (a.addAll (List.reduceOption c)).map fun last => [Group.ofAll last] := by
  induction c generalizing a with
  | nil => rfl
  | cons n c ih =>
      rw [List.map_cons, List.foldlM_cons, addRow_keylessRow, Accumulator.addAll_reduceOption_cons]
      cases a.add (Cell.ofWhole n) with
      | error e => rfl
      | ok next => exact ih next

theorem foldlM_addRow_nil (start : Accumulator) {c : List (Option (Whole .int64))} (hne : c ≠ []) :
    (c.map keylessRow).foldlM (addRow [start]) [] =
      (start.addAll (List.reduceOption c)).map fun last => [Group.ofAll last] := by
  obtain ⟨n, c, rfl⟩ := List.exists_cons_of_ne_nil hne
  rw [List.map_cons, List.foldlM_cons, addRow_keylessRow_nil, Accumulator.addAll_reduceOption_cons]
  cases start.add (Cell.ofWhole n) with
  | error e => rfl
  | ok next => exact foldlM_addRow start next c

variable {e : Compiled s .int64} {rows : Batch s} {c : Column .int64}

theorem zipWith_replicate_length {α β γ : Type} (f : α → β → γ) (a : α) (l : List β) :
    List.zipWith f (List.replicate l.length a) l = l.map (f a) := by
  induction l with
  | nil => rfl
  | cons b l ih => exact congrArg (List.cons (f a b)) ih

theorem evalCells_single (h : e.eval rows = .ok c) :
    evalCells [⟨.int64, e⟩] rows = .ok (c.map fun n => [Cell.read n]) := by
  have hlength : rows.length = (c.map Cell.read).length := by
    rw [List.length_map, e.rowwise_eval.length h]
  have hcolumns : [(⟨.int64, e⟩ : AnyCompiled s)].mapM (fun e => do
      return (← e.2.eval rows).map Cell.read) = (.ok [c.map Cell.read] : Outcome _) := by
    rw [List.mapM_cons, h]
    rfl
  rw [evalCells, hcolumns]
  refine congrArg Except.ok ?_
  show List.zipWith List.cons (c.map Cell.read) (List.replicate rows.length []) = _
  rw [hlength, List.zipWith_comm, zipWith_replicate_length, List.map_map]
  rfl

theorem addBatch_keyless (h : e.eval rows = .ok c) (fn : AggregateFn) (name : String)
    (groups : List Group) :
    addBatch [] [⟨fn, name, ⟨.int64, e⟩⟩] groups rows =
      (c.map keylessRow).foldlM (addRow [Measure.start ⟨fn, name, ⟨.int64, e⟩⟩]) groups := by
  have hargs : evalCells (List.map (·.arg) [(⟨fn, name, ⟨.int64, e⟩⟩ : Measure s)]) rows =
      .ok (c.map fun n => [Cell.read n]) := evalCells_single h
  have hrows : (List.replicate rows.length []).zip (c.map fun n => [Cell.read n]) =
      c.map keylessRow := by
    have hlength : rows.length = (c.map fun n => [Cell.read n]).length := by
      rw [List.length_map, e.rowwise_eval.length h]
    rw [hlength, List.zip_eq_zipWith, zipWith_replicate_length, List.map_map]
    exact List.map_congr_left fun n _ => congrArg (fun x => ([], [x])) (read_integer n)
  rw [addBatch, hargs]
  show List.foldlM _ groups ((List.replicate rows.length []).zip _) = _
  rw [hrows]
  rfl

theorem narrow_ofWhole (n : Option (Whole .int64)) :
    Cell.narrow .int64 (Cell.ofWhole n) = .ok (n : DataType.int64.Entry) := by
  cases n with
  | none => rfl
  | some n => exact congrArg Except.ok n.ofInt?_val

theorem build_ofWhole (c : List (Option (Whole .int64))) :
    Cell.build .int64 (c.map Cell.ofWhole) = .ok (c : Column .int64) := by
  show (c.map Cell.ofWhole).mapM (Cell.narrow .int64) = _
  induction c with
  | nil => rfl
  | cons n c ih =>
      rw [List.map_cons, List.mapM_cons, narrow_ofWhole, ih]
      rfl

theorem Measure.field_eq {m : Measure s} (ht : m.type = .int64) :
    m.field = ⟨m.name, .int64, true⟩ := by
  rw [field, ht]

theorem measureColumns_ofAll {m : Measure s} (ht : m.type = .int64) {a : Accumulator}
    {found : Option (Whole .int64)} (ha : a.result = Cell.ofWhole found) :
    measureColumns [m] [Group.ofAll a] = [(⟨m.name, .int64, true⟩, [Cell.ofWhole found])] := by
  show [(m.field, [a.result])] = _
  rw [ha, Measure.field_eq ht]

theorem groupsToRelation_ofAll (name : String) (a : Accumulator) (found : Option (Whole .int64)) :
    groupsToRelation [(⟨name, .int64, true⟩, [Cell.ofWhole found])] [Group.ofAll a] =
      .ok ⟨[⟨name, .int64, true⟩], [[.cons (f := ⟨name, .int64, true⟩) found .nil]]⟩ := by
  have hbatch : Batch.ofCells 1 [(⟨name, .int64, true⟩, [Cell.ofWhole found])] =
      .ok [.cons (f := ⟨name, .int64, true⟩) found .nil] := by
    show Cell.build .int64 ([found].map Cell.ofWhole) >>= _ = _
    rw [build_ofWhole]
    rfl
  have hcheck : Batch.check (s := [⟨name, .int64, true⟩]) .aggregate [.cons found .nil] =
      .ok [.cons found .nil] :=
    Batch.check_of_nullable (by simp) (List.forall_mem_singleton.mpr rfl) _
  exact bind_eq_ok.mpr ⟨_, hbatch, bind_eq_ok.mpr ⟨_, hcheck, rfl⟩⟩

theorem measureColumns_nil {m : Measure s} (ht : m.type = .int64) :
    measureColumns [m] [] = [(⟨m.name, .int64, true⟩, [])] := by
  show [(m.field, [])] = _
  rw [Measure.field_eq ht]

/-- All rows, gathered without keys. -/
def Measure.ofAll (m : Measure s) (c : List (Option (Whole .int64))) : Outcome Relation := do
  let groups ← (c.map keylessRow).foldlM (addRow [m.start]) []
  groupsToRelation (measureColumns [m] groups) groups

theorem Measure.gathersAs_ofAll {m : Measure s} (hfn : m.fn.IsIntegral) (ht : m.type = .int64)
    (c : List (Option (Whole .int64))) :
    m.fn.GathersAs m.name (c.map (Option.map Subtype.val)) (m.ofAll c) := by
  obtain ⟨hexact, hoverflow⟩ := m.addAll_start hfn ht c.reduceOption
  rw [← reduceOption_map_val] at hexact hoverflow
  rw [Measure.ofAll]
  cases c with
  | nil =>
      constructor
      · intro _
        refine ⟨⟨[⟨m.name, .int64, true⟩], []⟩, none, ?_, rfl, ?_⟩
        · refine bind_eq_ok.mpr ⟨[], rfl, ?_⟩
          rw [measureColumns_nil ht]
          rfl
        · rcases hfn with hfn | hfn | hfn <;> rw [hfn] <;> rfl
      · rintro ⟨-, first, hfirst, hnot⟩
        obtain rfl := List.prefix_nil.mp hfirst
        exact absurd (Whole.zero .int64).property hnot
  | cons n c =>
      rw [foldlM_addRow_nil _ (List.cons_ne_nil n c)]
      constructor
      · intro hstays
        obtain ⟨a, found, ha, hresult, hfound⟩ := hexact hstays
        rw [ha]
        have hout : groupsToRelation (measureColumns [m] [Group.ofAll a]) [Group.ofAll a] = _ :=
          (measureColumns_ofAll ht hresult).symm ▸ groupsToRelation_ofAll m.name a found
        exact ⟨_, found, bind_eq_ok.mpr ⟨_, rfl, hout⟩, rfl, hfound⟩
      · intro hover
        rw [hoverflow hover]
        exact ⟨_, rfl⟩

theorem mapM_compileMeasure {arg : Expr} {b : ScalarBindings}
    (harg : arg.compile s b = .ok ⟨.int64, e⟩) {fn : AggregateFn} {name : String} :
    [(⟨⟨fn, arg⟩, name⟩ : Named Aggregate)].mapM (compileMeasure s b) =
      .ok [⟨fn, name, ⟨.int64, e⟩⟩] := by
  rw [List.mapM_cons, compileMeasure, harg]
  rfl

theorem aggregateRelation_keyless {arg : Expr} {b : ScalarBindings}
    (harg : arg.compile s b = .ok ⟨.int64, e⟩) (hrows : e.eval rows = .ok c) (fn : AggregateFn)
    (name : String) :
    aggregateRelation ⟨s, [rows]⟩ [] [⟨⟨fn, arg⟩, name⟩] b =
      Measure.ofAll ⟨fn, name, ⟨.int64, e⟩⟩ c := by
  show ([(⟨⟨fn, arg⟩, name⟩ : Named Aggregate)].mapM (compileMeasure s b) >>= fun measures =>
    [rows].foldlM (addBatch [] measures) [] >>= fun groups =>
      groupsToRelation (measureColumns measures groups) groups) = _
  rw [mapM_compileMeasure harg]
  show ([rows].foldlM (addBatch [] [⟨fn, name, ⟨.int64, e⟩⟩]) [] >>= _) = _
  rw [List.foldlM_cons, addBatch_keyless hrows, bind_assoc]
  rfl

theorem aggregateRelation_no_batches {arg : Expr} {b : ScalarBindings}
    (harg : arg.compile s b = .ok ⟨.int64, e⟩) (fn : AggregateFn) (name : String) :
    aggregateRelation ⟨s, []⟩ [] [⟨⟨fn, arg⟩, name⟩] b =
      Measure.ofAll ⟨fn, name, ⟨.int64, e⟩⟩ [] := by
  show ([(⟨⟨fn, arg⟩, name⟩ : Named Aggregate)].mapM (compileMeasure s b) >>= fun measures =>
    groupsToRelation (measureColumns measures []) []) = _
  rw [mapM_compileMeasure harg]
  rfl

theorem Compiled.declared_eq {t : DataType} (x : Compiled s t) (ht : ∀ k, t ≠ .duration k) :
    x.declared = t := by
  induction x with
  | @arith a b op l r ihl ihr =>
      have hresult : op.resultType a b = a := by
        unfold Arithmetic.resultType at ht ⊢
        split
        · exact absurd rfl (ht _)
        · exact absurd rfl (ht _)
        · rfl
      show l.declared = op.resultType a b
      rw [hresult] at ht ⊢
      exact ihl ht
  | _ => rfl

theorem Measure.type_of_isIntegral {fn : AggregateFn} (hfn : fn.IsIntegral) (name : String)
    (e : Compiled s .int64) : Measure.type ⟨fn, name, ⟨_, e⟩⟩ = .int64 := by
  have hdeclared := e.declared_eq (by simp)
  rcases hfn with rfl | rfl | rfl <;> exact hdeclared

theorem gathersAs_aggregateRelation {r : Relation} {arg : Expr} {b : ScalarBindings}
    {c : Column .int64} (h : arg.values r.schema b r.rows = .ok ⟨.int64, c⟩) {fn : AggregateFn}
    (hfn : fn.IsIntegral) (name : String) :
    fn.GathersAs name (List.map (Option.map Subtype.val) c)
      (aggregateRelation r [] [⟨⟨fn, arg⟩, name⟩] b) := by
  obtain ⟨s, batches⟩ := r
  change arg.values s b batches.flatten = _ at h
  obtain ⟨⟨t, e⟩, harg, hvalues⟩ := bind_eq_ok.mp h
  obtain ⟨column, hrows, hsame⟩ := bind_eq_ok.mp hvalues
  cases hsame
  have hall := Measure.gathersAs_ofAll (m := ⟨fn, name, ⟨.int64, e⟩⟩) hfn
    (Measure.type_of_isIntegral hfn name e) c
  by_cases hne : batches = []
  · subst hne
    obtain rfl : c = [] := List.length_eq_zero_iff.mp (e.rowwise_eval.length hrows)
    rw [aggregateRelation_no_batches harg]
    exact hall
  · have halike := alike_aggregateRelation_flatten hne [] [⟨⟨fn, arg⟩, name⟩] b
    rw [aggregateRelation_keyless harg hrows] at halike
    exact hall.congr halike

end Ungrouped

end RelScript
