import RelScript.Proofs.Execution.IntegerGathering
import RelScript.Proofs.Execution.TypedGroups

/-!
Aggregates of cells. What an accumulator comes to for the cells of one group is what the function
defines: a number of cells, an exact sum, the least or the greatest cell, an average. Integers whose
first parts sum up past their range are the one failure, besides a count that is itself too great.
-/

namespace RelScript

namespace Cell

/-- The cells that hold a value, in order. -/
def present (cells : List Cell) : List Cell := cells.filter fun c => !c.isMissing

/-- The integer that a cell holds. -/
def toInt? : Cell → Option Int
  | int n => some n.val
  | _ => none

/-- The integers in some cells, in order. -/
def ints (cells : List Cell) : List Int := cells.filterMap toInt?

/-- The sum of the numbers in some cells as doubles, rounded after every step. -/
def doubleSum (cells : List Cell) : Ieee.Bits .double :=
  (cells.filterMap toDouble?).foldl Ieee.Bits.add (Ieee.zero .double false)

end Cell

namespace AggregateFn

/-- Whether analysis gives the function arguments of the type. -/
def Takes (fn : AggregateFn) (t : DataType) : Prop :=
  fn = .count ∨ ∃ argument, accumulatorType? fn argument = some t

/-- The type of the function's results for arguments of the type. -/
def resultType : AggregateFn → DataType → DataType
  | .count, _ => .int64
  | .avg, _ => .float64
  | .sum, t | .min, t | .max, t => t

/-- Whether the function has no result for cells of the type: the first integers of a sum leave the
range of sums, or there are more values to count than the range of counts holds. -/
def Fails (fn : AggregateFn) (t : DataType) (cells : List Cell) : Prop :=
  (fn = .sum ∧ t = .int64 ∧
    ∃ first, first <+: Cell.ints cells ∧ ¬ IntKind.int64.Holds first.sum) ∨
  fn = .count ∧ ¬ IntKind.int64.Holds (Cell.present cells).length

/-- What the function defines for cells of the type. -/
def Gives (fn : AggregateFn) (t : DataType) (cells : List Cell) (result : Cell) : Prop :=
  match fn, Cell.present cells with
  | .count, found => ∃ n : Whole .int64, result = .int n ∧ n.val = found.length
  | _, [] => result = .missing
  | .sum, _ =>
    if t = .int64 then ∃ n : Whole .int64, result = .int n ∧ n.val = (Cell.ints cells).sum
    else result = .float (Cell.doubleSum cells)
  | .min, found => result ∈ found ∧ ∀ c ∈ found, ∃ o, result.compare c = .ok o ∧ o ≠ .gt
  | .max, found => result ∈ found ∧ ∀ c ∈ found, ∃ o, result.compare c = .ok o ∧ o ≠ .lt
  | .avg, found =>
    result = .float ((Cell.doubleSum cells).div (Ieee.ofInt .double found.length))

/-- What gathering some cells of the type comes to. -/
structure ComesTo (fn : AggregateFn) (t : DataType) (cells : List Cell) (result : Outcome Cell) :
    Prop where
  fails_iff : (∃ e, result = .error e) ↔ fn.Fails t cells
  gives : ∀ c, result = .ok c → fn.Gives t cells c

theorem gives_missing {fn : AggregateFn} {t : DataType} {cells : List Cell} (hfn : fn ≠ .count)
    (h : Cell.present cells = []) : fn.Gives t cells .missing := by
  unfold Gives
  rw [h]
  cases fn with
  | count => exact absurd rfl hfn
  | _ => rfl

theorem comesTo_ok {fn : AggregateFn} {t : DataType} {cells : List Cell} {c : Cell}
    (hfails : ¬ fn.Fails t cells) (h : fn.Gives t cells c) : fn.ComesTo t cells (.ok c) := by
  constructor
  · exact iff_of_false (by rintro ⟨e, he⟩; cases he) hfails
  · rintro _ ⟨⟩
    exact h

end AggregateFn

namespace Cell

theorem filterMap_present {α : Type} {f : Cell → Option α} (hf : f missing = none)
    (cells : List Cell) : (present cells).filterMap f = cells.filterMap f := by
  rw [present, List.filterMap_filter]
  refine List.filterMap_congr fun c _ => ?_
  cases c with
  | missing => simp [isMissing, hf]
  | _ => rfl

theorem present_eq_map {α : Type} {make : α → Cell} {cells : List Cell}
    (h : ∀ c ∈ cells, c.isMissing = false → ∃ a, make a = c) :
    ∃ as : List α, present cells = as.map make := by
  have hpresent : ∀ c ∈ present cells, ∃ a, make a = c := by
    intro c hc
    obtain ⟨hmem, hfound⟩ := List.mem_filter.mp hc
    exact h c hmem (by simpa using hfound)
  obtain ⟨as, has⟩ := exists_forall₂ hpresent
  refine ⟨as, ?_⟩
  rw [← List.forall₂_eq_eq_eq, List.forall₂_map_right_iff]
  exact has.imp fun _ _ => Eq.symm

theorem present_int64 {cells : List Cell} (h : ∀ c ∈ cells, c.Fits .int64) :
    ∃ ns : List (Whole .int64), present cells = ns.map int := by
  refine present_eq_map fun c hc hfound => ?_
  have hfits := h c hc
  cases c with
  | int n => exact ⟨n, rfl⟩
  | missing => cases hfound
  | _ => exact hfits.elim

theorem present_float64 {cells : List Cell} (h : ∀ c ∈ cells, c.Fits .float64) :
    ∃ xs : List (Ieee.Bits .double), present cells = xs.map float := by
  refine present_eq_map fun c hc hfound => ?_
  have hfits := h c hc
  cases c with
  | float x => exact ⟨x, rfl⟩
  | missing => cases hfound
  | _ => exact hfits.elim

theorem present_utf8 {cells : List Cell} (h : ∀ c ∈ cells, c.Fits .utf8) :
    ∃ ss : List String, present cells = ss.map text := by
  refine present_eq_map fun c hc hfound => ?_
  have hfits := h c hc
  cases c with
  | text s => exact ⟨s, rfl⟩
  | missing => cases hfound
  | _ => exact hfits.elim

theorem length_filterMap_toDouble? {t : DataType} (ht : t = .int64 ∨ t = .float64)
    {cells : List Cell} (h : ∀ c ∈ cells, c.Fits t) :
    ((present cells).filterMap toDouble?).length = (present cells).length := by
  rw [List.filterMap_length_eq_length]
  intro c hc
  obtain ⟨hmem, hfound⟩ := List.mem_filter.mp hc
  have hfits := h c hmem
  cases c with
  | int _ | float _ => rfl
  | missing => cases hfound
  | _ => rcases ht with rfl | rfl <;> exact hfits.elim

theorem exists_ranked {t : DataType} (ht : t = .int64 ∨ t = .float64 ∨ t = .utf8)
    {cells : List Cell} (h : ∀ c ∈ cells, c.Fits t) :
    ∃ (α β : Type) (_ : LinearOrder β) (make : α → Cell) (rank : α → β) (as : List α),
      present cells = as.map make ∧
        ∀ a b, (make a).compare (make b) = .ok (Ord.compare (rank a) (rank b)) := by
  rcases ht with rfl | rfl | rfl
  · obtain ⟨ns, hns⟩ := present_int64 h
    exact ⟨_, Int, inferInstance, int, Subtype.val, ns, hns, fun _ _ => rfl⟩
  · obtain ⟨xs, hxs⟩ := present_float64 h
    exact ⟨_, Int, inferInstance, float, Ieee.Bits.rank, xs, hxs, fun _ _ => rfl⟩
  · obtain ⟨ss, hss⟩ := present_utf8 h
    exact ⟨_, String, inferInstance, text, id, ss, hss, fun _ _ => rfl⟩

theorem comesBack_of_fits {t : DataType} (ht : t = .int64 ∨ t = .float64 ∨ t = .utf8) {c : Cell}
    (h : c.Fits t) : c.ComesBack t := by
  cases c with
  | missing => exact comesBack_missing t
  | int n =>
      rcases ht with rfl | rfl | rfl
      · exact comesBack_of_read rfl (read_integer (some n))
      · exact h.elim
      · exact h.elim
  | float x =>
      rcases ht with rfl | rfl | rfl
      · exact h.elim
      · exact ⟨some x, congrArg (Except.ok ∘ some) x.convert_self,
          congrArg (Except.ok ∘ float) x.convert_self⟩
      · exact h.elim
  | text s =>
      rcases ht with rfl | rfl | rfl
      · exact h.elim
      · exact h.elim
      · exact ⟨some s, rfl, rfl⟩
  | bytes _ | boolean _ => rcases ht with rfl | rfl | rfl <;> exact h.elim

end Cell

namespace Accumulator

/-- Takes some cells in, one after the other. -/
def addCells (a : Accumulator) (cells : List Cell) : Outcome Accumulator :=
  cells.foldlM (fun a c => a.add c) a

/-- Takes some values in, one after the other. -/
def addValues (a : Accumulator) (values : List Cell) : Outcome Accumulator :=
  values.foldlM (fun a v => a.addValue v) a

theorem addValues_cons (a : Accumulator) (v : Cell) (values : List Cell) :
    a.addValues (v :: values) = a.addValue v >>= fun next => next.addValues values :=
  List.foldlM_cons

theorem addCells_eq (a : Accumulator) (cells : List Cell) :
    a.addCells cells = a.addValues (Cell.present cells) := by
  induction cells generalizing a with
  | nil => rfl
  | cons c cells ih =>
      have hcons : a.addCells (c :: cells) = a.add c >>= fun next => next.addCells cells :=
        List.foldlM_cons
      rw [hcons]
      cases hc : c.isMissing with
      | true =>
          have hpresent : Cell.present (c :: cells) = Cell.present cells := by
            simp [Cell.present, hc]
          rw [add, hc, if_pos rfl, hpresent]
          exact ih a
      | false =>
          have hpresent : Cell.present (c :: cells) = c :: Cell.present cells := by
            simp [Cell.present, hc]
          rw [add, hc, if_neg Bool.false_ne_true, hpresent, addValues_cons]
          exact bind_congr fun next => ih next

theorem addValues_count (values : List Cell) (n : Whole .int64) :
    (count n).addValues values = match Whole.ofInt? .int64 (n.val + values.length) with
      | some last => .ok (count last)
      | none => .error (.execution .countOverflow) := by
  induction values generalizing n with
  | nil =>
      rw [List.length_nil, Nat.cast_zero, add_zero, n.ofInt?_val]
      rfl
  | cons v values ih =>
      have hlast : n.val + (v :: values).length = n.val + 1 + values.length := by
        rw [List.length_cons, Nat.cast_succ, add_assoc, add_comm (values.length : Int)]
      rw [addValues_cons, addValue, hlast]
      by_cases hnext : IntKind.int64.Holds (n.val + 1)
      · rw [Whole.ofInt?_of_holds hnext]
        exact ih ⟨_, hnext⟩
      · -- A count that is past the range does not come back into it.
        have hpast : ¬ IntKind.int64.Holds (n.val + 1 + values.length) := by
          rintro ⟨-, hlast⟩
          have hfirst := n.property.1
          exact hnext ⟨by omega, by omega⟩
        have hnone : Whole.ofInt? .int64 (n.val + 1) = none := dif_neg hnext
        have hnone' : Whole.ofInt? .int64 (n.val + 1 + values.length) = none := dif_neg hpast
        rw [hnone, hnone']
        rfl

theorem addValues_int (a : Accumulator) (ns : List (Whole .int64)) :
    a.addValues (ns.map .int) = a.addAll ns := List.foldlM_map

theorem addValues_sumFloat (xs : List (Ieee.Bits .double)) (total : Ieee.Bits .double) :
    (sumFloat (some total)).addValues (xs.map .float) =
      .ok (sumFloat (some (xs.foldl Ieee.Bits.add total))) := by
  induction xs generalizing total with
  | nil => rfl
  | cons x xs ih => exact ih (total.add x)

theorem addValues_average (values : List Cell) (total : Ieee.Bits .double) (n : Nat) :
    (average total n).addValues values =
      .ok (average ((values.filterMap Cell.toDouble?).foldl Ieee.Bits.add total)
        (n + (values.filterMap Cell.toDouble?).length)) := by
  induction values generalizing total n with
  | nil => rfl
  | cons v values ih =>
      rw [addValues_cons, addValue]
      cases hv : v.toDouble? with
      | none =>
          rw [List.filterMap_cons_none hv]
          exact ih total n
      | some x =>
          rw [List.filterMap_cons_some hv, List.length_cons, ← Nat.add_assoc, Nat.add_right_comm]
          exact ih (total.add x) (n + 1)

section Extremes

variable {α β : Type} [LinearOrder β] {make : α → Cell} {rank : α → β}

/-- An accumulator that keeps a cell until one comes that ranks below it ends with a cell that none
ranks below. -/
theorem exists_pick {pick : Option Cell → Accumulator}
    (hstep : ∀ m a, (pick (some (make m))).addValue (make a) =
      .ok (pick (some (make (if rank a < rank m then a else m))))) (as : List α) (m : α) :
    ∃ last ∈ m :: as, (pick (some (make m))).addValues (as.map make) =
      .ok (pick (some (make last))) ∧ ∀ a ∈ m :: as, rank last ≤ rank a := by
  induction as generalizing m with
  | nil => exact ⟨m, List.mem_cons_self, rfl, by simp⟩
  | cons a as ih =>
      obtain ⟨last, hmem, hlast, hleast⟩ := ih (if rank a < rank m then a else m)
      obtain ⟨hkept, hrest⟩ := List.forall_mem_cons.mp hleast
      have hboth : rank last ≤ rank m ∧ rank last ≤ rank a := by
        split at hkept
        · rename_i hlt
          exact ⟨hkept.trans hlt.le, hkept⟩
        · rename_i hlt
          exact ⟨hkept, hkept.trans (not_lt.mp hlt)⟩
      refine ⟨last, ?_, ?_, ?_⟩
      · rcases List.mem_cons.mp hmem with rfl | hmem
        · split <;> simp
        · exact List.mem_cons_of_mem _ (List.mem_cons_of_mem _ hmem)
      · rw [List.map_cons, addValues_cons, hstep]
        exact hlast
      · exact List.forall_mem_cons.mpr ⟨hboth.1, List.forall_mem_cons.mpr ⟨hboth.2, hrest⟩⟩

variable (hcompare : ∀ a b, (make a).compare (make b) = .ok (Ord.compare (rank a) (rank b)))
include hcompare

theorem exists_least (a : α) (as : List α) :
    ∃ found, (least none).addValues ((a :: as).map make) = .ok (least (some found)) ∧
      found ∈ (a :: as).map make ∧
        ∀ c ∈ (a :: as).map make, ∃ o, found.compare c = .ok o ∧ o ≠ .gt := by
  have hstep : ∀ m a, (least (some (make m))).addValue (make a) =
      .ok (least (some (make (if rank a < rank m then a else m)))) := by
    intro m a
    rw [addValue, hcompare]
    show Except.ok (least (some
      (if Ord.compare (rank a) (rank m) = .lt then make a else make m))) = _
    rw [apply_ite make]
    simp only [compare_lt_iff_lt]
  obtain ⟨last, hmem, hlast, hleast⟩ := exists_pick hstep as a
  refine ⟨make last, hlast, List.mem_map_of_mem hmem, ?_⟩
  rw [List.forall_mem_map]
  exact fun b hb => ⟨_, hcompare last b, compare_le_iff_le.mpr (hleast b hb)⟩

theorem exists_greatest (a : α) (as : List α) :
    ∃ found, (greatest none).addValues ((a :: as).map make) = .ok (greatest (some found)) ∧
      found ∈ (a :: as).map make ∧
        ∀ c ∈ (a :: as).map make, ∃ o, found.compare c = .ok o ∧ o ≠ .lt := by
  have hstep : ∀ m a, (greatest (some (make m))).addValue (make a) = .ok (greatest (some
      (make (if OrderDual.toDual (rank a) < OrderDual.toDual (rank m) then a else m)))) := by
    intro m a
    rw [addValue, hcompare]
    show Except.ok (greatest (some
      (if Ord.compare (rank a) (rank m) = .gt then make a else make m))) = _
    rw [apply_ite make]
    simp only [compare_gt_iff_gt, OrderDual.toDual_lt_toDual]
  obtain ⟨last, hmem, hlast, hleast⟩ := exists_pick hstep as a
  refine ⟨make last, hlast, List.mem_map_of_mem hmem, ?_⟩
  rw [List.forall_mem_map]
  exact fun b hb => ⟨_, hcompare last b, compare_ge_iff_ge.mpr (hleast b hb)⟩

end Extremes

section Results

variable {t : DataType} {cells : List Cell}

theorem comesTo_count (t : DataType) (cells : List Cell) :
    AggregateFn.ComesTo .count t cells
      (((count (Whole.zero _)).addCells cells).map result) := by
  have hzero : (Whole.zero .int64).val = 0 := rfl
  rw [addCells_eq, addValues_count, hzero, zero_add]
  by_cases hholds : IntKind.int64.Holds (Cell.present cells).length
  · rw [Whole.ofInt?_of_holds hholds]
    refine AggregateFn.comesTo_ok (by simp [AggregateFn.Fails, hholds]) ?_
    rw [AggregateFn.Gives]
    exact ⟨_, rfl, rfl⟩
  · have hnone : Whole.ofInt? .int64 (Cell.present cells).length = none := dif_neg hholds
    rw [hnone]
    constructor
    · exact iff_of_true ⟨_, rfl⟩ (.inr ⟨rfl, hholds⟩)
    · rintro c ⟨⟩

theorem comesTo_sumInt (h : ∀ c ∈ cells, c.Fits .int64) :
    AggregateFn.ComesTo .sum .int64 cells (((sumInt none).addCells cells).map result) := by
  obtain ⟨ns, hns⟩ := Cell.present_int64 h
  have hints : Cell.ints cells = ns.map Subtype.val := by
    rw [Cell.ints, ← Cell.filterMap_present rfl, hns, List.filterMap_map]
    exact congrFun List.filterMap_eq_map ns
  rw [addCells_eq, hns, addValues_int]
  by_cases hover : ∃ first, first <+: Cell.ints cells ∧ ¬ IntKind.int64.Holds first.sum
  · rw [addAll_sumInt_of_not ns none (by simpa [soFar_none, ← hints] using hover)]
    constructor
    · exact iff_of_true ⟨_, rfl⟩ (.inl ⟨rfl, rfl, hover⟩)
    · rintro c ⟨⟩
  · obtain ⟨last, hlast, hsum⟩ := addAll_sumInt ns none fun first hfirst => by
      rw [soFar_none, zero_add]
      by_contra hnot
      exact hover ⟨first, hints ▸ hfirst, hnot⟩
    rw [hlast]
    refine AggregateFn.comesTo_ok (by simp [AggregateFn.Fails, hover]) ?_
    rw [soFar_none, zero_add, ← hints] at hsum
    cases ns with
    | nil =>
        obtain rfl : last = none := Option.map_eq_none_iff.mp hsum
        exact AggregateFn.gives_missing (by simp) hns
    | cons n ns =>
        obtain ⟨n, rfl, hn⟩ := Option.map_eq_some_iff.mp hsum
        unfold AggregateFn.Gives
        rw [hns]
        exact ⟨n, rfl, hn⟩

theorem comesTo_sumFloat (h : ∀ c ∈ cells, c.Fits .float64) :
    AggregateFn.ComesTo .sum .float64 cells (((sumFloat none).addCells cells).map result) := by
  obtain ⟨xs, hxs⟩ := Cell.present_float64 h
  have hsum : Cell.doubleSum cells = xs.foldl Ieee.Bits.add (Ieee.zero .double false) := by
    rw [Cell.doubleSum, ← Cell.filterMap_present rfl, hxs, List.filterMap_map]
    exact congrArg (List.foldl _ _) (List.filterMap_some)
  rw [addCells_eq, hxs]
  cases xs with
  | nil =>
      exact AggregateFn.comesTo_ok (by simp [AggregateFn.Fails])
        (AggregateFn.gives_missing (by simp) hxs)
  | cons x xs =>
      have hlast : (sumFloat none).addValues ((x :: xs).map .float) =
          .ok (sumFloat (some (Cell.doubleSum cells))) := by
        rw [hsum, List.map_cons, addValues_cons]
        exact addValues_sumFloat xs ((Ieee.zero .double false).add x)
      rw [hlast]
      refine AggregateFn.comesTo_ok (by simp [AggregateFn.Fails]) ?_
      unfold AggregateFn.Gives
      rw [hxs]
      exact (if_neg (by decide)).mpr rfl

theorem comesTo_average (ht : t = .int64 ∨ t = .float64) (h : ∀ c ∈ cells, c.Fits t) :
    AggregateFn.ComesTo .avg t cells
      (((average (Ieee.zero .double false) 0).addCells cells).map result) := by
  have hcount := Cell.length_filterMap_toDouble? ht h
  have hresult : ((average (Ieee.zero .double false) 0).addCells cells).map result =
      .ok (average (Cell.doubleSum cells) (Cell.present cells).length).result := by
    rw [addCells_eq, addValues_average, Nat.zero_add, hcount, Cell.filterMap_present rfl]
    rfl
  rw [hresult, result]
  refine AggregateFn.comesTo_ok (by simp [AggregateFn.Fails]) ?_
  by_cases hnone : Cell.present cells = []
  · rw [if_pos (List.length_eq_zero_iff.mpr hnone)]
    exact AggregateFn.gives_missing (by simp) hnone
  · rw [if_neg (mt List.length_eq_zero_iff.mp hnone)]
    unfold AggregateFn.Gives
    cases hpresent : Cell.present cells with
    | nil => exact absurd hpresent hnone
    | cons c found => rfl

theorem comesTo_least (ht : t = .int64 ∨ t = .float64 ∨ t = .utf8) (h : ∀ c ∈ cells, c.Fits t) :
    AggregateFn.ComesTo .min t cells (((least none).addCells cells).map result) := by
  obtain ⟨α, β, _, make, rank, as, has, hcompare⟩ := Cell.exists_ranked ht h
  rw [addCells_eq, has]
  cases as with
  | nil =>
      exact AggregateFn.comesTo_ok (by simp [AggregateFn.Fails])
        (AggregateFn.gives_missing (by simp) has)
  | cons a as =>
      obtain ⟨found, hfound, hmem, hleast⟩ := exists_least hcompare a as
      rw [hfound]
      refine AggregateFn.comesTo_ok (by simp [AggregateFn.Fails]) ?_
      unfold AggregateFn.Gives
      rw [has]
      exact ⟨hmem, hleast⟩

theorem comesTo_greatest (ht : t = .int64 ∨ t = .float64 ∨ t = .utf8)
    (h : ∀ c ∈ cells, c.Fits t) :
    AggregateFn.ComesTo .max t cells (((greatest none).addCells cells).map result) := by
  obtain ⟨α, β, _, make, rank, as, has, hcompare⟩ := Cell.exists_ranked ht h
  rw [addCells_eq, has]
  cases as with
  | nil =>
      exact AggregateFn.comesTo_ok (by simp [AggregateFn.Fails])
        (AggregateFn.gives_missing (by simp) has)
  | cons a as =>
      obtain ⟨found, hfound, hmem, hgreatest⟩ := exists_greatest hcompare a as
      rw [hfound]
      refine AggregateFn.comesTo_ok (by simp [AggregateFn.Fails]) ?_
      unfold AggregateFn.Gives
      rw [has]
      exact ⟨hmem, hgreatest⟩

end Results

end Accumulator

namespace AggregateFn

variable {fn : AggregateFn} {t : DataType}

theorem Takes.cases (h : fn.Takes t) :
    fn = .count ∨ t = .int64 ∨ t = .float64 ∨ (fn = .min ∨ fn = .max) ∧ t = .utf8 := by
  rcases h with hcount | ⟨argument, h⟩
  · exact .inl hcount
  · exact .inr (accumulatorType?_eq_some h)

theorem Takes.compares (h : fn.Takes t) (hfn : fn ≠ .count) :
    t = .int64 ∨ t = .float64 ∨ t = .utf8 := by
  rcases h.cases with hcount | ht | ht | ⟨-, ht⟩
  · exact absurd hcount hfn
  · exact .inl ht
  · exact .inr (.inl ht)
  · exact .inr (.inr ht)

theorem Takes.resultType_cases (h : fn.Takes t) :
    fn.resultType t = .int64 ∨ fn.resultType t = .float64 ∨ fn.resultType t = .utf8 := by
  cases fn with
  | count => exact .inl rfl
  | avg => exact .inr (.inl rfl)
  | sum | min | max => exact h.compares (by simp)

theorem Takes.adds (h : fn.Takes t) (hfn : fn = .sum ∨ fn = .avg) : t = .int64 ∨ t = .float64 := by
  rcases h.cases with rfl | ht | ht | ⟨hextreme, -⟩
  · simp at hfn
  · exact .inl ht
  · exact .inr ht
  · rcases hfn with rfl | rfl <;> simp at hextreme

theorem Gives.fits {cells : List Cell} {c : Cell} (h : fn.Gives t cells c) (ht : fn.Takes t)
    (hcells : ∀ c ∈ cells, c.Fits t) : c.Fits (fn.resultType t) := by
  have hpresent : ∀ c ∈ Cell.present cells, c.Fits t := fun c hc =>
    hcells c (List.mem_of_mem_filter hc)
  unfold Gives at h
  split at h
  · obtain ⟨n, rfl, -⟩ := h
    trivial
  · subst h
    exact Cell.fits_missing _
  · rcases ht.adds (.inl rfl) with rfl | rfl
    · obtain ⟨n, rfl, -⟩ := h
      trivial
    · subst h
      trivial
  · exact hpresent c h.1
  · exact hpresent c h.1
  · subst h
    trivial

theorem Gives.comesBack {cells : List Cell} {c : Cell} (h : fn.Gives t cells c) (ht : fn.Takes t)
    (hcells : ∀ c ∈ cells, c.Fits t) : c.ComesBack (fn.resultType t) :=
  Cell.comesBack_of_fits ht.resultType_cases (h.fits ht hcells)

end AggregateFn

section Measures

variable {s : Schema} {m : Measure s}

theorem Measure.type_eq (h : m.fn.Takes m.arg.1) : m.type = m.fn.resultType m.arg.1 := by
  obtain ⟨fn, name, ⟨t, e⟩⟩ := m
  have hdeclared : fn ≠ .count → e.declared = t := by
    intro hfn
    refine e.declared_eq ?_
    rintro k rfl
    simpa using h.compares hfn
  cases fn with
  | count | avg => rfl
  | sum | min | max => exact hdeclared (by simp)

/-- What a measure gathers from cells of its argument's type is what its function defines. -/
theorem Measure.comesTo (h : m.fn.Takes m.arg.1) {cells : List Cell}
    (hcells : ∀ c ∈ cells, c.Fits m.arg.1) :
    m.fn.ComesTo m.arg.1 cells ((m.start.addCells cells).map Accumulator.result) := by
  have htype := Measure.type_eq h
  obtain ⟨fn, name, ⟨t, e⟩⟩ := m
  cases fn with
  | count => exact Accumulator.comesTo_count t cells
  | sum =>
      rw [Measure.start, htype]
      rcases h.adds (.inl rfl) with rfl | rfl
      · exact Accumulator.comesTo_sumInt hcells
      · exact Accumulator.comesTo_sumFloat hcells
  | min => exact Accumulator.comesTo_least (h.compares (by simp)) hcells
  | max => exact Accumulator.comesTo_greatest (h.compares (by simp)) hcells
  | avg => exact Accumulator.comesTo_average (h.adds (.inr rfl)) hcells

end Measures

end RelScript
