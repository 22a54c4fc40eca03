import RelScript.Proofs.Ieee.Widening
import RelScript.Proofs.Outcome
import RelScript.Proofs.Value.Cells
import RelScript.Value.Arithmetic

/-!
Division of two columns of one numeric type, row by row. A quotient is missing where an operand is,
and where the divisor is the zero of its type. An integer type has one zero. Of the two zeros of a
float type only the positive one counts: the order of bit patterns tells it from minus zero, so that
a quotient by minus zero is an infinity or no number.
-/

namespace RelScript

namespace Ieee

theorem number_zero (k : FloatKind) (negative : Bool) :
    (zero k.format negative).number = .finite negative 0 := by
  cases k <;> cases negative <;> decide

theorem ofInt_zero (f : Format) : ofInt f 0 = zero f false := by
  simp [ofInt, round, roundMagnitude, roundQuotient, zero]

theorem isNaN_zero (k : FloatKind) (negative : Bool) :
    (zero k.format negative).isNaN = false := by
  cases k <;> cases negative <;> decide

end Ieee

namespace Arithmetic

open Ieee

section Divisors

/-- The only value of a numeric type that counts as a divisor of zero. -/
def zeroDivisor : (t : DataType) → t.Entry
  | .integer k => some (Whole.zero k)
  | .float k => some (Ieee.zero k.format false)
  | _ => none

/-- A divisor, or a missing value in place of a zero. -/
def divisor {t : DataType} (y : t.Entry) : t.Entry := if y = zeroDivisor t then none else y

theorem convert_zero {t : DataType} (ht : t.isNumeric = true) :
    Column.convert ([some (Whole.zero .int64)] : Column .int64) t = .ok [zeroDivisor t] := by
  cases t with
  | integer k => cases k <;> rfl
  | float k =>
      show (Except.ok [some (Ieee.ofInt k.format 0)] : Except CastFault _) = _
      rw [Ieee.ofInt_zero]
      rfl
  | _ => cases ht

theorem divisors_eq {t : DataType} (ht : t.isNumeric = true) (c : Column t) :
    divisors t c = .ok (c.map divisor) := by
  rw [divisors, convert_zero ht]
  simp [bind, Except.bind, divisor, eq_comm]

theorem divisor_eq_none_iff {t : DataType} {y : t.Entry} :
    divisor y = none ↔ y = none ∨ y = zeroDivisor t := by
  rw [divisor]
  split <;> simp_all

theorem divisor_eq_some_iff {t : DataType} {y : t.Entry} {b : t.Carrier} :
    divisor y = some b ↔ y = some b ∧ y ≠ zeroDivisor t := by
  rw [divisor]
  split <;> simp_all

end Divisors

section Quotients

section Columns

variable {t : DataType} (ht : t.isNumeric = true)
  {f : t.Carrier → t.Carrier → Except ArithmeticFault (divide.resultType t t).Carrier}
  (hf : divide.onValues? t t = some f) (rows : List (t.Entry × t.Entry))

include ht hf

theorem column_divide :
    divide.column (rows.map Prod.fst : Column t) (rows.map Prod.snd : Column t) =
      (rows.mapM fun row => onEntries f row.1 (divisor row.2)).mapError
        (.execution <| .arithmetic ·) := by
  have hzip : List.zip (rows.map Prod.fst) ((rows.map Prod.snd).map divisor) =
      rows.map fun row => (row.1, divisor row.2) := by
    rw [List.map_map, List.zip_map']
    rfl
  rw [column, divisors_eq ht]
  show (divide.onColumns (rows.map Prod.fst) ((rows.map Prod.snd).map divisor)).mapError _ = _
  rw [onColumns, hf, hzip]
  refine congrArg (Except.mapError _) ?_
  show List.mapM _ (List.map _ rows) = _
  rw [List.mapM_map]
  rfl

theorem column_divide_eq_ok (q : Column (divide.resultType t t)) :
    divide.column (rows.map Prod.fst : Column t) (rows.map Prod.snd : Column t) = .ok q ↔
      List.Forall₂ (fun row z => onEntries f row.1 (divisor row.2) = .ok z) rows q := by
  rw [column_divide ht hf, mapError_eq_ok, mapM_eq_ok]

theorem exists_column_divide_iff :
    (∃ q, divide.column (rows.map Prod.fst : Column t) (rows.map Prod.snd : Column t) = .ok q) ↔
      ∀ row ∈ rows, ∃ z, onEntries f row.1 (divisor row.2) = .ok z := by
  simp only [column_divide ht hf, mapError_eq_ok]
  exact exists_mapM_eq_ok_iff

end Columns

/-- The quotient of a row of integers: cut off towards zero, unless there is nothing to divide. -/
structure IntegerQuotient {k : IntKind} (x y z : Option (Whole k)) : Prop where
  missing_iff : z = none ↔ x = none ∨ y = none ∨ y = some (Whole.zero k)
  truncates : ∀ a b c, x = some a → y = some b → z = some c → c.val = a.val.tdiv b.val

/-- The quotient of a row of floats. Only minus zero keeps a divisor of zero from being missing:
over it a number gives an infinity of the other sign, and zero gives no number. -/
structure FloatQuotient {k : FloatKind} (x y z : Option (Bits k.format)) : Prop where
  missing_iff : z = none ↔ x = none ∨ y = none ∨ y = some (zero k.format false)
  missingOverZero_iff : (z = none ↔ x = none ∨ y = none ∨ ∃ b, y = some b ∧ b.isZero = true) ↔
    x = none ∨ y ≠ some (zero k.format true)
  rounds : ∀ a b c, x = some a → y = some b → z = some c → c = a.div b
  overMinusZero : ∀ a, x = some a → y = some (zero k.format true) →
    z = some (if a.isNaN then a.quieted
      else if a.isZero then invalid k.format else infinity k.format !a.negative)

theorem least_eq (k : IntKind) : k.least = if k.signed then -k.greatest - 1 else 0 := by
  cases k <;> decide

/-- The least integer has no negative in its type; every other quotient is in range. -/
theorem holds_tdiv_iff {k : IntKind} {a b : Int} (ha : k.Holds a) (hb : k.Holds b) (hne : b ≠ 0) :
    k.Holds (a.tdiv b) ↔ ¬ (a = k.least ∧ b = -1) := by
  have hleast := least_eq k
  simp only [IntKind.Holds] at *
  by_cases hminus : b = -1
  · rw [hminus, Int.tdiv_neg, Int.tdiv_one]
    split at hleast <;> omega
  · have hle : (a.tdiv b).natAbs ≤ a.natAbs := Int.natAbs_tdiv_le_natAbs a b
    have hhalf : b ≠ 1 → (a.tdiv b).natAbs ≤ a.natAbs / 2 := by
      intro hone
      rw [Int.natAbs_tdiv]
      exact Nat.div_le_div_left (by omega) (by decide)
    have hone : b = 1 → a.tdiv b = a := by
      rintro rfl
      exact Int.tdiv_one a
    have hsign : 0 ≤ a → 0 ≤ b → 0 ≤ a.tdiv b := Int.tdiv_nonneg
    split at hleast <;> omega

theorem onEntries_eq_ok {a b c : DataType}
    {f : a.Carrier → b.Carrier → Except ArithmeticFault c.Carrier}
    {x : a.Entry} {y : b.Entry} {z : c.Entry} :
    onEntries f x y = .ok z ↔
      z = none ∧ (x = none ∨ y = none) ∨
        ∃ v w q, x = some v ∧ y = some w ∧ f v w = .ok q ∧ z = some q := by
  cases x with
  | none => simp [onEntries, eq_comm]
  | some v =>
      cases y with
      | none => simp [onEntries, eq_comm]
      | some w =>
          rw [onEntries, map_eq_ok]
          simp [eq_comm]

theorem checked_eq_ok {k : IntKind} {op : Arithmetic} {left right n : Int} {q : Whole k} :
    op.checked left right (Whole.ofInt? k n) = .ok q ↔ q.val = n := by
  rw [Whole.ofInt?]
  split
  · simp [checked, Subtype.ext_iff, eq_comm]
  · rename_i hnot
    simp only [checked, reduceCtorEq, false_iff]
    rintro rfl
    exact hnot q.property

theorem onEntries_divisor_eq_ok {t : DataType}
    {f : t.Carrier → t.Carrier → Except ArithmeticFault t.Carrier} {x y z : t.Entry} :
    onEntries f x (divisor y) = .ok z ↔
      (z = none ↔ x = none ∨ y = none ∨ y = zeroDivisor t) ∧
        ∀ a b c, x = some a → y = some b → z = some c → f a b = .ok c := by
  rw [onEntries_eq_ok, divisor_eq_none_iff]
  simp only [divisor_eq_some_iff]
  constructor
  · rintro (⟨rfl, hnone⟩ | ⟨a, b, c, rfl, ⟨rfl, hne⟩, hf, rfl⟩)
    · exact ⟨iff_of_true rfl hnone, by simp⟩
    · refine ⟨iff_of_false (by simp) (by simp [hne]), ?_⟩
      rintro _ _ _ ⟨⟩ ⟨⟩ ⟨⟩
      exact hf
  · rintro ⟨hmissing, hvalue⟩
    cases z with
    | none => exact Or.inl ⟨rfl, hmissing.mp rfl⟩
    | some c =>
        have hsome := hmissing.not.mp (by simp)
        rw [not_or, not_or] at hsome
        obtain ⟨a, rfl⟩ := Option.ne_none_iff_exists'.mp hsome.1
        obtain ⟨b, rfl⟩ := Option.ne_none_iff_exists'.mp hsome.2.1
        exact Or.inr ⟨a, b, c, rfl, ⟨rfl, hsome.2.2⟩, hvalue a b c rfl rfl rfl, rfl⟩

theorem integerQuotient_iff {k : IntKind} {x y z : Option (Whole k)} :
    onEntries (a := .integer k) (b := .integer k) (c := .integer k)
        (fun a b => divide.checked a.val b.val (Whole.ofInt? k (a.val.tdiv b.val))) x
        (divisor (t := .integer k) y) = .ok z ↔ IntegerQuotient x y z := by
  refine (onEntries_divisor_eq_ok (t := .integer k)).trans ?_
  constructor
  · rintro ⟨hmissing, hvalue⟩
    exact ⟨hmissing, fun a b c ha hb hc => checked_eq_ok.mp (hvalue a b c ha hb hc)⟩
  · rintro ⟨hmissing, hvalue⟩
    exact ⟨hmissing, fun a b c ha hb hc => checked_eq_ok.mpr (hvalue a b c ha hb hc)⟩

theorem exists_integerQuotient_iff {k : IntKind} {x y : Option (Whole k)} :
    (∃ z, IntegerQuotient x y z) ↔
      ¬ ∃ a b, x = some a ∧ y = some b ∧ a.val = k.least ∧ b.val = -1 := by
  constructor
  · rintro ⟨z, hz⟩ ⟨a, b, rfl, rfl, ha, hb⟩
    have hne : b.val ≠ 0 := by omega
    cases z with
    | none => simpa [Subtype.ext_iff, Whole.zero, hne] using hz.missing_iff
    | some c =>
        have hc := hz.truncates a b c rfl rfl rfl
        exact (holds_tdiv_iff a.property b.property hne).mp (hc ▸ c.property) ⟨ha, hb⟩
  · intro hrange
    by_cases hmissing : x = none ∨ y = none ∨ y = some (Whole.zero k)
    · exact ⟨none, iff_of_true rfl hmissing, by simp⟩
    · rw [not_or, not_or] at hmissing
      obtain ⟨a, rfl⟩ := Option.ne_none_iff_exists'.mp hmissing.1
      obtain ⟨b, rfl⟩ := Option.ne_none_iff_exists'.mp hmissing.2.1
      have hne : b.val ≠ 0 := fun h => hmissing.2.2 (congrArg some (Subtype.ext h))
      have hholds := (holds_tdiv_iff a.property b.property hne).mpr fun h =>
        hrange ⟨a, b, rfl, rfl, h⟩
      refine ⟨some ⟨_, hholds⟩, iff_of_false (by simp) (by simpa using hmissing), ?_⟩
      rintro _ _ _ ⟨⟩ ⟨⟩ ⟨⟩
      rfl

theorem unitsOf_eq_zero_iff {f : Format} {magnitude : Nat} :
    unitsOf f magnitude = 0 ↔ magnitude = 0 := by
  constructor
  · intro h
    by_contra hne
    have hunits := gap_le_unitsOf (f := f) (Nat.pos_of_ne_zero hne)
    have hgap := gap_pos f magnitude
    omega
  · rintro rfl
    exact unitsOf_zero f

theorem div_minusZero {k : FloatKind} (x : Bits k.format) :
    x.div (zero k.format true) = if x.isNaN then x.quieted
      else if x.isZero then invalid k.format else infinity k.format !x.negative := by
  rw [Bits.div, withNumbers, isNaN_zero, number_zero]
  by_cases hnan : x.isNaN = true
  · rw [if_pos hnan, if_pos hnan]
  · have hinfinity : 0 < k.format.infinity := by cases k <;> decide
    rw [if_neg hnan, if_neg hnan, if_neg Bool.false_ne_true, Bits.number, if_neg hnan]
    by_cases hinfinite : x.magnitude = k.format.infinity
    · have hzero : x.isZero = false := decide_eq_false (by omega)
      simp [hinfinite, hzero, quotient]
    · simp [hinfinite, quotient, unitsOf_eq_zero_iff, Bits.isZero]

theorem zero_ne_zero (k : FloatKind) : zero k.format true ≠ zero k.format false := by
  intro h
  have := congrArg Bits.negative h
  cases k <;> revert this <;> decide

theorem isZero_iff {k : FloatKind} {x : Bits k.format} :
    x.isZero = true ↔ x = zero k.format false ∨ x = zero k.format true := by
  constructor
  · intro h
    have hzero : x = zero k.format x.negative := by
      rw [zero, ← of_decide_eq_true h, Bits.pattern_magnitude]
    cases hx : x.negative with
    | false => exact Or.inl (hx ▸ hzero)
    | true => exact Or.inr (hx ▸ hzero)
  · rintro (rfl | rfl) <;> cases k <;> decide

theorem missingOverZero_iff {k : FloatKind} {x y z : Option (Bits k.format)}
    (h : z = none ↔ x = none ∨ y = none ∨ y = some (zero k.format false)) :
    (z = none ↔ x = none ∨ y = none ∨ ∃ b, y = some b ∧ b.isZero = true) ↔
      x = none ∨ y ≠ some (zero k.format true) := by
  rw [h]
  cases x with
  | none => simp
  | some a =>
      cases y with
      | none => simp
      | some b =>
          have hne := zero_ne_zero k
          by_cases hb : b = zero k.format true
          · simp [hb, hne, isZero_iff]
          · simp [hb, isZero_iff]

theorem floatQuotient_iff {k : FloatKind} {x y z : Option (Bits k.format)} :
    onEntries (a := .float k) (b := .float k) (c := .float k)
        (fun a b => .ok (divide.onFloat a b)) x (divisor (t := .float k) y) = .ok z ↔
      FloatQuotient x y z := by
  refine (onEntries_divisor_eq_ok (t := .float k)).trans ?_
  constructor
  · rintro ⟨hmissing, hvalue⟩
    have hrounds : ∀ a b c, x = some a → y = some b → z = some c → c = a.div b :=
      fun a b c ha hb hc => (Except.ok.inj (hvalue a b c ha hb hc)).symm
    refine ⟨hmissing, missingOverZero_iff hmissing, hrounds, ?_⟩
    rintro a rfl rfl
    have hsome : z ≠ none := fun hz => by
      obtain h | h | h := hmissing.mp hz
      · cases h
      · cases h
      · exact zero_ne_zero k (Option.some.inj h)
    obtain ⟨c, rfl⟩ := Option.ne_none_iff_exists'.mp hsome
    rw [hrounds a _ c rfl rfl rfl, div_minusZero]
  · rintro ⟨hmissing, -, hrounds, -⟩
    exact ⟨hmissing, fun a b c ha hb hc => congrArg Except.ok (hrounds a b c ha hb hc).symm⟩

theorem exists_floatQuotient {k : FloatKind} (x y : Option (Bits k.format)) :
    ∃ z, FloatQuotient x y z := by
  have hsome : ∀ z, onEntries (a := .float k) (b := .float k) (c := .float k)
      (fun a b => .ok (divide.onFloat a b)) x (divisor (t := .float k) y) = .ok z →
        ∃ z, FloatQuotient x y z := fun z hz => ⟨z, floatQuotient_iff.mp hz⟩
  cases x with
  | none => exact hsome none rfl
  | some a =>
      cases hy : divisor (t := .float k) y with
      | none => exact hsome none (by rw [hy]; rfl)
      | some b => exact hsome (some (a.div b)) (by rw [hy]; rfl)

end Quotients

/-- Division of integers: the quotients of the rows, and a failure where one is past the range. -/
structure DividesIntegers (k : IntKind) (rows : List (Option (Whole k) × Option (Whole k))) :
    Prop where
  quotients : ∀ q : Column (.integer k),
    divide.column (rows.map Prod.fst : Column (.integer k))
        (rows.map Prod.snd : Column (.integer k)) = .ok q ↔
      List.Forall₂ (fun row z => IntegerQuotient row.1 row.2 z) rows q
  fails : (∃ e, divide.column (rows.map Prod.fst : Column (.integer k))
        (rows.map Prod.snd : Column (.integer k)) = .error e) ↔
      ∃ a b, (some a, some b) ∈ rows ∧ a.val = k.least ∧ b.val = -1

/-- Division of floats, which never fails: the quotients of the rows. -/
structure DividesFloats (k : FloatKind)
    (rows : List (Option (Bits k.format) × Option (Bits k.format))) : Prop where
  quotients : ∀ q : Column (.float k),
    divide.column (rows.map Prod.fst : Column (.float k))
        (rows.map Prod.snd : Column (.float k)) = .ok q ↔
      List.Forall₂ (fun row z => FloatQuotient row.1 row.2 z) rows q
  succeeds : ∃ q : Column (.float k),
    divide.column (rows.map Prod.fst : Column (.float k))
        (rows.map Prod.snd : Column (.float k)) = .ok q

theorem dividesIntegers (k : IntKind) (rows : List (Option (Whole k) × Option (Whole k))) :
    DividesIntegers k rows := by
  constructor
  · intro q
    refine (column_divide_eq_ok (t := .integer k) rfl (if_pos rfl) rows q).trans ?_
    exact ⟨fun h => h.imp fun _ _ => integerQuotient_iff.mp,
      fun h => h.imp fun _ _ => integerQuotient_iff.mpr⟩
  · refine exists_error_iff.trans
      ((exists_column_divide_iff (t := .integer k) rfl (if_pos rfl) rows).not.trans ?_)
    have hrow : ∀ row : Option (Whole k) × Option (Whole k), (∃ z, _ = _) ↔ _ := fun row =>
      (exists_congr fun z => integerQuotient_iff (x := row.1) (y := row.2) (z := z)).trans
        exists_integerQuotient_iff
    constructor
    · intro h
      by_contra hnone
      refine h fun row hmem => (hrow row).mpr ?_
      rintro ⟨a, b, hx, hy, ha, hb⟩
      exact hnone ⟨a, b, by rwa [← hx, ← hy], ha, hb⟩
    · rintro ⟨a, b, hmem, ha, hb⟩ h
      exact (hrow _).mp (h _ hmem) ⟨a, b, rfl, rfl, ha, hb⟩

theorem dividesFloats (k : FloatKind)
    (rows : List (Option (Bits k.format) × Option (Bits k.format))) : DividesFloats k rows := by
  have hvalues : divide.onValues? (.float k) (.float k) =
      some fun a b => .ok (divide.onFloat (f := k.format) a b) := by
    cases k <;> rfl
  constructor
  · intro q
    refine (column_divide_eq_ok (t := .float k) rfl hvalues rows q).trans ?_
    exact ⟨fun h => h.imp fun _ _ => floatQuotient_iff.mp,
      fun h => h.imp fun _ _ => floatQuotient_iff.mpr⟩
  · refine (exists_column_divide_iff (t := .float k) rfl hvalues rows).mpr fun row _ => ?_
    obtain ⟨z, hz⟩ := exists_floatQuotient row.1 row.2
    exact ⟨z, floatQuotient_iff.mpr hz⟩

/-- Columns of one numeric type are divided row by row. -/
theorem divides_numbers (i : IntKind) (wholes : List (Option (Whole i) × Option (Whole i)))
    (k : FloatKind) (floats : List (Option (Bits k.format) × Option (Bits k.format))) :
    DividesIntegers i wholes ∧ DividesFloats k floats :=
  ⟨dividesIntegers i wholes, dividesFloats k floats⟩

/-- One. -/
def one : Bits .double := ⟨0x3ff0000000000000⟩

/-- One over minus zero is an infinity, and zero over minus zero is no number. -/
theorem minusZero_divides :
    (zero .double true).isZero = true ∧
      divide.column ([some one, some (zero .double false)] : Column .float64)
          ([some (zero .double true), some (zero .double true)] : Column .float64) =
        .ok ([some (infinity .double true), some (invalid .double)] : Column .float64) := by
  have hone : one.div (zero .double true) = infinity .double true :=
    (div_minusZero (k := .double) one).trans rfl
  have hzero : (zero .double false).div (zero .double true) = invalid .double :=
    (div_minusZero (k := .double) (zero .double false)).trans rfl
  have hrow : ∀ x q : Bits .double, x.div (zero .double true) = q →
      FloatQuotient (k := .double) (some x) (some (zero .double true)) (some q) := fun x q h =>
    floatQuotient_iff.mp (congrArg (Except.ok ∘ some) h)
  refine ⟨by decide, ?_⟩
  exact ((dividesFloats .double [(some one, some (zero .double true)),
    (some (zero .double false), some (zero .double true))]).quotients _).mpr
      (.cons (hrow _ _ hone) (.cons (hrow _ _ hzero) .nil))

end Arithmetic

end RelScript
