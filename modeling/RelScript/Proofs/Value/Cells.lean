import RelScript.Execution.Aggregation
import RelScript.Proofs.Ieee.Widening
import RelScript.Proofs.Outcome

/-!
Columns read as cells, and cells built to columns again. A column of a readable type gives the
column that it was, up to the payloads of NaNs, exactly if it holds no unsigned integer past the
signed range. Such an integer reads as zero, and so it shares its group and its partners in joins
with every other one and with zero.
-/

namespace RelScript

namespace DataType

/-- Whether values of the type are read as cells. -/
def isReadable : DataType → Bool
  | date _ | duration _ => false
  | _ => true

/-- One value, or no number on both sides. -/
def Same : (t : DataType) → t.Carrier → t.Carrier → Prop
  | float _ => Ieee.Bits.Same
  | _ => Eq

/-- Whether the value is an integer past the range of cells. -/
def IsPast : (t : DataType) → t.Carrier → Prop
  | integer _, n => ¬ IntKind.int64.Holds n.val
  | _, _ => False

/-- Whether the value is read as the integer zero. -/
def ReadsZero : (t : DataType) → t.Carrier → Prop
  | integer _, n => n.val = 0 ∨ ¬ IntKind.int64.Holds n.val
  | _, _ => False

theorem not_isPast {t : DataType} (ht : t ≠ .integer .uint64) (v : t.Carrier) : ¬ t.IsPast v := by
  cases t with
  | integer k =>
      have hv : k.least ≤ v.val ∧ v.val ≤ k.greatest := v.property
      have hleast : IntKind.int64.least ≤ k.least := by cases k <;> decide
      have hgreatest : k.greatest ≤ IntKind.int64.greatest := by
        cases k with
        | uint64 => exact absurd rfl ht
        | _ => decide
      exact not_not.mpr ⟨hleast.trans hv.1, hv.2.trans hgreatest⟩
  | _ => exact id

end DataType

theorem Whole.ofInt?_of_holds {k : IntKind} {n : Int} (h : k.Holds n) :
    Whole.ofInt? k n = some ⟨n, h⟩ := dif_pos h

theorem Whole.ofInt?_val {k : IntKind} (n : Whole k) : Whole.ofInt? k n.val = some n :=
  ofInt?_of_holds n.property

theorem FloatKind.same_widened (k : FloatKind) (x : Ieee.Bits k.format) :
    ((x.convert .double).convert k.format).Same x := by
  cases k
  · exact Ieee.Bits.same_single x
  · exact Ieee.Bits.same_double x

theorem FloatKind.widened (k : FloatKind) (x : Ieee.Bits k.format) :
    ((x.convert .double).convert k.format).convert .double = x.convert .double := by
  cases k with
  | single => exact Ieee.Bits.widened_single x
  | double => exact Ieee.Bits.convert_self _

namespace Cell

section Values

variable {t : DataType}

/-- The integer that a cell keeps of an integer. -/
def keptInt {k : IntKind} (n : Whole k) : Whole .int64 :=
  (Whole.ofInt? .int64 n.val).getD (Whole.zero _)

theorem keptInt_of_holds {k : IntKind} {n : Whole k} (h : IntKind.int64.Holds n.val) :
    keptInt n = ⟨n.val, h⟩ := by
  rw [keptInt, Whole.ofInt?_of_holds h, Option.getD_some]

theorem keptInt_of_past {k : IntKind} {n : Whole k} (h : ¬ IntKind.int64.Holds n.val) :
    keptInt n = Whole.zero _ := by
  rw [keptInt, Whole.ofInt?, dif_neg h, Option.getD_none]

theorem readsZero_iff {k : IntKind} {n : Whole k} :
    (DataType.integer k).ReadsZero n ↔ keptInt n = Whole.zero _ := by
  by_cases h : IntKind.int64.Holds n.val
  · rw [keptInt_of_holds h, Subtype.ext_iff]
    exact ⟨fun hzero => hzero.resolve_right (not_not.mpr h), Or.inl⟩
  · rw [keptInt_of_past h]
    exact iff_of_true (Or.inr h) rfl

/-- A value has a cell, and the cell gives a value of the type again: the one that was read, if it
lies in the range of cells. -/
theorem narrow_ofValue (ht : t.isReadable = true) (v : t.Carrier) :
    ∃ cell w, ofValue t v = .ok cell ∧ narrow t cell = .ok (some w) ∧
      (t.Same w v ↔ ¬ t.IsPast v) := by
  cases t with
  | null => exact v.elim
  | boolean | text _ | bytes _ => exact ⟨_, v, rfl, rfl, iff_of_true rfl id⟩
  | float k => exact ⟨_, _, rfl, rfl, iff_of_true (k.same_widened v) id⟩
  | integer k =>
      by_cases h : IntKind.int64.Holds v.val
      · refine ⟨.int (keptInt v), v, rfl, ?_, iff_of_true rfl (not_not.mpr h)⟩
        rw [keptInt_of_holds h]
        exact congrArg Except.ok v.ofInt?_val
      · refine ⟨.int (keptInt v), Whole.zero k, rfl, ?_, iff_of_false ?_ (not_not.mpr h)⟩
        · rw [keptInt_of_past h]
          exact congrArg Except.ok (Whole.zero k).ofInt?_val
        · rintro rfl
          exact h (Whole.zero .int64).property
  | date k | duration k => cases ht

theorem ofValue_integer_injective_iff {k : IntKind} (v w : Whole k) :
    (ofValue (.integer k) v = ofValue (.integer k) w → v = w) ↔
      ((DataType.integer k).ReadsZero v → (DataType.integer k).ReadsZero w → v = w) := by
  have hcell : ofValue (.integer k) v = ofValue (.integer k) w ↔ keptInt v = keptInt w :=
    ⟨fun h => Cell.int.inj (Except.ok.inj h), congrArg (Except.ok ∘ Cell.int)⟩
  rw [hcell, readsZero_iff, readsZero_iff]
  constructor
  · intro h hv hw
    exact h (hv.trans hw.symm)
  · intro h heq
    by_cases hv : IntKind.int64.Holds v.val
    · by_cases hw : IntKind.int64.Holds w.val
      · rw [keptInt_of_holds hv, keptInt_of_holds hw] at heq
        exact Subtype.ext (Subtype.mk.inj heq)
      · exact h (heq.trans (keptInt_of_past hw)) (keptInt_of_past hw)
    · exact h (keptInt_of_past hv) (heq.symm.trans (keptInt_of_past hv))

theorem ofValue_injective_iff (ht : t.isReadable = true) (v w : t.Carrier) :
    (ofValue t v = ofValue t w → t.Same v w) ↔ (t.ReadsZero v → t.ReadsZero w → v = w) := by
  cases t with
  | null => exact v.elim
  | boolean | text _ | bytes _ =>
      refine iff_of_true (fun h => ?_) (fun h => h.elim)
      cases h
      rfl
  | float k =>
      refine iff_of_true (fun h => ?_) (fun h => h.elim)
      have hwide := Cell.float.inj (Except.ok.inj h)
      have hv := k.same_widened v
      rw [hwide] at hv
      exact hv.symm.trans (k.same_widened w)
  | integer k => exact ofValue_integer_injective_iff v w
  | date k | duration k => cases ht

theorem build_of_isReadable (ht : t.isReadable = true) (cells : List Cell) :
    build t cells = cells.mapM (narrow t) := by
  cases t <;> first | rfl | cases ht

theorem narrow_missing (t : DataType) : narrow t missing = .ok none := by
  cases t <;> rfl

theorem narrow_read (ht : t.isReadable = true) (entry : t.Entry) :
    ∃ cell narrowed, read entry = .ok cell ∧ narrow t cell = .ok narrowed ∧
      narrowed.isSome = entry.isSome ∧
      (Option.Rel t.Same narrowed entry ↔ ∀ v, entry = some v → ¬ t.IsPast v) := by
  cases entry with
  | none =>
      exact ⟨.missing, none, rfl, narrow_missing t, rfl, iff_of_true .none (by simp)⟩
  | some v =>
      obtain ⟨cell, w, hcell, hw, hsame⟩ := narrow_ofValue ht v
      refine ⟨cell, some w, hcell, hw, rfl, ?_⟩
      rw [Option.rel_some_some, hsame]
      exact ⟨fun h v' hv' => Option.some.inj hv' ▸ h, fun h => h v rfl⟩

theorem exists_read (ht : t.isReadable = true) (entry : t.Entry) :
    ∃ cell, read entry = .ok cell := by
  obtain ⟨cell, -, hcell, -⟩ := narrow_read ht entry
  exact ⟨cell, hcell⟩

end Values

/-- Whether a cell comes back from a column of the type. -/
def ComesBack (t : DataType) (c : Cell) : Prop :=
  ∃ entry : t.Entry, narrow t c = .ok entry ∧ read entry = .ok c

theorem comesBack_missing (t : DataType) : missing.ComesBack t := ⟨none, narrow_missing t, rfl⟩

/-- What is read from a column comes back: an integer past the range of cells as the zero that was
read in its place. -/
theorem comesBack_of_read {t : DataType} (ht : t.isReadable = true) {entry : t.Entry} {c : Cell}
    (h : read entry = .ok c) : c.ComesBack t := by
  cases entry with
  | none =>
      cases h
      exact comesBack_missing t
  | some v =>
      cases t with
      | null => exact v.elim
      | boolean | text _ | bytes _ =>
          cases h
          exact ⟨some v, rfl, rfl⟩
      | integer k =>
          cases h
          by_cases hv : IntKind.int64.Holds v.val
          · refine ⟨some v, ?_, rfl⟩
            rw [Whole.ofInt?_of_holds hv]
            exact congrArg Except.ok v.ofInt?_val
          · refine ⟨some (Whole.zero k), ?_, ?_⟩
            · rw [Whole.ofInt?, dif_neg hv]
              exact congrArg Except.ok (Whole.zero k).ofInt?_val
            · rw [Whole.ofInt?, dif_neg hv]
              cases k <;> rfl
      | float k =>
          cases h
          exact ⟨_, rfl, congrArg (Except.ok ∘ float) (k.widened v)⟩
      | date k | duration k => cases ht

end Cell

namespace Column

variable {t : DataType}

theorem build_read (ht : t.isReadable = true) (c : Column t) :
    ∃ cells built, c.mapM Cell.read = .ok cells ∧ Cell.build t cells = .ok built ∧
      built.map Option.isSome = c.map Option.isSome ∧
      (List.Forall₂ (Option.Rel t.Same) built c ↔ ∀ v, some v ∈ c → ¬ t.IsPast v) := by
  simp only [Cell.build_of_isReadable ht, mapM_eq_ok]
  induction c with
  | nil => exact ⟨[], [], .nil, .nil, rfl, iff_of_true .nil (by simp)⟩
  | cons entry rest ih =>
      obtain ⟨cell, narrowed, hcell, hnarrowed, hsome, hsame⟩ := Cell.narrow_read ht entry
      obtain ⟨cells, built, hcells, hbuilt, hsomes, hsames⟩ := ih
      refine ⟨cell :: cells, narrowed :: built, .cons hcell hcells, .cons hnarrowed hbuilt, ?_, ?_⟩
      · rw [List.map_cons, List.map_cons, hsome, hsomes]
      · rw [List.forall₂_cons, hsame, hsames]
        simp only [List.mem_cons]
        constructor
        · rintro ⟨hfirst, hrest⟩ v (hv | hv)
          · exact hfirst v hv.symm
          · exact hrest v hv
        · intro h
          exact ⟨fun v hv => h v (Or.inl hv.symm), fun v hv => h v (Or.inr hv)⟩

/-- Columns of a readable type survive as cells up to integers past the range of cells: these alone
do not come back, and two values are read as one cell only if each of them is zero or past the
range. -/
theorem survives_iff (ht : t.isReadable = true) (c : Column t) :
    (∃ cells built, c.mapM Cell.read = .ok cells ∧ Cell.build t cells = .ok built ∧
      built.map Option.isSome = c.map Option.isSome ∧
      (List.Forall₂ (Option.Rel t.Same) built c ↔ ∀ v, some v ∈ c → ¬ t.IsPast v)) ∧
    ((∀ v w, some v ∈ c → some w ∈ c → Cell.ofValue t v = Cell.ofValue t w → t.Same v w) ↔
      ∀ v w, some v ∈ c → some w ∈ c → t.ReadsZero v → t.ReadsZero w → v = w) := by
  refine ⟨build_read ht c, ?_⟩
  constructor
  · intro h v w hv hw
    exact (Cell.ofValue_injective_iff ht v w).mp (h v w hv hw)
  · intro h v w hv hw
    exact (Cell.ofValue_injective_iff ht v w).mpr (h v w hv hw)

/-- The limits of the signed bytes. -/
def byteLimits : Column (.integer .int8) :=
  [some ⟨-128, by decide⟩, none, some ⟨0, by decide⟩, some ⟨127, by decide⟩]

theorem byteLimits_survive :
    (∃ cells built, byteLimits.mapM Cell.read = .ok cells ∧
      Cell.build (.integer .int8) cells = .ok built ∧
      built.map Option.isSome = byteLimits.map Option.isSome ∧
      (List.Forall₂ (Option.Rel (DataType.integer .int8).Same) built byteLimits ↔
        ∀ v, some v ∈ byteLimits → ¬ (DataType.integer .int8).IsPast v)) ∧
    ((∀ v w, some v ∈ byteLimits → some w ∈ byteLimits →
        Cell.ofValue (.integer .int8) v = Cell.ofValue (.integer .int8) w →
          (DataType.integer .int8).Same v w) ↔
      ∀ v w, some v ∈ byteLimits → some w ∈ byteLimits → (DataType.integer .int8).ReadsZero v →
        (DataType.integer .int8).ReadsZero w → v = w) :=
  survives_iff rfl byteLimits

/-- Zero and the greatest unsigned integer. -/
def unsignedLimits : Column (.integer .uint64) :=
  [some ⟨0, by decide⟩, some ⟨18446744073709551615, by decide⟩]

/-- The two limits read as one cell, so that one of them does not come back and both are counted in
one group. -/
theorem unsignedLimits_merge :
    (∃ cells built, unsignedLimits.mapM Cell.read = .ok cells ∧
      Cell.build (.integer .uint64) cells = .ok built ∧
      ¬ List.Forall₂ (Option.Rel (DataType.integer .uint64).Same) built unsignedLimits) ∧
    (∃ v w, some v ∈ unsignedLimits ∧ some w ∈ unsignedLimits ∧
      Cell.ofValue (.integer .uint64) v = Cell.ofValue (.integer .uint64) w ∧
      ¬ (DataType.integer .uint64).Same v w) ∧
    ((aggregateRelation ⟨[⟨"u", .integer .uint64, true⟩],
        [unsignedLimits.map fun entry => .cons entry .nil]⟩ [.columnRef "u" 0]
        [⟨⟨.count, .columnRef "u" 0⟩, "n"⟩] []).map fun r => r.rows.map Row.displays) =
      .ok [.ok ["0", "2"]] := by
  have hzero : some (Whole.zero .uint64) ∈ unsignedLimits := List.mem_cons_self
  have hlast : some ⟨18446744073709551615, by decide⟩ ∈ unsignedLimits :=
    List.mem_cons_of_mem _ List.mem_cons_self
  have hpast : ¬ IntKind.int64.Holds 18446744073709551615 := by decide
  refine ⟨?_, ⟨_, _, hzero, hlast, rfl, ?_⟩, by rfl⟩
  · obtain ⟨cells, built, hcells, hbuilt, -, hsame⟩ :=
      build_read (t := .integer .uint64) rfl unsignedLimits
    refine ⟨cells, built, hcells, hbuilt, fun h => ?_⟩
    exact hsame.mp h _ hlast hpast
  · exact fun h => absurd (Subtype.ext_iff.mp h) (by decide)

end Column

end RelScript
