import RelScript.Execution.Joining
import RelScript.Proofs.Execution.Crossing
import RelScript.Proofs.Execution.IntegerPromotion
import RelScript.Proofs.Value.Cells

/-!
The hash join as a nested loop. The table of the right rows holds for every key the right rows of
that key in their order, and two keys are one key exactly if they compare as equal where neither has
a missing part. So the joined rows are those that a loop over the left rows, and for each of them
over the right rows, would find by comparing the keys.
-/

namespace RelScript

namespace Buckets

variable {κ α : Type} [DecidableEq κ]

theorem find_cons (stored key : κ) (items : List α) (rest : Buckets κ α) :
    find ((stored, items) :: rest) key = if key = stored then items else find rest key := by
  by_cases h : key = stored
  · simp [find, h]
  · have hne : (key == stored) = false := by simpa using h
    simp only [find, List.lookup_cons, hne, if_neg h]

theorem find_insert (b : Buckets κ α) (key k : κ) (item : α) :
    (b.insert key item).find k = b.find k ++ if key = k then [item] else [] := by
  induction b with
  | nil =>
      rw [insert, find_cons]
      simp [find, eq_comm]
  | cons entry rest ih =>
      obtain ⟨stored, items⟩ := entry
      rw [insert]
      split
      · rename_i hstored
        subst hstored
        rw [find_cons, find_cons]
        by_cases hk : k = stored
        · simp [hk]
        · simp [hk, Ne.symm hk]
      · rename_i hstored
        rw [find_cons, find_cons, ih]
        by_cases hk : k = stored
        · subst hk
          simp [Ne.symm hstored]
        · simp [hk]

end Buckets

section Matching

variable {α β : Type}

/-- The table holds the rows of a key in their order. -/
theorem find_gatherByKey (rows : List (List Cell × α)) {key : List Cell}
    (hkey : key.any Cell.isMissing = false) :
    (gatherByKey rows).find key = (rows.filter (·.1 = key)).map (·.2) := by
  have hfold : ∀ b : Buckets (List Cell) α,
      (rows.foldl (fun b row =>
        if row.1.any Cell.isMissing then b else b.insert row.1 row.2) b).find key =
          b.find key ++ (rows.filter (·.1 = key)).map (·.2) := by
    induction rows with
    | nil => simp
    | cons row rows ih =>
        intro b
        obtain ⟨stored, item⟩ := row
        rw [List.foldl_cons, ih]
        by_cases hsame : stored = key
        · subst hsame
          simp [hkey, Buckets.find_insert]
        · dsimp only
          split
          · simp [hsame]
          · simp [hsame, Buckets.find_insert]
  exact hfold []

theorem matchRows_eq (left : List (List Cell × α)) (right : List (List Cell × β)) :
    matchRows left right = left.flatMap fun l =>
      (right.filter fun r => l.1 = r.1 ∧ l.1.any Cell.isMissing = false).map fun r =>
        (l.2, r.2) := by
  rw [matchRows]
  congr 1
  funext ⟨key, row⟩
  dsimp only
  cases hkey : key.any Cell.isMissing with
  | true =>
      rw [if_pos rfl]
      simp
  | false =>
      rw [if_neg Bool.false_ne_true, find_gatherByKey right hkey, List.map_map]
      simp only [and_true, eq_comm (a := key)]
      rfl

end Matching

namespace Ieee.Bits

theorem rank_inj {f : Format} {x y : Bits f} : x.rank = y.rank ↔ x = y := by
  constructor
  · intro h
    rw [rank, rank] at h
    cases hx : x.negative <;> cases hy : y.negative <;>
      simp only [hx, hy, Bool.false_eq_true, if_true, if_false, Int.ofNat_eq_natCast] at h
    · exact eq_of_sign_magnitude (hx.trans hy.symm) (by omega)
    · omega
    · omega
    · exact eq_of_sign_magnitude (hx.trans hy.symm) (by omega)
  · rintro rfl
    rfl

end Ieee.Bits

section Bytes

theorem toList_loop (b : ByteArray) (n i : Nat) (read : List UInt8) (h : n + i = b.size) :
    ByteArray.toList.loop b i read = read.reverse ++ b.data.toList.drop i := by
  have hsize : b.data.toList.length = b.size := rfl
  induction n generalizing i read with
  | zero =>
      rw [ByteArray.toList.loop, if_neg (by omega), List.drop_of_length_le (by omega),
        List.append_nil]
  | succ n ih =>
      have hi : i < b.data.toList.length := by omega
      have hget : b.get! i = b.data.toList[i] := by
        simp only [ByteArray.get!, Array.getElem_toList]
        exact getElem!_pos b.data i hi
      rw [ByteArray.toList.loop, if_pos (by omega), ih (i + 1) _ (by omega), hget,
        List.drop_eq_getElem_cons hi, List.reverse_cons, List.append_assoc,
        List.singleton_append]

theorem toList_inj {a b : ByteArray} : a.toList = b.toList ↔ a = b := by
  have hdata : ∀ c : ByteArray, c.toList = c.data.toList := fun c =>
    toList_loop c c.size 0 [] (Nat.add_zero _)
  rw [hdata, hdata, Array.toList_inj, ByteArray.ext_iff]

theorem compareBytes_eq_iff {a b : ByteArray} : compareBytes a b = .eq ↔ a = b := by
  rw [compareBytes, compareOfLessAndEq_eq_eq List.le_refl List.not_le, toList_inj]

end Bytes

/-- Whether cells tell values of the type apart as comparisons do. Unsigned integers past the signed
range share a cell, and a single may become quiet when it is widened. -/
def DataType.comparesAsCells : DataType → Bool
  | .integer k => k ≠ .uint64
  | .float k => k = .double
  | .boolean | .text _ | .bytes _ => true
  | .null | .date _ | .duration _ => false

namespace Cell

variable {t : DataType}

theorem ofValue_eq_iff (ht : t.comparesAsCells = true) (v w : t.Carrier) :
    ofValue t v = ofValue t w ↔ t.compare v w = .eq := by
  cases t with
  | null | date _ | duration _ => cases ht
  | boolean => cases v <;> cases w <;> decide
  | integer k =>
      have hk : DataType.integer k ≠ .integer .uint64 := by
        simpa [DataType.comparesAsCells] using ht
      have hholds : ∀ n : Whole k, IntKind.int64.Holds n.val := fun n =>
        not_not.mp (DataType.not_isPast hk n)
      have hkept : keptInt v = keptInt w ↔ v.val = w.val := by
        rw [keptInt_of_holds (hholds v), keptInt_of_holds (hholds w), Subtype.mk.injEq]
      refine Iff.trans ?_ (hkept.trans compare_eq_iff_eq.symm)
      exact ⟨fun h => int.inj (Except.ok.inj h), congrArg (Except.ok ∘ int)⟩
  | float k =>
      obtain rfl : k = .double := by simpa [DataType.comparesAsCells] using ht
      have hkept : ∀ x y : Ieee.Bits .double,
          (Except.ok (float (x.convert .double)) : Outcome Cell) = .ok (float (y.convert .double)) ↔
            Ord.compare x.rank y.rank = .eq := by
        intro x y
        rw [Ieee.Bits.convert_self, Ieee.Bits.convert_self, compare_eq_iff_eq, Ieee.Bits.rank_inj]
        simp
      exact hkept v w
  | text e =>
      have hkept : ∀ x y : String, (Except.ok (text x) : Outcome Cell) = .ok (text y) ↔
          Ord.compare x y = .eq := by
        intro x y
        rw [compare_eq_iff_eq]
        simp
      exact hkept v w
  | bytes e =>
      have hkept : ∀ x y : ByteArray, (Except.ok (bytes x) : Outcome Cell) = .ok (bytes y) ↔
          compareBytes x y = .eq := by
        intro x y
        rw [compareBytes_eq_iff]
        simp
      exact hkept v w

end Cell

section Keys

/-- The cell of a column at a position, which is missing past the end. -/
def Column.cellAt {t : DataType} (column : Column t) (i : Nat) : Cell :=
  (column[i]?.bind fun entry => (Cell.read entry).toOption).getD .missing

theorem DataType.isReadable_of_comparesAsCells {t : DataType} (ht : t.comparesAsCells = true) :
    t.isReadable = true := by
  cases t <;> first | rfl | cases ht

theorem Column.map_read {t : DataType} (ht : t.isReadable = true) (column : Column t) {n : Nat}
    (hn : column.length = n) :
    column.map Cell.read = (List.range n).map fun i => .ok (column.cellAt i) := by
  apply List.ext_getElem
  · simp [hn]
  · intro i hi _
    have hi' : i < column.length := by simpa using hi
    obtain ⟨cell, hcell⟩ := Cell.exists_read ht column[i]
    simp [cellAt, hi', hcell, Except.toOption]

theorem rowKeys_eq_ok {s : Schema} {b : ScalarBindings} {rows : Batch s} {keys : List Expr}
    {columns : List ((t : DataType) × Column t)}
    (h : List.Forall₂ (fun k c => k.values s b rows = .ok c) keys columns)
    (hreadable : ∀ c ∈ columns, c.1.isReadable = true) :
    rowKeys b keys rows =
      .ok ((List.range rows.length).map fun i => columns.map fun c => c.2.cellAt i) := by
  have hcolumns : (keys.mapM fun k => do
      let e ← k.compile s b
      return (← e.2.eval rows).map Cell.read) = (.ok (columns.map fun c =>
        (List.range rows.length).map fun i => .ok (c.2.cellAt i)) : Outcome _) := by
    rw [mapM_eq_ok, List.forall₂_map_right_iff]
    induction h with
    | nil => exact .nil
    | cons hc _ ih =>
        obtain ⟨hfirst, hrest⟩ := List.forall_mem_cons.mp hreadable
        refine .cons ?_ (ih hrest)
        obtain ⟨e, column, he, hcolumn, rfl⟩ := Expr.values_eq_ok.mp hc
        refine bind_eq_ok.mpr ⟨e, he, bind_eq_ok.mpr ⟨column, hcolumn, ?_⟩⟩
        exact congrArg Except.ok (column.map_read hfirst (e.2.rowwise_eval.length hcolumn))
  rw [rowKeys, hcolumns]
  have hrows := transposeCells_map (List.range rows.length) columns fun c i =>
    (.ok (c.2.cellAt i) : Outcome Cell)
  rw [List.length_range] at hrows
  show (transposeCells rows.length _).mapM (fun cells => cells.mapM id) = (.ok _ : Outcome _)
  rw [hrows, mapM_eq_ok, List.forall₂_map_left_iff, List.forall₂_map_right_iff,
    List.forall₂_same]
  intro i _
  rw [mapM_eq_ok, List.forall₂_map_left_iff, List.forall₂_map_right_iff, List.forall₂_same]
  exact fun _ _ => rfl

end Keys

/-- The columns that a pair of join keys has for the left and for the right rows. -/
structure KeyColumns where
  type : DataType
  left : Column type
  right : Column type

/-- Whether the keys of a left and of a right row compare as equal. -/
def KeyColumns.matches (k : KeyColumns) (i j : Nat) : Bool :=
  match k.left[i]?, k.right[j]? with
  | some x, some y =>
    match Comparison.eq.holds k.type x y with
    | some true => true
    | _ => false
  | _, _ => false

/-- The pairs of a left and a right row whose keys all compare as equal, every left row with every
right row in turn. -/
def nestedLoop (left right : Relation) (keys : List KeyColumns) :
    Batch (left.schema ++ right.schema) :=
  left.rows.zipIdx.flatMap fun l =>
    (right.rows.zipIdx.filter fun r => keys.all fun k => k.matches l.2 r.2).map fun r =>
      l.1.append r.1

/-- The columns of a pair of join keys, whose type is compared as cells are. -/
structure KeyColumns.Evaluates (left right : Relation) (b : ScalarBindings) (on : Expr × Expr)
    (k : KeyColumns) : Prop where
  left : on.1.values left.schema b left.rows = .ok ⟨k.type, k.left⟩
  right : on.2.values right.schema b right.rows = .ok ⟨k.type, k.right⟩
  compares : k.type.comparesAsCells = true

section Equality

variable {k : KeyColumns}

theorem KeyColumns.matches_eq_true {i j : Nat} :
    k.matches i j = true ↔ ∃ v w, k.left[i]? = some (some v) ∧ k.right[j]? = some (some w) ∧
      k.type.compare v w = .eq := by
  unfold KeyColumns.matches
  cases hx : k.left[i]? with
  | none => simp
  | some x =>
      cases hy : k.right[j]? with
      | none => simp
      | some y =>
          cases x with
          | none => simp [Comparison.holds]
          | some v =>
              cases y with
              | none => simp [Comparison.holds]
              | some w =>
                  simp only [Comparison.holds, Option.some.injEq]
                  cases hcompare : k.type.compare v w <;> simp [Comparison.accepts, hcompare]

theorem Cell.isMissing_of_ofValue {t : DataType} {v : t.Carrier} {cell : Cell}
    (h : Cell.ofValue t v = .ok cell) : cell.isMissing = false := by
  cases t with
  | null => exact v.elim
  | date | duration => cases h
  | _ =>
      obtain rfl := Except.ok.inj h
      rfl

theorem Column.cellAt_of_some {t : DataType} (ht : t.isReadable = true) {column : Column t}
    {i : Nat} {v : t.Carrier} (h : column[i]? = some (some v)) :
    Cell.ofValue t v = .ok (column.cellAt i) := by
  obtain ⟨cell, hcell⟩ := Cell.exists_read ht (some v)
  rw [cellAt, h]
  simp [hcell, Except.toOption]
  exact hcell

theorem Column.exists_of_cellAt {t : DataType} {column : Column t} {i : Nat}
    (h : (column.cellAt i).isMissing = false) : ∃ v, column[i]? = some (some v) := by
  unfold cellAt at h
  cases hentry : column[i]? with
  | none => simp [hentry, Cell.isMissing] at h
  | some entry =>
      cases entry with
      | none => simp [hentry, Cell.isMissing, Cell.read, Except.toOption] at h
      | some v => exact ⟨v, rfl⟩

theorem KeyColumns.matches_iff (hk : k.type.comparesAsCells = true) {i j : Nat} :
    k.matches i j = true ↔
      k.left.cellAt i = k.right.cellAt j ∧ (k.left.cellAt i).isMissing = false := by
  have hread := DataType.isReadable_of_comparesAsCells hk
  rw [matches_eq_true]
  constructor
  · rintro ⟨v, w, hv, hw, hcompare⟩
    have hleft := Column.cellAt_of_some hread hv
    have hright := Column.cellAt_of_some hread hw
    have hsame := (Cell.ofValue_eq_iff hk v w).mpr hcompare
    rw [hleft, hright] at hsame
    exact ⟨Except.ok.inj hsame, Cell.isMissing_of_ofValue hleft⟩
  · rintro ⟨hsame, hfound⟩
    obtain ⟨v, hv⟩ := Column.exists_of_cellAt hfound
    obtain ⟨w, hw⟩ := Column.exists_of_cellAt (hsame ▸ hfound)
    refine ⟨v, w, hv, hw, (Cell.ofValue_eq_iff hk v w).mp ?_⟩
    rw [Column.cellAt_of_some hread hv, Column.cellAt_of_some hread hw, hsame]

theorem all_matches_iff {keys : List KeyColumns}
    (hkeys : ∀ k ∈ keys, k.type.comparesAsCells = true) {i j : Nat} :
    keys.all (·.matches i j) = true ↔
      keys.map (·.left.cellAt i) = keys.map (·.right.cellAt j) ∧
        (keys.map (·.left.cellAt i)).any Cell.isMissing = false := by
  rw [List.map_inj_left, List.all_eq_true, List.any_eq_false]
  simp only [List.forall_mem_map, Bool.not_eq_true, ← forall_and]
  exact forall₂_congr fun k hk => KeyColumns.matches_iff (hkeys k hk)

end Equality

section Joining

variable {left right : Relation} {on : List (Expr × Expr)} {b : ScalarBindings}
  {keys : List KeyColumns}

theorem zip_range_map {α β : Type} (rows : List α) (f : Nat → β) :
    ((List.range rows.length).map f).zip rows = rows.zipIdx.map fun r => (f r.2, r.1) := by
  apply List.ext_getElem
  · simp
  · intro i _ _
    simp

theorem map_matchRows (hkeys : ∀ k ∈ keys, k.type.comparesAsCells = true) :
    (matchRows
      (((List.range left.rows.length).map fun i => keys.map (·.left.cellAt i)).zip left.rows)
      (((List.range right.rows.length).map fun j => keys.map (·.right.cellAt j)).zip
        right.rows)).map (fun pair => pair.1.append pair.2) = nestedLoop left right keys := by
  rw [matchRows_eq, zip_range_map, zip_range_map, nestedLoop, List.map_flatMap, List.flatMap_map]
  congr 1
  funext ⟨l, i⟩
  rw [List.filter_map, List.map_map, List.map_map]
  refine congrArg _ (List.filter_congr fun r _ => ?_)
  rw [Bool.eq_iff_iff, all_matches_iff hkeys]
  exact decide_eq_true_iff

theorem rowKeys_of_evaluates (h : List.Forall₂ (KeyColumns.Evaluates left right b) on keys) :
    rowKeys b (on.map (·.1)) left.rows =
        .ok ((List.range left.rows.length).map fun i => keys.map (·.left.cellAt i)) ∧
      rowKeys b (on.map (·.2)) right.rows =
        .ok ((List.range right.rows.length).map fun j => keys.map (·.right.cellAt j)) := by
  have hreadable : ∀ k ∈ keys, k.type.isReadable = true := by
    intro k hk
    obtain ⟨_, -, hevaluates⟩ := forall_right_of_forall₂ h k hk
    exact DataType.isReadable_of_comparesAsCells hevaluates.compares
  have hleft : List.Forall₂ (fun e c => e.values left.schema b left.rows = .ok c) (on.map (·.1))
      (keys.map fun k => (⟨k.type, k.left⟩ : (t : DataType) × Column t)) := by
    rw [List.forall₂_map_left_iff, List.forall₂_map_right_iff]
    exact h.imp fun _ _ hk => hk.left
  have hright : List.Forall₂ (fun e c => e.values right.schema b right.rows = .ok c)
      (on.map (·.2)) (keys.map fun k => (⟨k.type, k.right⟩ : (t : DataType) × Column t)) := by
    rw [List.forall₂_map_left_iff, List.forall₂_map_right_iff]
    exact h.imp fun _ _ hk => hk.right
  have hl := rowKeys_eq_ok hleft (List.forall_mem_map.mpr hreadable)
  have hr := rowKeys_eq_ok hright (List.forall_mem_map.mpr hreadable)
  simp only [List.map_map, Function.comp_def] at hl hr
  exact ⟨hl, hr⟩

theorem isComplete_nestedLoop (hleft : ∀ l ∈ left.rows, l.isComplete = true)
    (hright : ∀ r ∈ right.rows, r.isComplete = true) :
    ∀ row ∈ nestedLoop left right keys, row.isComplete = true := by
  intro row hrow
  obtain ⟨l, hl, hrow⟩ := List.mem_flatMap.mp hrow
  obtain ⟨r, hr, rfl⟩ := List.mem_map.mp hrow
  have hl' := hleft l.1 (List.fst_mem_of_mem_zipIdx hl)
  have hr' := hright r.1 (List.fst_mem_of_mem_zipIdx (List.mem_filter.mp hr).1)
  rw [Row.isComplete_append, hl', hr', Bool.and_self]

theorem nestedLoop_nil (left right : Relation) :
    nestedLoop left right [] = left.rows.flatMap fun l => right.rows.map l.append := by
  conv_rhs => rw [← List.zipIdx_map_fst 0 left.rows, List.flatMap_map]
  rw [nestedLoop]
  congr 1
  funext l
  conv_rhs => rw [← List.zipIdx_map_fst 0 right.rows, List.map_map]
  have hfilter : (right.rows.zipIdx.filter fun r =>
      ([] : List KeyColumns).all fun k => k.matches l.2 r.2) = right.rows.zipIdx :=
    List.filter_eq_self.mpr fun _ _ => rfl
  rw [hfilter]
  rfl

theorem joinRelations_of_keys {leftKeys rightKeys : List (List Cell)}
    (hl : rowKeys b (on.map (·.1)) left.rows = .ok leftKeys)
    (hr : rowKeys b (on.map (·.2)) right.rows = .ok rightKeys)
    (hcolumn : left.schema ++ right.schema ≠ []) {rows : Batch (left.schema ++ right.schema)}
    (hrows : (matchRows (leftKeys.zip left.rows) (rightKeys.zip right.rows)).map
      (fun pair => pair.1.append pair.2) = rows) (hcomplete : ∀ row ∈ rows, row.isComplete = true) :
    ∃ batches, joinRelations left right on b = .ok ⟨left.schema ++ right.schema, batches⟩ ∧
      batches.flatten = rows := by
  have hcheck : Batch.check .join rows = .ok rows := by
    have hviolation := Batch.violation?_eq_none.mpr hcomplete
    have hempty : ¬ (left.schema ++ right.schema).isEmpty = true := by
      simpa only [List.isEmpty_iff] using hcolumn
    rw [Batch.check, if_neg hempty, hviolation]
  by_cases hpairs : (matchRows (leftKeys.zip left.rows) (rightKeys.zip right.rows)).isEmpty = true
  · refine ⟨[], ?_, ?_⟩
    · refine bind_eq_ok.mpr ⟨_, hl, bind_eq_ok.mpr ⟨_, hr, ?_⟩⟩
      exact if_pos hpairs
    · rw [List.isEmpty_iff.mp hpairs] at hrows
      exact hrows
  · refine ⟨[rows], ?_, List.flatten_singleton⟩
    refine bind_eq_ok.mpr ⟨_, hl, bind_eq_ok.mpr ⟨_, hr, (if_neg hpairs).trans ?_⟩⟩
    exact bind_eq_ok.mpr ⟨rows, hrows.symm ▸ hcheck, rfl⟩

/-- A join of two relations with a column between them, whose rows are complete: the joined rows are
those that the nested loop finds, in its order. A missing key matches nothing, and without keys
every left row is joined to every right row. -/
theorem joinRelations_eq_nestedLoop
    (hkeys : List.Forall₂ (KeyColumns.Evaluates left right b) on keys)
    (hcolumn : left.schema ++ right.schema ≠ []) (hleft : ∀ l ∈ left.rows, l.isComplete = true)
    (hright : ∀ r ∈ right.rows, r.isComplete = true) :
    (∃ batches, joinRelations left right on b = .ok ⟨left.schema ++ right.schema, batches⟩ ∧
      batches.flatten = nestedLoop left right keys) ∧
    (∀ i j, (∃ k ∈ keys, k.left[i]? = some none ∨ k.right[j]? = some none) →
      keys.all (·.matches i j) = false) ∧
    (on = [] → nestedLoop left right keys =
      left.rows.flatMap fun l => right.rows.map l.append) := by
  have hcompares : ∀ k ∈ keys, k.type.comparesAsCells = true := by
    intro k hk
    obtain ⟨_, -, hevaluates⟩ := forall_right_of_forall₂ hkeys k hk
    exact hevaluates.compares
  refine ⟨?_, ?_, ?_⟩
  · obtain ⟨hl, hr⟩ := rowKeys_of_evaluates hkeys
    exact joinRelations_of_keys hl hr hcolumn (map_matchRows hcompares)
      (isComplete_nestedLoop hleft hright)
  · rintro i j ⟨k, hk, hnone⟩
    rw [List.all_eq_false]
    refine ⟨k, hk, fun hmatches => ?_⟩
    obtain ⟨v, w, hv, hw, -⟩ := KeyColumns.matches_eq_true.mp hmatches
    rcases hnone with hnone | hnone
    · simp [hv] at hnone
    · simp [hw] at hnone
  · rintro rfl
    rw [List.forall₂_nil_left_iff.mp hkeys, nestedLoop_nil]

end Joining

/-- Numbers in one column. -/
def numbers (name : String) (batches : List (List (Option (Whole .int64)))) : Relation :=
  ⟨[⟨name, .int64, true⟩], batches.map (List.map fun n => .cons n .nil)⟩

/-- Two visits, one of them to no city, in two batches. -/
def visits : Relation := numbers "city" [[some ⟨7, by decide⟩], [none]]

/-- Three guides, two of them of one city, and one of no city. -/
def guides : Relation := numbers "home" [[none, some ⟨7, by decide⟩, some ⟨7, by decide⟩]]

theorem visits_joined :
    (∃ batches, joinRelations visits guides [(.position 0, .position 0)] [] =
        .ok ⟨visits.schema ++ guides.schema, batches⟩ ∧
      batches.flatten.map Row.displays = [.ok ["7", "7"], .ok ["7", "7"]]) := by
  have hkeys : List.Forall₂ (KeyColumns.Evaluates visits guides []) [(.position 0, .position 0)]
      [⟨.int64, [some ⟨7, by decide⟩, none], [none, some ⟨7, by decide⟩, some ⟨7, by decide⟩]⟩] :=
    .cons ⟨rfl, rfl, rfl⟩ .nil
  obtain ⟨⟨batches, hjoin, hrows⟩, -⟩ := joinRelations_eq_nestedLoop hkeys (List.cons_ne_nil _ _)
    (by decide) (by decide)
  refine ⟨batches, hjoin, ?_⟩
  rw [hrows]
  rfl

end RelScript
