import RelScript.Proofs.Execution.NestedLoop

/-!
The join by row numbers. The numbers of the right rows are gathered in a table by key, the left rows
look their keys up in it, and the joined rows are taken from both sides by the numbers of the pairs.
As long as no side has more rows than there are numbers, these are the pairs of matching rows.
-/

namespace RelScript

/-- The numbers of the rows of each key, in order. -/
abbrev RowTable := Std.HashMap (List Cell) (List UInt32)

/-- Keys with the numbers of their rows. -/
def numbered (keys : List (List Cell)) : List (List Cell × UInt32) :=
  keys.zipIdx.map fun k => (k.1, k.2.toUInt32)

/-- Adds a row under its key; a key with a missing part is left out. -/
def RowTable.add (table : RowTable) (row : List Cell × UInt32) : RowTable :=
  if row.1.any Cell.isMissing then table
  else table.insert row.1 (table.getD row.1 [] ++ [row.2])

/-- The table of some rows, by the keys that they have. -/
def RowTable.ofKeys (keys : List (List Cell)) : RowTable := (numbered keys).foldl RowTable.add ∅

/-- Adds the pairs of a left row with the right rows that its key finds. -/
def RowTable.probe (table : RowTable) (found : List UInt32 × List UInt32)
    (row : List Cell × UInt32) : List UInt32 × List UInt32 :=
  if row.1.any Cell.isMissing then found
  else (table.getD row.1 []).foldl (fun found i => (found.1 ++ [row.2], found.2 ++ [i])) found

/-- The row numbers of the matching pairs, left and right. -/
def matchNumbers (leftKeys rightKeys : List (List Cell)) : List UInt32 × List UInt32 :=
  (numbered leftKeys).foldl (RowTable.ofKeys rightKeys).probe ([], [])

/-- The rows of some numbers. -/
def takeRows {α : Type} (rows : List α) (numbers : List UInt32) : List α :=
  numbers.filterMap fun i => rows[i.toNat]?

/-- Joins two relations by row numbers. Without a match there is no batch. -/
def joinByNumbers (left right : Relation) (on : List (Expr × Expr)) (bindings : ScalarBindings) :
    Outcome Relation := do
  let leftKeys ← rowKeys bindings (on.map (·.1)) left.rows
  let rightKeys ← rowKeys bindings (on.map (·.2)) right.rows
  let (lefts, rights) := matchNumbers leftKeys rightKeys
  if lefts.isEmpty then return ⟨left.schema ++ right.schema, []⟩
  else
    let b : Batch (left.schema ++ right.schema) :=
      List.zipWith Row.append (takeRows left.rows lefts) (takeRows right.rows rights)
    return ⟨_, [← b.check .join]⟩

namespace RowTable

/-- The table holds what the buckets hold. -/
def Agrees (table : RowTable) (b : Buckets (List Cell) UInt32) : Prop :=
  ∀ key, table.getD key [] = b.find key

theorem Agrees.add {table : RowTable} {b : Buckets (List Cell) UInt32} (h : table.Agrees b)
    (row : List Cell × UInt32) :
    (table.add row).Agrees (if row.1.any Cell.isMissing then b else b.insert row.1 row.2) := by
  rw [RowTable.add]
  split
  · exact h
  · intro key
    rw [Std.HashMap.getD_insert, Buckets.find_insert, h, h]
    by_cases hkey : row.1 = key
    · subst hkey
      simp
    · simp [hkey]

theorem agrees_ofKeys (keys : List (List Cell)) :
    (ofKeys keys).Agrees (gatherByKey (numbered keys)) := by
  have hfold : ∀ (rows : List (List Cell × UInt32)) (table : RowTable)
      (b : Buckets (List Cell) UInt32), table.Agrees b → (rows.foldl add table).Agrees
        (rows.foldl (fun b (key, i) =>
          if key.any Cell.isMissing then b else b.insert key i) b) := by
    intro rows
    induction rows with
    | nil => exact fun _ _ h => h
    | cons row rows ih => exact fun table b h => ih _ _ (h.add row)
  exact hfold (numbered keys) ∅ [] fun _ => Std.HashMap.getD_empty

theorem foldl_pairs (i : UInt32) (numbers : List UInt32) (found : List UInt32 × List UInt32) :
    numbers.foldl (fun found j => (found.1 ++ [i], found.2 ++ [j])) found =
      (found.1 ++ numbers.map fun _ => i, found.2 ++ numbers) := by
  induction numbers generalizing found with
  | nil => simp
  | cons j numbers ih => simp [ih]

end RowTable

section Numbers

variable {α β α' β' : Type}

theorem matchRows_cons (row : List Cell × α) (left : List (List Cell × α))
    (right : List (List Cell × β)) :
    matchRows (row :: left) right =
      (if row.1.any Cell.isMissing then []
        else ((gatherByKey right).find row.1).map fun other => (row.2, other)) ++
          matchRows left right :=
  List.flatMap_cons

theorem matchNumbers_eq (leftKeys rightKeys : List (List Cell)) :
    matchNumbers leftKeys rightKeys =
      ((matchRows (numbered leftKeys) (numbered rightKeys)).map (·.1),
        (matchRows (numbered leftKeys) (numbered rightKeys)).map (·.2)) := by
  have hfold : ∀ (rows : List (List Cell × UInt32)) (found : List UInt32 × List UInt32),
      rows.foldl (RowTable.ofKeys rightKeys).probe found =
        (found.1 ++ (matchRows rows (numbered rightKeys)).map (·.1),
          found.2 ++ (matchRows rows (numbered rightKeys)).map (·.2)) := by
    intro rows
    induction rows with
    | nil => simp [matchRows]
    | cons row rows ih =>
        intro found
        rw [List.foldl_cons, ih, RowTable.probe, matchRows_cons]
        split
        · rfl
        · rw [RowTable.foldl_pairs, RowTable.agrees_ofKeys]
          simp [Function.comp_def]
  exact hfold (numbered leftKeys) ([], [])

theorem matchRows_map (f : α → α') (g : β → β') (left : List (List Cell × α))
    (right : List (List Cell × β)) :
    matchRows (left.map (Prod.map id f)) (right.map (Prod.map id g)) =
      (matchRows left right).map (Prod.map f g) := by
  rw [matchRows_eq, matchRows_eq, List.flatMap_map, List.map_flatMap]
  congr 1
  funext row
  rw [List.filter_map, List.map_map, List.map_map]
  rfl

theorem map_numbered {keys : List (List Cell)} {rows : List α} (hlength : keys.length = rows.length)
    (hcount : rows.length ≤ UInt32.size) :
    (numbered keys).map (Prod.map id fun i => rows[i.toNat]?) =
      (keys.zip rows).map (Prod.map id some) := by
  apply List.ext_getElem
  · simp [numbered, hlength]
  · intro i hi hi'
    have hrow : i < rows.length := by
      rw [List.length_map, List.length_zip, hlength, Nat.min_self] at hi'
      exact hi'
    have hnumber : i.toUInt32.toNat = i := UInt32.toNat_ofNat_of_lt (hrow.trans_le hcount)
    simp [numbered, hnumber, hrow]

variable {leftKeys rightKeys : List (List Cell)} {left : List α} {right : List β}
  (hleftKeys : leftKeys.length = left.length) (hrightKeys : rightKeys.length = right.length)
  (hleft : left.length ≤ UInt32.size) (hright : right.length ≤ UInt32.size)
include hleftKeys hrightKeys hleft hright

theorem matchRows_zip :
    (matchRows (leftKeys.zip left) (rightKeys.zip right)).map (Prod.map some some) =
      (matchRows (numbered leftKeys) (numbered rightKeys)).map
        (Prod.map (fun i => left[i.toNat]?) fun i => right[i.toNat]?) := by
  rw [← matchRows_map, ← matchRows_map, map_numbered hleftKeys hleft,
    map_numbered hrightKeys hright]

/-- The rows of the numbers, on both sides, are those of the matching pairs. -/
theorem takeRows_matchNumbers :
    takeRows left (matchNumbers leftKeys rightKeys).1 =
        (matchRows (leftKeys.zip left) (rightKeys.zip right)).map (·.1) ∧
      takeRows right (matchNumbers leftKeys rightKeys).2 =
        (matchRows (leftKeys.zip left) (rightKeys.zip right)).map (·.2) := by
  have hpairs := matchRows_zip hleftKeys hrightKeys hleft hright
  have hlefts := congrArg (List.filterMap Prod.fst) hpairs
  have hrights := congrArg (List.filterMap Prod.snd) hpairs
  rw [List.filterMap_map, List.filterMap_map] at hlefts hrights
  rw [matchNumbers_eq, takeRows, takeRows, List.filterMap_map, List.filterMap_map]
  exact ⟨hlefts.symm.trans (congrFun List.filterMap_eq_map _),
    hrights.symm.trans (congrFun List.filterMap_eq_map _)⟩

theorem isEmpty_matchNumbers :
    (matchNumbers leftKeys rightKeys).1.isEmpty =
      (matchRows (leftKeys.zip left) (rightKeys.zip right)).isEmpty := by
  have hlength := congrArg List.length (matchRows_zip hleftKeys hrightKeys hleft hright)
  rw [List.length_map, List.length_map] at hlength
  rw [matchNumbers_eq, List.isEmpty_map, Bool.eq_iff_iff, List.isEmpty_iff_length_eq_zero,
    List.isEmpty_iff_length_eq_zero, hlength]

end Numbers

theorem length_rowKeys {s : Schema} {b : ScalarBindings} {keys : List Expr} {rows : Batch s}
    {found : List (List Cell)} (h : rowKeys b keys rows = .ok found) :
    found.length = rows.length := by
  obtain ⟨columns, hcolumns, hfound⟩ := bind_eq_ok.mp h
  rw [← (mapM_eq_ok.mp hfound).length_eq]
  refine length_transposeCells fun column hcolumn => ?_
  obtain ⟨k, -, hk⟩ := forall_right_of_forall₂ (mapM_eq_ok.mp hcolumns) column hcolumn
  obtain ⟨e, -, hk⟩ := bind_eq_ok.mp hk
  obtain ⟨entries, heval, hk⟩ := bind_eq_ok.mp hk
  cases hk
  rw [List.length_map, e.2.rowwise_eval.length heval]

/-- The join by row numbers is the join of the rows, if there are numbers for all of them. -/
theorem joinByNumbers_eq {left right : Relation} (hleft : left.size ≤ UInt32.size)
    (hright : right.size ≤ UInt32.size) (on : List (Expr × Expr)) (b : ScalarBindings) :
    joinByNumbers left right on b = joinRelations left right on b := by
  rw [joinByNumbers, joinRelations]
  cases hl : rowKeys b (on.map (·.1)) left.rows with
  | error e => rfl
  | ok leftKeys =>
      cases hr : rowKeys b (on.map (·.2)) right.rows with
      | error e => rfl
      | ok rightKeys =>
          have hlk := length_rowKeys hl
          have hrk := length_rowKeys hr
          obtain ⟨hlefts, hrights⟩ := takeRows_matchNumbers hlk hrk hleft hright
          have hrows : List.zipWith Row.append
              (takeRows left.rows (matchNumbers leftKeys rightKeys).1)
              (takeRows right.rows (matchNumbers leftKeys rightKeys).2) =
                (matchRows (leftKeys.zip left.rows) (rightKeys.zip right.rows)).map
                  fun pair => pair.1.append pair.2 := by
            rw [hlefts, hrights, List.zipWith_map, List.zipWith_self]
          show (if (matchNumbers leftKeys rightKeys).1.isEmpty then _ else
            Batch.check .join (List.zipWith Row.append
              (takeRows left.rows (matchNumbers leftKeys rightKeys).1)
              (takeRows right.rows (matchNumbers leftKeys rightKeys).2)) >>= _) = _
          rw [isEmpty_matchNumbers hlk hrk hleft hright, hrows]
          rfl

end RelScript
