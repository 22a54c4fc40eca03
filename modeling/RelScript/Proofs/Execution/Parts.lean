import Mathlib.Algebra.Order.Floor.Div
import RelScript.Proofs.Execution.Layout

/-!
The parts for parallel tasks. Rows are dealt out from the front: every part but the last is full,
none is empty, and there are no more parts than tasks.
-/

namespace RelScript

variable {α : Type}

/-- The loop that fills parts of `size` rows, step by step: a slice is what the first batch still
has and the open part still has room for, and a full part is closed. There is no rule for a part
without room, so every slice takes at least one row. -/
inductive Fills (size : Nat) :
    (open_ : List (List α)) → (room : Nat) → (batches : List (List α)) →
      (parts : List (List (List α))) → Prop
  | done (room : Nat) : Fills size [] room [] []
  | rest {open_ : List (List α)} (room : Nat) (h : open_ ≠ []) : Fills size open_ room [] [open_]
  | next {open_ batches : List (List α)} {room : Nat} {parts : List (List (List α))}
      (h : Fills size open_ room batches parts) : Fills size open_ room ([] :: batches) parts
  | slice {open_ batches : List (List α)} {rows : List α} {room : Nat}
      {parts : List (List (List α))} (hrows : rows ≠ []) (hroom : rows.length < room)
      (h : Fills size (open_ ++ [rows]) (room - rows.length) batches parts) :
      Fills size open_ room (rows :: batches) parts
  | close {open_ batches : List (List α)} {rows : List α} {room : Nat}
      {parts : List (List (List α))} (hpos : 0 < room) (hroom : room ≤ rows.length)
      (h : Fills size [] size (rows.drop room :: batches) parts) :
      Fills size open_ room (rows :: batches) ((open_ ++ [rows.take room]) :: parts)

theorem fills_fillParts {size : Nat} (hsize : 0 < size) {open_ : List (List α)} {room : Nat}
    (hroom : 0 < room) (batches : List (List α)) :
    Fills size open_ room batches (fillParts size open_ room batches) := by
  induction open_, room, batches using fillParts.induct size with
  | case1 open_ room hempty =>
      rw [fillParts, if_pos hempty, List.isEmpty_iff.mp hempty]
      exact .done room
  | case2 open_ room hopen =>
      rw [fillParts, if_neg hopen]
      exact .rest room (by simpa using hopen)
  | case3 open_ room batches ih =>
      rw [fillParts]
      exact .next (ih hroom)
  | case4 open_ room row rows batches hfits ih =>
      rw [fillParts, if_pos hfits]
      exact .slice (List.cons_ne_nil _ _) hfits (ih (by omega))
  | case5 open_ room row rows batches hfull ih =>
      have hmax : max room 1 = room := by omega
      rw [hmax] at ih
      rw [fillParts, if_neg hfull, hmax]
      exact .close hroom (by simpa using hfull) (ih hsize)

/-- Parts of a size: all but the last are full, and none has more rows or no slice. -/
structure PartsOf (size : Nat) (parts : List (List (List α))) : Prop where
  full : ∀ part ∈ parts.dropLast, part.flatten.length = size
  bounded : ∀ part ∈ parts, part.flatten.length ≤ size
  nonempty : ∀ part ∈ parts, part ≠ []

theorem PartsOf.cons {size : Nat} {part : List (List α)} {parts : List (List (List α))}
    (h : PartsOf size parts) (hfull : part.flatten.length = size) (hpart : part ≠ []) :
    PartsOf size (part :: parts) where
  full := by
    cases parts with
    | nil => simp
    | cons next rest =>
        rw [List.dropLast_cons_cons]
        exact List.forall_mem_cons.mpr ⟨hfull, h.full⟩
  bounded := List.forall_mem_cons.mpr ⟨hfull.le, h.bounded⟩
  nonempty := List.forall_mem_cons.mpr ⟨hpart, h.nonempty⟩

/-- What the loop makes of an open part: the rows in it and its room are a whole part. -/
theorem Fills.partsOf {size room : Nat} {open_ batches : List (List α)}
    {parts : List (List (List α))} (h : Fills size open_ room batches parts)
    (hopen : open_.flatten.length + room = size) : PartsOf size parts := by
  induction h with
  | done room => exact ⟨by simp, by simp, by simp⟩
  | rest room hne =>
      refine ⟨by simp, ?_, by simpa using hne⟩
      simp only [List.forall_mem_singleton]
      omega
  | next h ih => exact ih hopen
  | slice hrows hroom h ih =>
      apply ih
      simp only [List.flatten_append, List.flatten_singleton, List.length_append]
      omega
  | close hpos hroom h ih =>
      refine (ih (by simp)).cons ?_ (by simp)
      simp only [List.flatten_append, List.flatten_singleton, List.length_append, List.length_take]
      omega

theorem length_flatten_of_full {size : Nat} {parts : List (List (List α))}
    (h : ∀ part ∈ parts, part.flatten.length = size) :
    parts.flatten.flatten.length = size * parts.length := by
  induction parts with
  | nil => simp
  | cons part parts ih =>
      obtain ⟨hpart, hrest⟩ := List.forall_mem_cons.mp h
      rw [List.flatten_cons, List.flatten_append, List.length_append, hpart, ih hrest,
        List.length_cons, Nat.mul_succ, Nat.add_comm]

theorem PartsOf.lt_rows {size : Nat} {parts : List (List (List α))} (h : PartsOf size parts)
    (hslices : ∀ slice ∈ parts.flatten, slice ≠ []) (hne : parts ≠ []) :
    size * (parts.length - 1) < parts.flatten.flatten.length := by
  obtain ⟨full, last, rfl⟩ := (List.eq_nil_or_concat parts).resolve_left hne
  have hfull : full.flatten.flatten.length = size * full.length := by
    apply length_flatten_of_full
    simpa using h.full
  have hlast : 0 < last.flatten.length := by
    obtain ⟨slice, hslice⟩ := List.exists_mem_of_ne_nil _ (h.nonempty last (by simp))
    rw [List.length_pos_iff, ne_eq, List.flatten_eq_nil_iff]
    exact fun hempty => hslices slice (by simp [hslice]) (hempty slice hslice)
  have hsum : (full.concat last).flatten.flatten.length =
      full.flatten.flatten.length + last.flatten.length := by simp
  rw [hsum, hfull, List.length_concat, Nat.add_sub_cancel]
  exact Nat.lt_add_of_pos_right hlast

theorem rows_le_size {tasks : Nat} (htasks : 1 ≤ tasks) (rows : Nat) :
    rows ≤ rows ⌈/⌉ tasks * tasks := by
  rw [Nat.mul_comm]
  exact (ceilDiv_le_iff_le_mul htasks).mp le_rfl

theorem partition_of_empty (tasks : Nat) {batches : List (List α)} (h : batches.flatten = []) :
    partition tasks batches = [[]] := by
  rw [partition, h]
  rfl

/-- Where there are rows, the parts are what the loop ends with. -/
theorem fills_partition {tasks : Nat} (htasks : 1 ≤ tasks) {batches : List (List α)}
    (hrows : batches.flatten ≠ []) :
    Fills (batches.flatten.length ⌈/⌉ tasks) [] (batches.flatten.length ⌈/⌉ tasks) batches
      (partition tasks batches) := by
  have htotal := List.length_pos_iff.mpr hrows
  have hsize : (batches.flatten.length + (max tasks 1 - 1)) / max tasks 1 =
      batches.flatten.length ⌈/⌉ tasks := by
    rw [Nat.ceilDiv_eq_add_pred_div, max_eq_left htasks, Nat.add_sub_assoc htasks]
  have hpos : 0 < batches.flatten.length ⌈/⌉ tasks :=
    Nat.pos_of_mul_pos_right (Nat.lt_of_lt_of_le htotal (rows_le_size htasks _))
  unfold partition
  dsimp only
  rw [if_neg htotal.ne', hsize]
  exact fills_fillParts hpos hpos batches

theorem length_partition_le {tasks : Nat} (htasks : 1 ≤ tasks) (batches : List (List α)) :
    (partition tasks batches).length ≤ tasks := by
  by_cases hrows : batches.flatten = []
  · rw [partition_of_empty tasks hrows]
    exact htasks
  · have hparts := (fills_partition htasks hrows).partsOf (by simp)
    have hne : partition tasks batches ≠ [] := by
      intro hempty
      have hflat := flatten_partition tasks batches
      rw [hempty] at hflat
      exact hrows hflat.symm
    have hlt := hparts.lt_rows (fun _ => ne_nil_of_mem_partition) hne
    rw [flatten_partition] at hlt
    have hle := rows_le_size htasks batches.flatten.length
    have hcount := Nat.lt_of_mul_lt_mul_left (Nat.lt_of_lt_of_le hlt hle)
    omega

/-- Rows are cut without loss. The parts hold the rows of the batches in order, and there are at
most as many parts as tasks. Where there are rows, the loop that deals them out comes to its end
with these parts: no part and no slice is empty, and every part but the last holds as many rows as
the number of rows by the number of tasks, rounded up. Without a row, there is one part without a
slice. -/
theorem partition_losesNothing {tasks : Nat} (htasks : 1 ≤ tasks) (batches : List (List α)) :
    (partition tasks batches).flatten.flatten = batches.flatten ∧
      (partition tasks batches).length ≤ tasks ∧
      (batches.flatten ≠ [] →
        Fills (batches.flatten.length ⌈/⌉ tasks) [] (batches.flatten.length ⌈/⌉ tasks) batches
          (partition tasks batches) ∧
        (∀ part ∈ partition tasks batches, part ≠ [] ∧ ∀ slice ∈ part, slice ≠ []) ∧
        ∀ part ∈ (partition tasks batches).dropLast,
          part.flatten.length = batches.flatten.length ⌈/⌉ tasks) ∧
      (batches.flatten = [] → partition tasks batches = [[]]) := by
  refine ⟨flatten_partition tasks batches, length_partition_le htasks batches, ?_,
    partition_of_empty tasks⟩
  intro hrows
  have hfills := fills_partition htasks hrows
  have hparts := hfills.partsOf (by simp)
  refine ⟨hfills, fun part hpart => ⟨hparts.nonempty part hpart, fun slice hslice => ?_⟩,
    hparts.full⟩
  exact ne_nil_of_mem_partition (List.mem_flatten.mpr ⟨part, hpart, hslice⟩)

theorem partition_losesNothing_fiveRows :
    1 ≤ 2 ∧ [[1, 2, 3], [], [4, 5]].flatten ≠ [] ∧
      partition 2 [[1, 2, 3], [], [4, 5]] = [[[1, 2, 3]], [[4, 5]]] ∧
      (partition 2 [[1, 2, 3], [], [4, 5]]).length ≤ 2 ∧
      Fills ([[1, 2, 3], [], [4, 5]].flatten.length ⌈/⌉ 2) []
        ([[1, 2, 3], [], [4, 5]].flatten.length ⌈/⌉ 2) [[1, 2, 3], [], [4, 5]]
        (partition 2 [[1, 2, 3], [], [4, 5]]) ∧
      ∀ part ∈ (partition 2 [[1, 2, 3], [], [4, 5]]).dropLast, part.flatten.length = 3 := by
  have hrows : [[1, 2, 3], [], [4, 5]].flatten ≠ [] := by decide
  obtain ⟨-, hlength, hparts, -⟩ :=
    partition_losesNothing (by decide : 1 ≤ 2) [[1, 2, 3], [], [4, 5]]
  obtain ⟨hfills, -, hfull⟩ := hparts hrows
  exact ⟨by decide, hrows, by cbv, hlength, hfills, hfull⟩

end RelScript
