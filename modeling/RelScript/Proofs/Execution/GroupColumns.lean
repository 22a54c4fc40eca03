import RelScript.Execution.Aggregation

/-!
The columns that groups make: one for each key and behind them one for each measure, with an entry
for each group.
-/

namespace RelScript

variable {s : Schema}

theorem fields_keyColumns (keys : List (Expr × AnyCompiled s)) (groups : List Group) :
    (keyColumns keys groups).map (·.1) =
      keys.map fun k => ⟨k.1.groupName, k.2.2.declared, true⟩ := by
  have hfirst := List.zipIdx_map_fst 0 keys
  conv => rhs; rw [← hfirst]
  rw [keyColumns, List.map_map, List.map_map]
  rfl

theorem fields_measureColumns (measures : List (Measure s)) (groups : List Group) :
    (measureColumns measures groups).map (·.1) = measures.map Measure.field := by
  have hfirst := List.zipIdx_map_fst 0 measures
  conv => rhs; rw [← hfirst]
  rw [measureColumns, List.map_map, List.map_map]
  rfl

variable (keys : List (Expr × AnyCompiled s)) (measures : List (Measure s)) (groups : List Group)

theorem nullable_columns : ∀ column ∈ keyColumns keys groups ++ measureColumns measures groups,
    column.1.nullable = true := by
  rw [keyColumns, measureColumns, List.forall_mem_append, List.forall_mem_map, List.forall_mem_map]
  exact ⟨fun _ _ => rfl, fun _ _ => rfl⟩

theorem length_columns : ∀ column ∈ keyColumns keys groups ++ measureColumns measures groups,
    column.2.length = groups.length := by
  rw [keyColumns, measureColumns, List.forall_mem_append, List.forall_mem_map, List.forall_mem_map]
  exact ⟨fun _ _ => List.length_map _, fun _ _ => List.length_map _⟩

variable {keys measures} in
theorem columns_ne_nil (h : keys ≠ [] ∨ measures ≠ []) :
    keyColumns keys groups ++ measureColumns measures groups ≠ [] := by
  rcases h with h | h <;> simp [keyColumns, measureColumns, h]

end RelScript
