import RelScript.Proofs.Execution.IntegerGroups

/-!
The relation that groups make. Its columns are those of the keys and those of what the accumulators
come to, and it has a row for each group: its key, and behind it these results. All that can fail
about it are the results, and columns of types that no column is built of.
-/

namespace RelScript

section Tables

theorem Cell.isReadable_of_build {t : DataType} {cells : List Cell} {column : Column t}
    (h : build t cells = .ok column) : t.isReadable = true := by
  cases t <;> first | rfl | cases h

theorem Batch.exists_ofCells {count : Nat} {columns : List (Field × List Cell)}
    (hreadable : ∀ column ∈ columns, column.1.type.isReadable = true)
    (hback : ∀ column ∈ columns, ∀ c ∈ column.2, c.ComesBack column.1.type) :
    ∃ b, Batch.ofCells count columns = .ok b ∧ List.map Row.cells b =
      (transposeCells count (columns.map (·.2))).map (List.map .ok) := by
  induction columns with
  | nil =>
      refine ⟨_, rfl, ?_⟩
      show List.map Row.cells (List.replicate count Row.nil) = (List.replicate count []).map _
      rw [List.map_replicate, List.map_replicate]
      rfl
  | cons column columns ih =>
      obtain ⟨⟨name, t, nullable⟩, cells⟩ := column
      obtain ⟨hfirst, hothers⟩ := List.forall_mem_cons.mp hreadable
      obtain ⟨hcells, hrest⟩ := List.forall_mem_cons.mp hback
      obtain ⟨b, hb, hrows⟩ := ih hothers hrest
      obtain ⟨entries, hentries⟩ := exists_forall₂ hcells
      have hbuild : Cell.build t cells = .ok entries := by
        rw [Cell.build_of_isReadable hfirst, mapM_eq_ok]
        exact hentries.imp fun _ _ h => h.1
      have hread : entries.map Cell.read = cells.map .ok := by
        rw [← List.forall₂_eq_eq_eq, List.forall₂_map_left_iff, List.forall₂_map_right_iff]
        exact hentries.flip.imp fun _ _ h => h.2
      refine ⟨Batch.consColumn entries b,
        bind_eq_ok.mpr ⟨entries, hbuild, bind_eq_ok.mpr ⟨b, hb, rfl⟩⟩, ?_⟩
      calc List.map Row.cells (List.zipWith .cons entries b)
          = List.zipWith (fun entry (row : Row _) => Cell.read entry :: row.cells) entries b :=
            List.map_zipWith
        _ = List.zipWith List.cons (entries.map Cell.read) (List.map Row.cells b) :=
            List.zipWith_map.symm
        _ = _ := by
            rw [hread, hrows, List.map_cons, transposeCells_cons, List.map_zipWith,
              List.zipWith_map]
            rfl

theorem Batch.isReadable_of_ofCells {count : Nat} {columns : List (Field × List Cell)}
    {b : Batch (columns.map (·.1))} (h : Batch.ofCells count columns = .ok b) :
    ∀ column ∈ columns, column.1.type.isReadable = true := by
  intro column hcolumn
  obtain ⟨i, hi⟩ := List.getElem?_of_mem hcolumn
  obtain ⟨_, hbuild, -⟩ := Batch.getElem?_ofCells h hi
  exact Cell.isReadable_of_build hbuild

theorem groupsToRelation_eq_ok {columns : List (Field × List Cell)} {groups : List Group}
    (hne : groups ≠ []) (hsome : columns ≠ [])
    (hnullable : ∀ column ∈ columns, column.1.nullable = true) {out : Relation} :
    groupsToRelation columns groups = .ok out ↔
      ∃ b, Batch.ofCells groups.length columns = .ok b ∧ out = ⟨columns.map (·.1), [b]⟩ := by
  have hcheck : ∀ b : Batch (columns.map (·.1)), b.check .aggregate = .ok b :=
    Batch.check_of_nullable (mt List.map_eq_nil_iff.mp hsome) (List.forall_mem_map.mpr hnullable)
  rw [groupsToRelation, if_neg (by simpa using hne), bind_eq_ok]
  refine exists_congr fun b => and_congr_right fun _ => ?_
  rw [hcheck]
  exact pure_eq_ok.trans eq_comm

/-- Groups make a relation if there are none, or if their columns are of readable types. -/
theorem exists_groupsToRelation_iff {columns : List (Field × List Cell)} {groups : List Group}
    (hsome : columns ≠ []) (hnullable : ∀ column ∈ columns, column.1.nullable = true)
    (hback : ∀ column ∈ columns, column.1.type.isReadable = true →
      ∀ c ∈ column.2, c.ComesBack column.1.type) :
    (∃ out, groupsToRelation columns groups = .ok out) ↔
      groups = [] ∨ ∀ column ∈ columns, column.1.type.isReadable = true := by
  by_cases hne : groups = []
  · subst hne
    exact iff_of_true ⟨_, rfl⟩ (.inl rfl)
  · simp only [groupsToRelation_eq_ok hne hsome hnullable, hne, false_or]
    constructor
    · rintro ⟨_, b, hb, -⟩
      exact Batch.isReadable_of_ofCells hb
    · intro hreadable
      obtain ⟨b, hb, -⟩ := Batch.exists_ofCells hreadable
        fun column hcolumn => hback column hcolumn (hreadable column hcolumn)
      exact ⟨_, b, hb, rfl⟩

theorem cells_of_groupsToRelation {columns : List (Field × List Cell)} {groups : List Group}
    (hsome : columns ≠ []) (hnullable : ∀ column ∈ columns, column.1.nullable = true)
    (hback : ∀ column ∈ columns, column.1.type.isReadable = true →
      ∀ c ∈ column.2, c.ComesBack column.1.type) {out : Relation}
    (h : groupsToRelation columns groups = .ok out)
    (hlength : ∀ column ∈ columns, column.2.length = groups.length) :
    List.map Row.cells out.rows =
      (transposeCells groups.length (columns.map (·.2))).map (List.map .ok) := by
  by_cases hne : groups = []
  · subst hne
    cases h
    have hrows : transposeCells 0 (columns.map (·.2)) = [] := by
      rw [← List.length_eq_zero_iff]
      exact length_transposeCells (List.forall_mem_map.mpr hlength)
    exact (congrArg (List.map (List.map Except.ok)) hrows).symm
  · obtain ⟨b, hb, rfl⟩ := (groupsToRelation_eq_ok hne hsome hnullable).mp h
    have hreadable := Batch.isReadable_of_ofCells hb
    obtain ⟨b', hb', hrows⟩ := Batch.exists_ofCells hreadable
      fun column hcolumn => hback column hcolumn (hreadable column hcolumn)
    cases hb.symm.trans hb'
    show List.map Row.cells [b].flatten = _
    rw [List.flatten_singleton]
    exact hrows

end Tables

section Groups

/-- The cells of a group's row: its key, and what its accumulators come to. -/
def Group.row (g : Group) : List Cell := g.key ++ g.gathered.map Accumulator.result

variable {s : Schema} {keys : List (Expr × AnyCompiled s)} {measures : List (Measure s)}
  {groups : List Group}

theorem map_getElem?_zipIdx {α β : Type} {items : List α} {entries : List β}
    (h : entries.length = items.length) (default : β) :
    items.zipIdx.map (fun item => entries[item.2]?.getD default) = entries := by
  apply List.ext_getElem
  · simp [h]
  · intro i hi hi'
    simp [hi']

theorem transposeCells_groups (hkeys : ∀ g ∈ groups, g.key.length = keys.length)
    (hgathered : ∀ g ∈ groups, g.gathered.length = measures.length) :
    transposeCells groups.length
        ((keyColumns keys groups ++ measureColumns measures groups).map (·.2)) =
      groups.map Group.row := by
  have hcolumns : (keyColumns keys groups ++ measureColumns measures groups).map (·.2) =
      (keys.zipIdx.map (fun k (g : Group) => g.key[k.2]?.getD .missing) ++
        measures.zipIdx.map fun m (g : Group) =>
          (g.gathered[m.2]?.map Accumulator.result).getD .missing).map fun entry =>
            groups.map entry := by
    rw [measureColumns, keyColumns, List.map_append, List.map_append, List.map_map,
      List.map_map, List.map_map, List.map_map]
    rfl
  rw [hcolumns, transposeCells_map]
  refine List.map_congr_left fun g hg => ?_
  rw [List.map_append, List.map_map, List.map_map, Group.row]
  congr 1
  · exact map_getElem?_zipIdx (hkeys g hg) _
  · have hlength : (g.gathered.map Accumulator.result).length = measures.length := by
      rw [List.length_map, hgathered g hg]
    rw [← map_getElem?_zipIdx hlength .missing]
    exact List.map_congr_left fun m _ => by rw [List.getElem?_map]; rfl

end Groups

end RelScript
