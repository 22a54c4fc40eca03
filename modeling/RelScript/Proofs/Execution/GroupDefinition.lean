import RelScript.Proofs.Execution.CellGroups
import RelScript.Proofs.Execution.GroupTable
import RelScript.Proofs.Execution.IntegerPromotion

/-!
Grouping by its definition. An aggregation gives one row for each key that the rows have, in the
order in which the keys first appear. The row starts with the key, and behind it stands what every
aggregate function defines for the cells of that key.
-/

namespace RelScript

/-- The values of an expression: their type, and the cells that they are read as. -/
structure CellColumn where
  type : DataType
  cells : List Cell

/-- The rows that some columns have: one cell of each column. -/
def cellRows (count : Nat) (columns : List CellColumn) : List (List Cell) :=
  transposeCells count (columns.map (·.cells))

/-- Whether an expression has the values of a column for all rows of a relation. -/
def Expr.Reads (e : Expr) (r : Relation) (b : ScalarBindings) (c : CellColumn) : Prop :=
  ∃ values : Column c.type, e.values r.schema b r.rows = .ok ⟨c.type, values⟩ ∧
    values.mapM Cell.read = .ok c.cells

section Reading

variable {s : Schema} {rows : Batch s}

/-- Whether a compiled expression has the values of a column for some rows. -/
def AnyCompiled.Reads (x : AnyCompiled s) (rows : Batch s) (c : CellColumn) : Prop :=
  ∃ (e : Compiled s c.type) (values : Column c.type), x = ⟨c.type, e⟩ ∧
    e.eval rows = .ok values ∧ values.mapM Cell.read = .ok c.cells

theorem Compiled.isReadable_declared {t : DataType} (x : Compiled s t) :
    x.declared.isReadable = t.isReadable := by
  induction x with
  | @arith a b op l r ihl ihr =>
      refine Eq.trans (show l.declared.isReadable = a.isReadable from ihl) ?_
      unfold Arithmetic.resultType
      split <;> rfl
  | _ => rfl

namespace AnyCompiled.Reads

variable {x : AnyCompiled s} {c : CellColumn}

theorem length (h : x.Reads rows c) : c.cells.length = rows.length := by
  obtain ⟨e, values, rfl, heval, hcells⟩ := h
  rw [← (mapM_eq_ok.mp hcells).length_eq, e.rowwise_eval.length heval]

theorem exists_entry (h : x.Reads rows c) :
    ∀ cell ∈ c.cells, ∃ entry : c.type.Entry, Cell.read entry = .ok cell := by
  obtain ⟨e, values, rfl, heval, hcells⟩ := h
  intro cell hcell
  obtain ⟨entry, -, hread⟩ := forall_right_of_forall₂ (mapM_eq_ok.mp hcells) cell hcell
  exact ⟨entry, hread⟩

theorem fits (h : x.Reads rows c) : ∀ cell ∈ c.cells, cell.Fits c.type := by
  intro cell hcell
  obtain ⟨entry, hentry⟩ := h.exists_entry cell hcell
  have hfits := Cell.safe_read entry
  rwa [hentry] at hfits

theorem comesBack (h : x.Reads rows c) (hreadable : c.type.isReadable = true) :
    ∀ cell ∈ c.cells, cell.ComesBack c.type := by
  intro cell hcell
  obtain ⟨entry, hentry⟩ := h.exists_entry cell hcell
  exact Cell.comesBack_of_read hreadable hentry

theorem isReadable_declared (h : x.Reads rows c) :
    x.2.declared.isReadable = c.type.isReadable := by
  obtain ⟨e, values, rfl, -⟩ := h
  exact e.isReadable_declared

theorem declared_eq (h : x.Reads rows c) (hreadable : c.type.isReadable = true) :
    x.2.declared = c.type := by
  obtain ⟨e, values, rfl, -⟩ := h
  refine e.declared_eq fun k hk => ?_
  rw [hk] at hreadable
  cases hreadable

end AnyCompiled.Reads

theorem Expr.Reads.exists_compile {batches : List (Batch s)} {e : Expr} {b : ScalarBindings}
    {c : CellColumn} (h : e.Reads ⟨s, batches⟩ b c) :
    ∃ x, e.compile s b = .ok x ∧ AnyCompiled.Reads x batches.flatten c := by
  obtain ⟨values, hvalues, hcells⟩ := h
  obtain ⟨⟨t, x⟩, column, hcompile, heval, hsame⟩ := Expr.values_eq_ok.mp hvalues
  cases hsame
  exact ⟨_, hcompile, x, values, rfl, heval, hcells⟩

theorem length_cellRows {es : List (AnyCompiled s)} {columns : List CellColumn}
    (h : List.Forall₂ (fun x c => AnyCompiled.Reads x rows c) es columns) :
    (cellRows rows.length columns).length = rows.length := by
  refine length_transposeCells (List.forall_mem_map.mpr fun c hc => ?_)
  obtain ⟨x, -, hx⟩ := forall_right_of_forall₂ h c hc
  exact hx.length

theorem evalCells_of_reads {es : List (AnyCompiled s)} {columns : List CellColumn}
    (h : List.Forall₂ (fun x c => AnyCompiled.Reads x rows c) es columns) :
    evalCells es rows =
      .ok ((cellRows rows.length columns).map (List.map .ok)) := by
  have hcolumns : (es.mapM fun x => do return (← x.2.eval rows).map Cell.read) =
      (.ok ((columns.map (·.cells)).map (List.map .ok)) : Outcome _) := by
    rw [mapM_eq_ok, List.map_map, List.forall₂_map_right_iff]
    refine h.imp fun x c hx => ?_
    obtain ⟨e, values, rfl, heval, hcells⟩ := hx
    refine bind_eq_ok.mpr ⟨values, heval, congrArg Except.ok ?_⟩
    rw [← List.forall₂_eq_eq_eq, List.forall₂_map_left_iff, Function.comp_apply,
      List.forall₂_map_right_iff]
    exact mapM_eq_ok.mp hcells
  rw [evalCells, hcolumns]
  exact congrArg Except.ok (transposeCells_convert _ _ _)

theorem addRow_ok (start : List Accumulator) (groups : List Group) (key : List Cell)
    (args : List (Outcome Cell)) :
    addRow start groups (key.map .ok, args) = addToGroups start key args groups := by
  have hkey : (key.map .ok).mapM id = (.ok key : Outcome _) := by
    rw [mapM_eq_ok, List.forall₂_map_left_iff, List.forall₂_same]
    exact fun _ _ => rfl
  rw [addRow, hkey]
  rfl

theorem addBatch_of_reads {keys : List (AnyCompiled s)} {measures : List (Measure s)}
    {groupings arguments : List CellColumn}
    (hkeys : List.Forall₂ (fun x c => AnyCompiled.Reads x rows c) keys groupings)
    (harguments : List.Forall₂ (fun m c => AnyCompiled.Reads m.arg rows c) measures arguments) :
    addBatch keys measures [] rows = addRows (measures.map Measure.start)
      (keyedRows (cellRows rows.length groupings)
        (arguments.map (·.cells))) [] := by
  have hargs : List.Forall₂ (fun x c => AnyCompiled.Reads x rows c) (measures.map (·.arg))
      arguments := List.forall₂_map_left_iff.mpr harguments
  rw [addBatch, evalCells_of_reads hkeys, evalCells_of_reads hargs, addRows, keyedRows,
    length_cellRows hkeys]
  show List.foldlM _ _ (List.zip _ _) = _
  rw [List.zip_map_left, List.foldlM_map]
  exact congrArg (fun step => List.foldlM step [] _) (funext fun groups => funext fun row =>
    addRow_ok _ groups row.1 row.2)

end Reading

/-- The definition of grouping rows by keys of the given types. The grouping fails if a function
fails for the cells of a key, or if there are rows and a key type is not one of cells. Otherwise
there is one row for each key, in the order in which the keys first appear: the key, and behind it
what the functions define for the cells of the key, in the order of the rows. -/
structure GroupsBy (keys : List (List Cell)) (keyTypes : List DataType)
    (aggregates : List (AggregateFn × CellColumn)) (result : Outcome Relation) : Prop where
  fails_iff : (∃ e, result = .error e) ↔
    (∃ key ∈ keys, ∃ a ∈ aggregates, a.1.Fails a.2.type (rowsOf key (keys.zip a.2.cells))) ∨
      keys ≠ [] ∧ ∃ t ∈ keyTypes, t.isReadable = false
  rows : ∀ out, result = .ok out → List.Forall₂ (fun key (row : Row out.schema) =>
    ∃ results, row.cells = (key ++ results).map .ok ∧ List.Forall₂ (fun a c =>
      a.1.Gives a.2.type (rowsOf key (keys.zip a.2.cells)) c) aggregates results)
    keys.eraseDups out.rows

section Definition

variable {s : Schema} {rows : Batch s} {compiled : List (Expr × AnyCompiled s)}
  {measures : List (Measure s)} {groupings arguments : List CellColumn} {keys : List (List Cell)}
  {groups : List Group}

/-- Whether every group has its key, and what the measures gather from the cells of that key. -/
def Gathered (keys : List (List Cell)) (measures : List (Measure s))
    (arguments : List CellColumn) (groups : List Group) : Prop :=
  List.Forall₂ (fun key g => g.key = key ∧
      List.Forall₂ (fun (p : Measure s × CellColumn) a =>
        p.1.start.addCells (rowsOf key (keys.zip p.2.cells)) = .ok a)
        (measures.zip arguments) g.gathered)
    keys.eraseDups groups

theorem Gathered.eq_nil_iff (h : Gathered keys measures arguments groups) :
    groups = [] ↔ keys = [] := by
  rw [← List.length_eq_zero_iff, ← h.length_eq, List.length_eq_zero_iff]
  cases keys <;> simp [List.eraseDups_cons]

theorem Gathered.key_mem (h : Gathered keys measures arguments groups) :
    ∀ g ∈ groups, g.key ∈ keys := by
  intro g hg
  obtain ⟨key, hkey, rfl, -⟩ := forall_right_of_forall₂ h g hg
  exact List.mem_eraseDups.mp hkey

theorem Gathered.length_gathered (h : Gathered keys measures arguments groups)
    (hlength : measures.length = arguments.length) :
    ∀ g ∈ groups, g.gathered.length = measures.length := by
  intro g hg
  obtain ⟨key, -, -, hgathered⟩ := forall_right_of_forall₂ h g hg
  rw [← hgathered.length_eq, List.length_zip, ← hlength, Nat.min_self]

theorem gathered_of_addRows (hlength : measures.length = arguments.length)
    (hcells : ∀ c ∈ arguments, c.cells.length = keys.length)
    (h : addRows (measures.map Measure.start) (keyedRows keys (arguments.map (·.cells))) [] =
      .ok groups) : Gathered keys measures arguments groups := by
  have hstarts : (measures.map Measure.start).length = (arguments.map (·.cells)).length := by
    rw [List.length_map, List.length_map, hlength]
  refine (forall₂_of_keyedRows hstarts (List.forall_mem_map.mpr hcells) h).imp ?_
  rintro key g ⟨hkey, hgathered⟩
  rw [List.zip_map, List.forall₂_map_left_iff] at hgathered
  exact ⟨hkey, hgathered⟩

theorem exists_gathered_iff (hlength : measures.length = arguments.length)
    (hcells : ∀ c ∈ arguments, c.cells.length = keys.length) :
    (∃ groups, addRows (measures.map Measure.start) (keyedRows keys (arguments.map (·.cells))) [] =
      .ok groups) ↔
        ∀ key ∈ keys, ∀ p ∈ measures.zip arguments, ∃ a,
          p.1.start.addCells (rowsOf key (keys.zip p.2.cells)) = .ok a := by
  have hstarts : (measures.map Measure.start).length = (arguments.map (·.cells)).length := by
    rw [List.length_map, List.length_map, hlength]
  rw [exists_addRows_keyedRows_iff hstarts (List.forall_mem_map.mpr hcells), List.zip_map]
  simp only [List.forall_mem_map, Prod.map_fst, Prod.map_snd]

theorem mem_rowsOf {α : Type} {key : List Cell} {keys : List (List Cell)} {items : List α}
    {item : α} (h : item ∈ rowsOf key (keys.zip items)) : item ∈ items := by
  obtain ⟨p, hp, rfl⟩ := List.mem_map.mp h
  exact (List.of_mem_zip (List.mem_of_mem_filter hp)).2

/-- Whether a measure's argument has the values of a column, of a type that analysis gives it. -/
structure Measure.Takes (m : Measure s) (rows : Batch s) (c : CellColumn) : Prop where
  reads : AnyCompiled.Reads m.arg rows c
  takes : m.fn.Takes c.type

namespace Measure.Takes

variable {m : Measure s} {c : CellColumn}

theorem type_arg (h : m.Takes rows c) : m.arg.1 = c.type := by
  obtain ⟨e, values, harg, -⟩ := h.reads
  rw [harg]

theorem type_eq (h : m.Takes rows c) : m.type = m.fn.resultType c.type := by
  have ht := h.takes
  rw [← h.type_arg] at ht ⊢
  exact Measure.type_eq ht

theorem isReadable (h : m.Takes rows c) : m.type.isReadable = true := by
  rcases h.type_eq ▸ h.takes.resultType_cases with ht | ht | ht <;> rw [ht] <;> rfl

theorem comesTo (h : m.Takes rows c) (key : List Cell) (keys : List (List Cell)) :
    m.fn.ComesTo c.type (rowsOf key (keys.zip c.cells))
      ((m.start.addCells (rowsOf key (keys.zip c.cells))).map Accumulator.result) := by
  have hfits : ∀ cell ∈ rowsOf key (keys.zip c.cells), cell.Fits c.type := fun cell hcell =>
    h.reads.fits cell (mem_rowsOf hcell)
  have ht := h.takes
  rw [← h.type_arg] at ht hfits ⊢
  exact Measure.comesTo ht hfits

theorem comesBack (h : m.Takes rows c) {key : List Cell} {keys : List (List Cell)} {cell : Cell}
    (hgives : m.fn.Gives c.type (rowsOf key (keys.zip c.cells)) cell) :
    cell.ComesBack m.type := by
  rw [h.type_eq]
  exact hgives.comesBack h.takes fun cell hcell => h.reads.fits cell (mem_rowsOf hcell)

end Measure.Takes

theorem isReadable_keyColumns_iff
    (hkeys : List.Forall₂ (fun k c => AnyCompiled.Reads k.2 rows c) compiled groupings) :
    (∀ column ∈ keyColumns compiled groups, column.1.type.isReadable = true) ↔
      ∀ c ∈ groupings, c.type.isReadable = true := by
  rw [keyColumns, List.forall_mem_map]
  constructor
  · intro h c hc
    obtain ⟨k, hk, hreads⟩ := forall_right_of_forall₂ hkeys c hc
    obtain ⟨i, hi⟩ := List.getElem?_of_mem hk
    rw [← hreads.isReadable_declared]
    exact h (k, i) (List.mem_zipIdx_iff_getElem?.mpr hi)
  · rintro h ⟨k, i⟩ hki
    have hk := List.mem_of_getElem? (List.mem_zipIdx_iff_getElem?.mp hki)
    obtain ⟨c, hc, hreads⟩ := forall_right_of_forall₂ hkeys.flip k hk
    exact (AnyCompiled.Reads.isReadable_declared hreads).trans (h c hc)

theorem comesBack_keyColumns
    (hkeys : List.Forall₂ (fun k c => AnyCompiled.Reads k.2 rows c) compiled groupings)
    (hgroups : ∀ g ∈ groups, g.key ∈ cellRows rows.length groupings) :
    ∀ column ∈ keyColumns compiled groups, column.1.type.isReadable = true →
      ∀ c ∈ column.2, c.ComesBack column.1.type := by
  intro column hcolumn hreadable cell hcell
  obtain ⟨⟨k, i⟩, hki, rfl⟩ := List.mem_map.mp hcolumn
  obtain ⟨g, hg, rfl⟩ := List.mem_map.mp hcell
  obtain ⟨c, hc, hreads⟩ :=
    exists_getElem?_of_forall₂ hkeys (List.mem_zipIdx_iff_getElem?.mp hki)
  have hcells : List.Forall₂ (fun (c : CellColumn) cells => ∀ cell ∈ cells,
      c.type.isReadable = true → cell.ComesBack c.type) groupings (groupings.map (·.cells)) := by
    rw [List.forall₂_map_right_iff, List.forall₂_same]
    intro c hc cell hcell hreadable
    obtain ⟨k, -, hreads⟩ := forall_right_of_forall₂ hkeys c hc
    exact hreads.comesBack hreadable cell hcell
  obtain ⟨cell, hcell, hback⟩ :=
    exists_getElem?_of_forall₂ (forall₂_of_mem_transposeCells hcells (hgroups g hg)) hc
  have htype : c.type.isReadable = true := by rwa [← hreads.isReadable_declared]
  dsimp only
  rw [hcell, Option.getD_some, hreads.declared_eq htype]
  exact hback htype

theorem Gathered.gives (h : Gathered keys measures arguments groups)
    (hmeasures : List.Forall₂ (fun m c => m.Takes rows c) measures arguments) :
    ∀ g ∈ groups, List.Forall₂ (fun (p : Measure s × CellColumn) c =>
        p.1.fn.Gives p.2.type (rowsOf g.key (keys.zip p.2.cells)) c)
      (measures.zip arguments) (g.gathered.map Accumulator.result) := by
  intro g hg
  obtain ⟨key, -, rfl, hgather⟩ := forall_right_of_forall₂ h g hg
  have htakes : ∀ p ∈ measures.zip arguments, p.1.Takes rows p.2 := fun p hp =>
    List.forall₂_zip hmeasures hp
  rw [List.forall₂_map_right_iff]
  refine ((List.forall₂_and_left _ _).mpr ⟨htakes, hgather⟩).imp ?_
  rintro p a ⟨htakes, hadd⟩
  refine (htakes.comesTo g.key keys).gives a.result ?_
  rw [hadd]
  rfl

theorem comesBack_results (h : Gathered keys measures arguments groups)
    (hmeasures : List.Forall₂ (fun m c => m.Takes rows c) measures arguments) :
    ∀ column ∈ measureColumns measures groups, ∀ c ∈ column.2, c.ComesBack column.1.type := by
  have hgives := h.gives hmeasures
  rw [measureColumns, List.forall_mem_map]
  rintro ⟨m, i⟩ hmi cell hcell
  obtain ⟨g, hg, rfl⟩ := List.mem_map.mp hcell
  have hi := List.mem_zipIdx_iff_getElem?.mp hmi
  obtain ⟨c, hc, htakes⟩ := exists_getElem?_of_forall₂ hmeasures hi
  have hpair : (measures.zip arguments)[i]? = some (m, c) :=
    List.getElem?_zip_eq_some.mpr ⟨hi, hc⟩
  obtain ⟨cell, hcell, hcell'⟩ := exists_getElem?_of_forall₂ (hgives g hg) hpair
  rw [List.getElem?_map] at hcell
  dsimp only
  rw [hcell, Option.getD_some]
  exact htakes.comesBack hcell'

section Table

variable (hkeys : List.Forall₂ (fun k c => AnyCompiled.Reads k.2 rows c) compiled groupings)
  (hmeasures : List.Forall₂ (fun m c => m.Takes rows c) measures arguments)
  (hsome : compiled ≠ [] ∨ measures ≠ [])
  (hgathered : Gathered (cellRows rows.length groupings) measures arguments
    groups)
include hkeys hmeasures hsome hgathered

omit hsome in
theorem comesBack_columns : ∀ column ∈ keyColumns compiled groups ++ measureColumns measures groups,
    column.1.type.isReadable = true → ∀ c ∈ column.2, c.ComesBack column.1.type := by
  rw [List.forall_mem_append]
  refine ⟨comesBack_keyColumns hkeys hgathered.key_mem, fun column hcolumn _ => ?_⟩
  exact comesBack_results hgathered hmeasures column hcolumn

theorem exists_relation_iff :
    (∃ out, groupsToRelation (keyColumns compiled groups ++ measureColumns measures groups) groups =
        .ok out) ↔
      cellRows rows.length groupings = [] ∨
        ∀ c ∈ groupings, c.type.isReadable = true := by
  have hreadable : ∀ column ∈ measureColumns measures groups, column.1.type.isReadable = true := by
    rw [measureColumns, List.forall_mem_map]
    rintro ⟨m, i⟩ hmi
    have hm := List.mem_of_getElem? (List.mem_zipIdx_iff_getElem?.mp hmi)
    obtain ⟨c, -, htakes⟩ := forall_right_of_forall₂ hmeasures.flip m hm
    exact Measure.Takes.isReadable htakes
  rw [exists_groupsToRelation_iff (columns_ne_nil groups hsome) (nullable_columns _ _ _)
    (comesBack_columns hkeys hmeasures hgathered), hgathered.eq_nil_iff,
    List.forall_mem_append, isReadable_keyColumns_iff hkeys]
  exact or_congr_right (and_iff_left hreadable)

theorem forall₂_of_groupsToRelation {out : Relation}
    (hout : groupsToRelation (keyColumns compiled groups ++ measureColumns measures groups) groups =
      .ok out) :
    List.Forall₂ (fun g (row : Row out.schema) => row.cells = g.row.map .ok) groups out.rows := by
  have hlength : ∀ g ∈ groups, g.key.length = compiled.length := by
    intro g hg
    have hcolumns : List.Forall₂ (fun (_ : CellColumn) column => ∀ cell ∈ column, True) groupings
        (groupings.map (·.cells)) := by simp [List.forall₂_same]
    rw [hkeys.length_eq]
    exact (forall₂_of_mem_transposeCells hcolumns (hgathered.key_mem g hg)).length_eq.symm
  have hcells := cells_of_groupsToRelation (columns_ne_nil groups hsome) (nullable_columns _ _ _)
    (comesBack_columns hkeys hmeasures hgathered) hout (length_columns _ _ _)
  rw [transposeCells_groups hlength (hgathered.length_gathered hmeasures.length_eq), List.map_map,
    ← List.forall₂_eq_eq_eq, List.forall₂_map_left_iff,
    List.forall₂_map_right_iff] at hcells
  exact hcells.flip

end Table

theorem forall_exists_addCells_iff
    (hmeasures : List.Forall₂ (fun m c => m.Takes rows c) measures arguments) :
    (∀ key ∈ keys, ∀ p ∈ measures.zip arguments, ∃ a,
      p.1.start.addCells (rowsOf key (keys.zip p.2.cells)) = .ok a) ↔
        ∀ key ∈ keys, ∀ p ∈ measures.zip arguments,
          ¬ p.1.fn.Fails p.2.type (rowsOf key (keys.zip p.2.cells)) := by
  refine forall₂_congr fun key _ => forall₂_congr fun p hp => ?_
  rw [← ((List.forall₂_zip hmeasures hp).comesTo key keys).fails_iff, exists_error_iff, not_not]
  cases p.1.start.addCells (rowsOf key (keys.zip p.2.cells)) <;> simp [Except.map]

/-- Groups rows that have been read. -/
def groupRows (compiled : List (Expr × AnyCompiled s)) (measures : List (Measure s))
    (keys : List (List Cell)) (arguments : List CellColumn) : Outcome Relation := do
  let groups ← addRows (measures.map Measure.start) (keyedRows keys (arguments.map (·.cells))) []
  groupsToRelation (keyColumns compiled groups ++ measureColumns measures groups) groups

section Run

variable (hkeys : List.Forall₂ (fun k c => AnyCompiled.Reads k.2 rows c) compiled groupings)
  (hmeasures : List.Forall₂ (fun m c => m.Takes rows c) measures arguments)
  (hsome : compiled ≠ [] ∨ measures ≠ [])
include hkeys hmeasures

theorem length_arguments :
    ∀ c ∈ arguments, c.cells.length = (cellRows rows.length groupings).length := by
  intro c hc
  obtain ⟨m, -, hm⟩ := forall_right_of_forall₂ hmeasures c hc
  rw [length_cellRows (List.forall₂_map_left_iff.mpr hkeys), hm.reads.length]

include hsome

/-- Rows are grouped exactly if no function fails for a key, and the keys are of types of cells. -/
theorem exists_groupRows_iff :
    (∃ out, groupRows compiled measures (cellRows rows.length groupings) arguments = .ok out) ↔
      (∀ key ∈ cellRows rows.length groupings, ∀ p ∈ measures.zip arguments,
        ¬ p.1.fn.Fails p.2.type (rowsOf key ((cellRows rows.length groupings).zip p.2.cells))) ∧
      (cellRows rows.length groupings = [] ∨ ∀ c ∈ groupings, c.type.isReadable = true) := by
  have hcells := length_arguments hkeys hmeasures
  rw [← forall_exists_addCells_iff hmeasures, ← exists_gathered_iff hmeasures.length_eq hcells]
  constructor
  · rintro ⟨out, h⟩
    obtain ⟨groups, hgroups, hout⟩ := bind_eq_ok.mp h
    have hgathered := gathered_of_addRows hmeasures.length_eq hcells hgroups
    exact ⟨⟨groups, hgroups⟩,
      (exists_relation_iff hkeys hmeasures hsome hgathered).mp ⟨out, hout⟩⟩
  · rintro ⟨⟨groups, hgroups⟩, hreadable⟩
    have hgathered := gathered_of_addRows hmeasures.length_eq hcells hgroups
    obtain ⟨out, hout⟩ := (exists_relation_iff hkeys hmeasures hsome hgathered).mpr hreadable
    exact ⟨out, bind_eq_ok.mpr ⟨groups, hgroups, hout⟩⟩

theorem groupsBy_groupRows :
    GroupsBy (cellRows rows.length groupings) (groupings.map (·.type))
      ((measures.map (·.fn)).zip arguments)
      (groupRows compiled measures (cellRows rows.length groupings) arguments) := by
  have hcells := length_arguments hkeys hmeasures
  constructor
  · rw [exists_error_iff, exists_groupRows_iff hkeys hmeasures hsome, List.zip_map_left]
    simp only [not_and_or, not_or, not_forall, not_not, exists_prop, List.mem_map,
      exists_exists_and_eq_and, Prod.map_fst, Prod.map_snd, id_eq, Bool.not_eq_true, ne_eq]
  · intro out h
    obtain ⟨groups, hgroups, hout⟩ := bind_eq_ok.mp h
    have hgathered := gathered_of_addRows hmeasures.length_eq hcells hgroups
    have hgives := hgathered.gives hmeasures
    have hrows := forall₂_of_groupsToRelation hkeys hmeasures hsome hgathered hout
    refine forall₂_trans (fun key g row hkey hrow => ?_) hgathered
      ((List.forall₂_and_left _ _).mpr ⟨hgives, hrows⟩)
    obtain ⟨rfl, -⟩ := hkey
    refine ⟨g.gathered.map Accumulator.result, hrow.2, ?_⟩
    rw [List.zip_map_left, List.forall₂_map_left_iff]
    exact hrow.1

end Run

end Definition

section Relations

variable {keys : List (List Cell)} {keyTypes : List DataType}
  {aggregates : List (AggregateFn × CellColumn)} {result result' : Outcome Relation}

theorem GroupsBy.congr (h : GroupsBy keys keyTypes aggregates result)
    (hresult : Alike Eq result result') : GroupsBy keys keyTypes aggregates result' := by
  constructor
  · rw [← h.fails_iff, exists_error_iff, exists_error_iff, hresult.exists_ok_iff]
  · rintro out rfl
    cases result with
    | error e => cases hresult
    | ok out' =>
        obtain rfl : out' = out := hresult
        exact h.rows out' rfl

theorem aggregateRelation_of_compiled {s : Schema} {batches : List (Batch s)} {keys : List Expr}
    {aggregates : List (Named Aggregate)} {b : ScalarBindings}
    {compiled : List (Expr × AnyCompiled s)} {measures : List (Measure s)}
    (hkeys : (keys.mapM fun k => do return (k, ← k.compile s b)) = .ok compiled)
    (hmeasures : aggregates.mapM (compileMeasure s b) = .ok measures) :
    aggregateRelation ⟨s, batches⟩ keys aggregates b = (do
      let groups ← batches.foldlM (addBatch (compiled.map (·.2)) measures) []
      groupsToRelation (keyColumns compiled groups ++ measureColumns measures groups) groups) := by
  rw [aggregateRelation, hkeys, hmeasures]
  rfl

theorem map_fn_of_compileMeasure {s : Schema} {aggregates : List (Named Aggregate)}
    {b : ScalarBindings} {measures : List (Measure s)}
    (h : aggregates.mapM (compileMeasure s b) = .ok measures) :
    measures.map (·.fn) = aggregates.map (·.value.fn) := by
  rw [← List.forall₂_eq_eq_eq, List.forall₂_map_left_iff, List.forall₂_map_right_iff]
  refine (mapM_eq_ok.mp h).flip.imp fun m a ha => ?_
  obtain ⟨x, -, ha⟩ := bind_eq_ok.mp ha
  cases ha
  rfl

theorem alike_groupRows {s : Schema} {batches : List (Batch s)} {keys : List Expr}
    {aggregates : List (Named Aggregate)} {b : ScalarBindings}
    {compiled : List (Expr × AnyCompiled s)} {measures : List (Measure s)}
    {groupings arguments : List CellColumn}
    (hcompiled : (keys.mapM fun k => do return (k, ← k.compile s b)) = .ok compiled)
    (hmeasures : aggregates.mapM (compileMeasure s b) = .ok measures)
    (hreads : List.Forall₂ (fun k c => AnyCompiled.Reads k.2 batches.flatten c) compiled groupings)
    (htakes : List.Forall₂ (fun m c => m.Takes batches.flatten c) measures arguments) :
    Alike Eq (groupRows compiled measures (cellRows batches.flatten.length groupings) arguments)
      (aggregateRelation ⟨s, batches⟩ keys aggregates b) := by
  have hkeys : List.Forall₂ (fun k c => AnyCompiled.Reads k batches.flatten c)
      (compiled.map (·.2)) groupings := List.forall₂_map_left_iff.mpr hreads
  by_cases hne : batches = []
  · -- Nothing is evaluated for no batches, and there are no groups.
    subst hne
    have hnone : cellRows ([] : List (Batch s)).flatten.length groupings = [] := by
      rw [← List.length_eq_zero_iff]
      exact length_cellRows hkeys
    rw [hnone, aggregateRelation_of_compiled hcompiled hmeasures]
    exact Alike.refl _
  · -- The rows might as well be those of one batch.
    have hsingle : aggregateRelation ⟨s, [batches.flatten]⟩ keys aggregates b =
        groupRows compiled measures (cellRows batches.flatten.length groupings) arguments := by
      rw [aggregateRelation_of_compiled hcompiled hmeasures, List.foldlM_cons]
      simp only [List.foldlM_nil, bind_pure]
      rw [addBatch_of_reads hkeys (htakes.imp fun _ _ h => h.reads)]
      rfl
    rw [← hsingle]
    exact alike_aggregateRelation_flatten hne keys aggregates b

/-- The aggregation of a relation, whatever its batches are, is the grouping of its rows by the keys
as they are defined. -/
theorem groupsBy_aggregateRelation {input : Relation} {keys : List Expr}
    {aggregates : List (Named Aggregate)} {b : ScalarBindings}
    {groupings arguments : List CellColumn}
    (hkeys : List.Forall₂ (fun k c => k.Reads input b c) keys groupings)
    (haggregates : List.Forall₂ (fun a c => a.value.arg.Reads input b c ∧ a.value.fn.Takes c.type)
      aggregates arguments)
    (hsome : keys ≠ [] ∨ aggregates ≠ []) :
    GroupsBy (cellRows input.size groupings) (groupings.map (·.type))
      ((aggregates.map (·.value.fn)).zip arguments)
      (aggregateRelation input keys aggregates b) := by
  obtain ⟨s, batches⟩ := input
  obtain ⟨compiled, hcompiled, hreads⟩ := exists_mapM_of_forall₂
    (f := fun k => do return (k, ← k.compile s b))
    (R := fun k c => AnyCompiled.Reads k.2 batches.flatten c) (hkeys.imp fun k c hk => by
      obtain ⟨x, hx, hreads⟩ := hk.exists_compile
      exact ⟨(k, x), bind_eq_ok.mpr ⟨x, hx, rfl⟩, hreads⟩)
  obtain ⟨measures, hmeasures, htakes⟩ := exists_mapM_of_forall₂ (f := compileMeasure s b)
    (R := fun m c => m.Takes batches.flatten c) (haggregates.imp fun a c ha => by
      obtain ⟨x, hx, hreads⟩ := ha.1.exists_compile
      exact ⟨⟨a.value.fn, a.name, x⟩, bind_eq_ok.mpr ⟨x, hx, rfl⟩, hreads, ha.2⟩)
  have hsome' : compiled ≠ [] ∨ measures ≠ [] := by
    rw [← List.length_pos_iff, ← List.length_pos_iff, ← (mapM_eq_ok.mp hcompiled).length_eq,
      ← (mapM_eq_ok.mp hmeasures).length_eq, List.length_pos_iff, List.length_pos_iff]
    exact hsome
  rw [← map_fn_of_compileMeasure hmeasures]
  exact (groupsBy_groupRows hreads htakes hsome').congr
    (alike_groupRows hcompiled hmeasures hreads htakes)

/-- Sold items, in two batches: a kind that may be missing, and an amount that may be. -/
def soldItems : Relation :=
  ⟨[⟨"kind", .utf8, true⟩, ⟨"amount", .int64, true⟩],
    [[.cons (some "tea") (.cons (some ⟨31, by decide⟩) .nil),
        .cons none (.cons (some ⟨57, by decide⟩) .nil)],
      [.cons (some "tea") (.cons none .nil), .cons (some "tea") (.cons (some ⟨16, by decide⟩) .nil),
        .cons none (.cons none .nil)]]⟩

/-- The kinds of the sold items. -/
def soldKinds : CellColumn := ⟨.utf8, [.text "tea", .missing, .text "tea", .text "tea", .missing]⟩

/-- The amounts of the sold items. -/
def soldAmounts : CellColumn :=
  ⟨.int64, [.int ⟨31, by decide⟩, .int ⟨57, by decide⟩, .missing, .int ⟨16, by decide⟩, .missing]⟩

/-- How much of a kind was sold, and how often. -/
def soldTotals : List (Named Aggregate) :=
  [⟨⟨.sum, .columnRef "amount" 1⟩, "total"⟩, ⟨⟨.count, .columnRef "amount" 1⟩, "sold"⟩]

theorem soldItems_grouped :
    GroupsBy (cellRows 5 [soldKinds]) [.utf8] [(.sum, soldAmounts), (.count, soldAmounts)]
      (aggregateRelation soldItems [.columnRef "kind" 0] soldTotals []) ∧
    ((aggregateRelation soldItems [.columnRef "kind" 0] soldTotals []).map fun r =>
        r.rows.map Row.displays) =
      .ok [.ok ["tea", "47", "2"], .ok ["", "57", "1"]] := by
  have hkinds : (Expr.columnRef "kind" 0).Reads soldItems [] soldKinds := ⟨_, rfl, rfl⟩
  have hamounts : (Expr.columnRef "amount" 1).Reads soldItems [] soldAmounts := ⟨_, rfl, rfl⟩
  have hsum : AggregateFn.Takes .sum .int64 := .inr ⟨.int64, rfl⟩
  have htotals : List.Forall₂ (fun a c => a.value.arg.Reads soldItems [] c ∧
      a.value.fn.Takes c.type) soldTotals [soldAmounts, soldAmounts] :=
    .cons ⟨hamounts, hsum⟩ (.cons ⟨hamounts, .inl rfl⟩ .nil)
  exact ⟨groupsBy_aggregateRelation (.cons hkinds .nil) htotals (.inl (by simp)), by rfl⟩

/-- A day that is missing. -/
def missingDay : Relation := ⟨[⟨"day", .date .days, true⟩], [[.cons none .nil]]⟩

/-- The days of the one row. -/
def missingDays : CellColumn := ⟨.date .days, [.missing]⟩

/-- The missing day is read as a cell, but no column can be made of it. So the grouping fails,
although no function fails. -/
theorem missingDay_fails :
    (Expr.columnRef "day" 0).Reads missingDay [] missingDays ∧
    AggregateFn.Takes .count missingDays.type ∧
    ¬ ((∃ e, aggregateRelation missingDay [.columnRef "day" 0]
        [⟨⟨.count, .columnRef "day" 0⟩, "n"⟩] [] = .error e) ↔
      ∃ key ∈ cellRows 1 [missingDays], ∃ a ∈ [(AggregateFn.count, missingDays)],
        a.1.Fails a.2.type (rowsOf key ((cellRows 1 [missingDays]).zip a.2.cells))) := by
  refine ⟨⟨[none], rfl, rfl⟩, .inl rfl, fun h => ?_⟩
  obtain ⟨key, hkey, a, ha, hfails⟩ := h.mp ⟨_, rfl⟩
  obtain rfl : key = [.missing] := List.mem_singleton.mp hkey
  obtain rfl := List.mem_singleton.mp ha
  rcases hfails with ⟨hsum, -⟩ | ⟨-, hcount⟩
  · cases hsum
  · exact hcount (by decide)

end Relations

end RelScript
