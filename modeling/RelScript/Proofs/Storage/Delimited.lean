import Mathlib.Data.List.Forall2
import RelScript.Proofs.Outcome
import RelScript.Proofs.Text.Lines
import RelScript.Proofs.Value.Casting
import RelScript.Storage.Table
import RelScript.Value.Cell

/-!
Tables in text form that are read again. The text of a table that was read from a text has a line
for each of its rows, and reading it gives a table of the same width with the same rows. Missing
cells come back as empty ones. Nothing is escaped, so a carriage return at the end of a line belongs
to the line's end when the line is read again: it is lost from the last cell of its row.
-/

namespace RelScript

namespace Text

/-- The cells of the lines that are not blank. -/
def grid (text : List Char) : List (List (List Char)) :=
  ((lines text).filter fun line => !line.all isBlank).map (pieces delimiter)

/-- A line for each row, with separators between its cells. -/
def ungrid (rows : List (List (List Char))) : List Char :=
  (rows.map ([delimiter].intercalate ·)).flatMap (· ++ ['\n'])

/-- The largest number of cells in a row. -/
def gridWidth {α : Type} (rows : List (List α)) : Nat := (rows.map List.length).foldl max 0

/-- Cells that a line can hold: no end of a cell or a line within them, and not all of them
blank. -/
structure Fits (row : List (List Char)) : Prop where
  no_delimiter : ∀ cell ∈ row, delimiter ∉ cell
  no_newline : ∀ cell ∈ row, '\n' ∉ cell
  visible : row.all (·.all isBlank) = false

theorem Fits.ne_nil {row : List (List Char)} (h : Fits row) : row ≠ [] := by
  rintro rfl
  cases h.visible

theorem fits_of_mem_grid {text : List Char} {row : List (List Char)} (h : row ∈ grid text) :
    Fits row := by
  obtain ⟨line, hline, rfl⟩ := List.mem_map.mp h
  obtain ⟨hmem, hvisible⟩ := List.mem_filter.mp hline
  have hnewline := newline_notMem_of_mem_lines hmem
  refine ⟨fun cell hcell => (of_mem_pieces hcell).1, fun cell hcell hmem' => ?_, ?_⟩
  · exact hnewline ((of_mem_pieces hcell).2 _ hmem')
  · have hblank : isBlank delimiter = true := rfl
    rw [← all_intercalate hblank, intercalate_pieces]
    simpa using hvisible

/-- The row with empty cells at its end, up to a width. -/
def padRow (width : Nat) (row : List (List Char)) : List (List Char) :=
  row ++ List.replicate (width - row.length) []

theorem length_padRow {width : Nat} {row : List (List Char)} (h : row.length ≤ width) :
    (padRow width row).length = width := by
  rw [padRow, List.length_append, List.length_replicate, Nat.add_sub_cancel' h]

theorem Fits.padRow {row : List (List Char)} (h : Fits row) (width : Nat) :
    Fits (padRow width row) := by
  have hcell : ∀ cell ∈ Text.padRow width row, cell ∈ row ∨ cell = [] := fun cell hmem =>
    (List.mem_append.mp hmem).imp_right List.eq_of_mem_replicate
  refine ⟨fun cell hmem => ?_, fun cell hmem => ?_, ?_⟩
  · rcases hcell cell hmem with hmem | rfl
    · exact h.no_delimiter cell hmem
    · exact List.not_mem_nil
  · rcases hcell cell hmem with hmem | rfl
    · exact h.no_newline cell hmem
    · exact List.not_mem_nil
  · rw [Text.padRow, List.all_append, h.visible, Bool.false_and]

theorem Fits.newline_notMem {row : List (List Char)} (h : Fits row) :
    '\n' ∉ [delimiter].intercalate row := by
  have hall : ([delimiter].intercalate row).all (· ≠ '\n') = true := by
    rw [all_intercalate rfl, List.all_eq_true]
    intro cell hcell
    rw [List.all_eq_true]
    rintro c hc
    exact decide_eq_true fun (heq : c = '\n') => h.no_newline cell hcell (heq ▸ hc)
  intro hmem
  exact of_decide_eq_true (List.all_eq_true.mp hall _ hmem) rfl

theorem Fits.pieces_line {row : List (List Char)} (h : Fits row) :
    pieces delimiter (dropReturn ([delimiter].intercalate row)) = row.modifyLast dropReturn := by
  obtain ⟨init, last, rfl⟩ := (List.eq_nil_or_concat row).resolve_left h.ne_nil
  have hinit : ∀ cell ∈ init ++ [dropReturn last], delimiter ∉ cell := by
    intro cell hmem
    rcases List.mem_append.mp hmem with hmem | hmem
    · exact h.no_delimiter cell (by simp [hmem])
    · obtain rfl := List.mem_singleton.mp hmem
      exact fun hc => h.no_delimiter last (by simp) (mem_of_mem_dropReturn hc)
  rw [dropReturn_intercalate (by decide) h.ne_nil, List.concat_eq_append, List.modifyLast_concat,
    pieces_intercalate (by simp) hinit]

theorem grid_ungrid {rows : List (List (List Char))} (h : ∀ row ∈ rows, Fits row) :
    grid (ungrid rows) = rows.map (·.modifyLast dropReturn) := by
  have hlines : lines (ungrid rows) = rows.map (dropReturn <| [delimiter].intercalate ·) := by
    rw [ungrid, lines_terminated, List.map_map]
    · rfl
    · intro line hline
      obtain ⟨row, hrow, rfl⟩ := List.mem_map.mp hline
      exact (h row hrow).newline_notMem
  have hvisible : (lines (ungrid rows)).filter (fun line => !line.all isBlank) =
      lines (ungrid rows) := by
    rw [hlines, List.filter_eq_self]
    intro line hline
    obtain ⟨row, hrow, rfl⟩ := List.mem_map.mp hline
    rw [all_isBlank_dropReturn, all_intercalate rfl, (h row hrow).visible]
    rfl
  rw [grid, hvisible, hlines, List.map_map]
  exact List.map_congr_left fun row hrow => (h row hrow).pieces_line

section Width

variable {α : Type} {rows : List (List α)} {n : Nat}

theorem gridWidth_le_iff : gridWidth rows ≤ n ↔ ∀ row ∈ rows, row.length ≤ n := by
  have hfold : ∀ start, (rows.map List.length).foldl max start ≤ n ↔
      start ≤ n ∧ ∀ row ∈ rows, row.length ≤ n := by
    induction rows with
    | nil => simp
    | cons row rows ih =>
        intro start
        rw [List.map_cons, List.foldl_cons, ih, max_le_iff, List.forall_mem_cons, and_assoc]
  exact (hfold 0).trans (and_iff_right n.zero_le)

theorem length_le_gridWidth {row : List α} (h : row ∈ rows) : row.length ≤ gridWidth rows :=
  gridWidth_le_iff.mp le_rfl row h

theorem gridWidth_of_forall (hne : rows ≠ []) (h : ∀ row ∈ rows, row.length = n) :
    gridWidth rows = n := by
  obtain ⟨row, hrow⟩ := List.exists_mem_of_ne_nil rows hne
  apply le_antisymm
  · exact gridWidth_le_iff.mpr fun row hrow => (h row hrow).le
  · exact h row hrow ▸ length_le_gridWidth hrow

end Width

theorem length_modifyLast {α : Type} (f : α → α) (l : List α) :
    (l.modifyLast f).length = l.length := by
  rcases List.eq_nil_or_concat l with rfl | ⟨init, last, rfl⟩
  · rfl
  · rw [List.concat_eq_append, List.modifyLast_concat, List.length_append, List.length_append]
    rfl

/-- The rows of a table with empty cells for missing ones, written and read again. -/
def rewritten (rows : List (List (List Char))) : List (List (List Char)) :=
  rows.map fun row => (padRow (gridWidth rows) row).modifyLast dropReturn

theorem length_of_mem_rewritten {rows : List (List (List Char))} {row : List (List Char)}
    (h : row ∈ rewritten rows) : row.length = gridWidth rows := by
  obtain ⟨source, hsource, rfl⟩ := List.mem_map.mp h
  rw [length_modifyLast, length_padRow (length_le_gridWidth hsource)]

theorem gridWidth_rewritten (rows : List (List (List Char))) :
    gridWidth (rewritten rows) = gridWidth rows := by
  cases rows with
  | nil => rfl
  | cons row rows =>
      exact gridWidth_of_forall (List.cons_ne_nil _ _) fun _ => length_of_mem_rewritten

theorem grid_rewritten {rows : List (List (List Char))} (h : ∀ row ∈ rows, Fits row) :
    grid (ungrid (rows.map (padRow (gridWidth rows)))) = rewritten rows := by
  rw [grid_ungrid, List.map_map]
  · rfl
  · intro padded hpadded
    obtain ⟨row, hrow, rfl⟩ := List.mem_map.mp hpadded
    exact (h row hrow).padRow _

end Text

section Cells

/-- The cells of the table, row by row. -/
def Relation.readCells (r : Relation) : Outcome (List (List Cell)) :=
  r.rows.mapM fun row => row.cells.mapM id

namespace Cell

/-- A cell of untyped text. -/
def ofChars (text : List Char) : Cell := .bytes (String.ofList text).toUTF8

/-- The cell, or an empty text for a missing one. -/
def orEmpty : Cell → Cell
  | .missing => ofChars []
  | c => c

/-- The cell as it is read from the end of a line. -/
def atLineEnd (c : Cell) : Cell := ofChars (Text.dropReturn c.display.toList)

theorem toList_display_ofChars (text : List Char) : (ofChars text).display.toList = text := by
  rw [ofChars, display, Text.decodeLossy, fromUTF8?_toUTF8, String.toList_ofList]

theorem toList_display_orEmpty (c : Cell) : c.orEmpty.display.toList = c.display.toList := by
  cases c with
  | missing => exact toList_display_ofChars []
  | _ => rfl

theorem ofChars_injective : Function.Injective ofChars := by
  intro a b h
  rw [← toList_display_ofChars a, h, toList_display_ofChars]

theorem atLineEnd_ofChars (text : List Char) :
    (ofChars text).atLineEnd = ofChars (Text.dropReturn text) := by
  rw [atLineEnd, toList_display_ofChars]

end Cell

/-- The cells of a row of a table in text form, as they are after they were written and read. -/
def rereadCells (cells : List Cell) : List Cell :=
  (cells.map Cell.orEmpty).modifyLast Cell.atLineEnd

/-- A row of untyped cells of the given width. -/
def paddedCells (width : Nat) (row : List (List Char)) : List Cell :=
  row.map Cell.ofChars ++ List.replicate (width - row.length) .missing

theorem orEmpty_paddedCells (width : Nat) (row : List (List Char)) :
    (paddedCells width row).map Cell.orEmpty = (Text.padRow width row).map Cell.ofChars := by
  rw [paddedCells, Text.padRow, List.map_append, List.map_append, List.map_map, List.map_replicate,
    List.map_replicate]
  rfl

theorem display_paddedCells (width : Nat) (row : List (List Char)) :
    (paddedCells width row).map (·.display.toList) = Text.padRow width row := by
  rw [paddedCells, List.map_append, List.map_map, List.map_replicate]
  refine congrArg (· ++ _) ?_
  exact (List.map_congr_left fun cell _ => Cell.toList_display_ofChars cell).trans (List.map_id _)

theorem paddedCells_of_length {width : Nat} {row : List (List Char)} (h : row.length = width) :
    paddedCells width row = row.map Cell.ofChars := by
  rw [paddedCells, h, Nat.sub_self, List.replicate_zero, List.append_nil]

theorem rereadCells_eq {cells : List Cell} {row : List (List Char)} (hne : row ≠ [])
    (h : cells.map Cell.orEmpty = row.map Cell.ofChars) :
    rereadCells cells = (row.modifyLast Text.dropReturn).map Cell.ofChars := by
  obtain ⟨init, last, rfl⟩ := (List.eq_nil_or_concat row).resolve_left hne
  rw [rereadCells, h, List.concat_eq_append, List.map_append, List.map_singleton,
    List.modifyLast_concat, List.modifyLast_concat, List.map_append, List.map_singleton,
    Cell.atLineEnd_ofChars]

/-- A row is read again as it was, unless its last cell ends with a carriage return. -/
theorem rereadCells_eq_iff {cells : List Cell} {row : List (List Char)} (hne : row ≠ [])
    (h : cells.map Cell.orEmpty = row.map Cell.ofChars) :
    rereadCells cells = cells.map Cell.orEmpty ↔
      ∀ c ∈ cells.getLast?, c.display.toList.getLast? ≠ some '\r' := by
  rw [rereadCells_eq hne h, h, Cell.ofChars_injective.list_map.eq_iff]
  obtain ⟨init, last, rfl⟩ := (List.eq_nil_or_concat row).resolve_left hne
  rw [List.concat_eq_append] at h ⊢
  have hlast : ∀ c ∈ cells.getLast?, c.display.toList = last := by
    intro c hc
    have hsame : (cells.map Cell.orEmpty).getLast? = some c.orEmpty := by
      rw [List.getLast?_map, Option.mem_def.mp hc]
      rfl
    rw [h, List.map_append, List.map_singleton, List.getLast?_concat, Option.some.injEq] at hsame
    rw [← c.toList_display_orEmpty, ← hsame, Cell.toList_display_ofChars]
  have hcells : cells ≠ [] := by
    rintro rfl
    simp at h
  rw [List.modifyLast_concat, List.append_cancel_left_eq, List.singleton_inj,
    Text.dropReturn_eq_self_iff]
  constructor
  · intro hreturn c hc
    rwa [hlast c hc]
  · intro hreturn
    have hc := List.getLast?_eq_some_getLast hcells
    exact hlast _ hc ▸ hreturn _ hc

end Cells

section Tables

theorem delimitedCells_eq (text : String) :
    delimitedCells text =
      (Text.grid text.toList).map (·.map fun cell => (String.ofList cell).toUTF8) := by
  rw [delimitedCells, Text.grid, List.map_map]
  rfl

theorem cells_untypedRow {positions : List Nat} {row : List (List Char)}
    (h : row.length ≤ positions.length) :
    (untypedRow positions (row.map fun cell => (String.ofList cell).toUTF8)).cells =
      (paddedCells positions.length row).map .ok := by
  induction positions generalizing row with
  | nil =>
      obtain rfl := List.length_eq_zero_iff.mp (Nat.le_zero.mp h)
      rfl
  | cons p positions ih =>
      cases row with
      | nil => exact congrArg (List.cons _) (@ih [] (Nat.zero_le _))
      | cons cell row =>
          have hpadded : paddedCells (positions.length + 1) (cell :: row) =
              .ofChars cell :: paddedCells positions.length row := by
            rw [paddedCells, List.length_cons, Nat.add_sub_add_right]
            rfl
          rw [List.length_cons, hpadded]
          exact congrArg (List.cons _) (ih (Nat.le_of_succ_le_succ h))

namespace Relation

theorem gridWidth_delimitedCells (text : String) :
    Text.gridWidth (delimitedCells text) = Text.gridWidth (Text.grid text.toList) := by
  rw [delimitedCells_eq, Text.gridWidth, List.map_map]
  exact congrArg (List.foldl max 0) (List.map_congr_left fun row _ => List.length_map _)

theorem schema_ofDelimited (text : String) :
    (ofDelimited text).schema = positionalSchema (Text.gridWidth (Text.grid text.toList)) := by
  rw [← gridWidth_delimitedCells, ofDelimited]
  split <;> rfl

theorem readCells_ofDelimited (text : String) :
    (ofDelimited text).readCells =
      .ok ((Text.grid text.toList).map
        (paddedCells (Text.gridWidth (Text.grid text.toList)))) := by
  have hrows : (ofDelimited text).readCells = ((delimitedCells text).map (untypedRow
      (List.range (Text.gridWidth (delimitedCells text))))).mapM fun row => row.cells.mapM id := by
    rw [ofDelimited]
    split
    · rename_i hempty
      rw [List.isEmpty_iff.mp hempty]
      rfl
    · exact congrArg (List.mapM _) (List.flatten_singleton ..)
  rw [hrows, gridWidth_delimitedCells, delimitedCells_eq, mapM_eq_ok, List.map_map,
    List.forall₂_map_left_iff, List.forall₂_map_right_iff, List.forall₂_same]
  intro row hrow
  have hlength : row.length ≤ (List.range (Text.gridWidth (Text.grid text.toList))).length :=
    List.length_range ▸ Text.length_le_gridWidth hrow
  rw [Function.comp, cells_untypedRow hlength, List.length_range, mapM_eq_ok,
    List.forall₂_map_left_iff, List.forall₂_same]
  exact fun _ _ => rfl

theorem toDelimited_of_readCells {r : Relation} {rows : List (List Cell)}
    (h : r.readCells = .ok rows) :
    r.toDelimited =
      .ok (String.ofList (Text.ungrid (rows.map (·.map (·.display.toList))))) := by
  have hlines : r.rows.mapM Row.displays = .ok (rows.map (·.map Cell.display)) := by
    rw [mapM_eq_ok, List.forall₂_map_right_iff]
    exact (mapM_eq_ok.mp h).imp fun row cells hcells => map_eq_ok.mpr ⟨cells, hcells, rfl⟩
  refine bind_eq_ok.mpr ⟨_, hlines, congrArg Except.ok (String.toList_inj.mp ?_)⟩
  rw [String.toList_join, String.toList_ofList, Text.ungrid, List.flatMap_map, List.flatMap_map,
    List.flatMap_map, List.flatMap_map]
  congr 1
  funext cells
  rw [String.toList_append, String.toList_intercalate, List.map_map]
  rfl

/-- A table that was read from a text, written and read again has the same columns and rows. Missing
cells are empty then, and a row stays as it is unless its last cell ends with a carriage return. -/
theorem reread (text : String) :
    ∃ rows written, (ofDelimited text).readCells = .ok rows ∧
      (ofDelimited text).toDelimited = .ok written ∧
      (ofDelimited written).schema = (ofDelimited text).schema ∧
      (ofDelimited written).readCells = .ok (rows.map rereadCells) ∧
      ∀ row ∈ rows, rereadCells row = row.map Cell.orEmpty ↔
        ∀ c ∈ row.getLast?, c.display.toList.getLast? ≠ some '\r' := by
  obtain ⟨grid, hgrid⟩ : ∃ grid, Text.grid text.toList = grid := ⟨_, rfl⟩
  have hfits : ∀ row ∈ grid, Text.Fits row := fun row hrow =>
    Text.fits_of_mem_grid (hgrid.symm ▸ hrow)
  have hne : ∀ row ∈ grid, Text.padRow (Text.gridWidth grid) row ≠ [] := fun row hrow =>
    ((hfits row hrow).padRow _).ne_nil
  have hrows : (ofDelimited text).readCells =
      .ok (grid.map (paddedCells (Text.gridWidth grid))) := by
    rw [readCells_ofDelimited, hgrid]
  have hwritten : (ofDelimited text).toDelimited =
      .ok (String.ofList (Text.ungrid (grid.map (Text.padRow (Text.gridWidth grid))))) := by
    rw [toDelimited_of_readCells hrows, List.map_map]
    simp only [Function.comp_def, display_paddedCells]
  have hagain : Text.grid (String.ofList (Text.ungrid
      (grid.map (Text.padRow (Text.gridWidth grid))))).toList = Text.rewritten grid := by
    rw [String.toList_ofList, Text.grid_rewritten hfits]
  refine ⟨_, _, hrows, hwritten, ?_, ?_, ?_⟩
  · rw [schema_ofDelimited, schema_ofDelimited, hagain, hgrid, Text.gridWidth_rewritten]
  · rw [readCells_ofDelimited, hagain, Text.gridWidth_rewritten, Text.rewritten, List.map_map,
      List.map_map]
    refine congrArg Except.ok (List.map_congr_left fun row hrow => ?_)
    have hlength := Text.length_of_mem_rewritten (List.mem_map_of_mem hrow)
    exact (paddedCells_of_length hlength).trans
      (rereadCells_eq (hne row hrow) (orEmpty_paddedCells _ row)).symm
  · intro cells hcells
    obtain ⟨row, hrow, rfl⟩ := List.mem_map.mp hcells
    exact rereadCells_eq_iff (hne row hrow) (orEmpty_paddedCells _ row)

/-- A line that ends with two carriage returns keeps one of them in its last cell, and none when the
table is written and read again. -/
theorem reread_two_returns :
    ∃ written, (ofDelimited "a\r\r\n").toDelimited = .ok written ∧
      (ofDelimited written).readCells ≠
        (ofDelimited "a\r\r\n").readCells.map (·.map (·.map Cell.orEmpty)) := by
  have hrows : (ofDelimited "a\r\r\n").readCells = .ok [[.ofChars ['a', '\r']]] := rfl
  have hagain : (ofDelimited "a\r\n").readCells = .ok [[.ofChars ['a']]] := rfl
  refine ⟨"a\r\n", rfl, fun hsame => ?_⟩
  rw [hrows, hagain] at hsame
  have hcell : [[Cell.ofChars ['a']]] = [[Cell.ofChars ['a', '\r']]] := Except.ok.inj hsame
  cases Cell.ofChars_injective (List.singleton_inj.mp (List.singleton_inj.mp hcell))

end Relation

end Tables

end RelScript
