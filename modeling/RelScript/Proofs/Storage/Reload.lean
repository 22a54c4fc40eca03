import RelScript.Proofs.Execution.Crossing
import RelScript.Proofs.Value.Casting
import RelScript.Proofs.Value.Cells

/-!
Stored tables that are loaded again. Storing drops the types of the columns, and loading with a
declared schema reads them back from the bytes; for truth values, text, raw bytes and the integers
that cells hold, every cell comes back as it was. Missing values stay missing, and a text without
characters stays a text.
-/

namespace RelScript

/-- Whether values of the type are stored without loss. -/
def DataType.isStorable : DataType → Bool
  | .boolean | .text _ | .bytes _ => true
  | .integer k => k ≠ .uint64
  | .null | .float _ | .date _ | .duration _ => false

/-- The field, with missing values allowed. -/
def Field.optional (f : Field) : Field := ⟨f.name, f.type, true⟩

/-- The row, with missing values allowed. -/
def Row.optional : {s : Schema} → Row s → Row (s.map Field.optional)
  | [], .nil => .nil
  | _ :: _, .cons entry rest => .cons (f := Field.optional _) entry rest.optional

variable {s : Schema}

theorem Row.entries_optional (r : Row s) : r.optional.entries = r.entries := by
  induction r with
  | nil => rfl
  | cons entry rest ih => exact congrArg (List.cons _) ih

section Entries

/-- An entry of a stored table that is read as a given entry. -/
def StoresAs (x y : (t : DataType) × t.Entry) : Prop :=
  ∃ bytes : DataType.binary.Entry, y = ⟨.binary, bytes⟩ ∧
    Column.cast (a := .binary) [bytes] x.1 = .ok [x.2]

theorem cast_toUTF8 {t : DataType} (ht : t.isUntyped = false) {f : String → t.Entry}
    (hf : conversion? .utf8 t = some f) {text : String} {v : t.Carrier} (hread : f text = some v) :
    Column.cast (a := .binary) [some text.toUTF8] t = .ok [some v] := by
  rw [Column.cast_bytes ht hf]
  show Except.ok [(String.fromUTF8? text.toUTF8).bind f] = _
  rw [fromUTF8?_toUTF8, Option.bind_some, hread]

theorem exists_stored_value {t : DataType} (ht : t.isStorable = true) (v : t.Carrier) :
    ∃ cell, ∃ bytes : ByteArray, Cell.ofValue t v = .ok cell ∧
      Cell.narrow .binary cell = .ok (some bytes) ∧
      Column.cast (a := .binary) [some bytes] t = .ok [some v] := by
  cases t with
  | boolean => exact ⟨.boolean v, _, rfl, rfl, cast_toUTF8 rfl rfl (readBool?_text v)⟩
  | text e => exact ⟨.text v, _, rfl, rfl, cast_toUTF8 rfl rfl rfl⟩
  | bytes e => exact ⟨.bytes v, v, rfl, rfl, Column.cast_bytes_bytes e _⟩
  | integer k =>
      have hpast := DataType.not_isPast (t := .integer k)
        (by simpa [DataType.isStorable] using ht) v
      have hheld : IntKind.int64.Holds v.val := not_not.mp hpast
      have hcell : Cell.ofValue (.integer k) v = .ok (.int ⟨v.val, hheld⟩) :=
        congrArg (Except.ok ∘ Cell.int) (Cell.keptInt_of_holds hheld)
      have hread : (readInteger? (toString v.val).toList).bind (Whole.ofInt? k) = some v := by
        rw [readInteger?_toString]
        exact v.ofInt?_val
      exact ⟨_, _, hcell, rfl, cast_toUTF8 rfl rfl hread⟩
  | null | float _ | date _ | duration _ => cases ht

theorem cast_missing {t : DataType} (ht : t.isStorable = true) :
    Column.cast (a := .binary) [none] t = .ok [none] := by
  cases t with
  | boolean | text _ | integer _ => rw [Column.cast_bytes rfl rfl]; rfl
  | bytes e => exact Column.cast_bytes_bytes e _
  | null | float _ | date _ | duration _ => cases ht

theorem exists_stored_entry {t : DataType} (ht : t.isStorable = true) (entry : t.Entry) :
    ∃ cell bytes, Cell.read entry = .ok cell ∧ Cell.narrow .binary cell = .ok bytes ∧
      StoresAs ⟨t, entry⟩ ⟨.binary, bytes⟩ := by
  cases entry with
  | none => exact ⟨.missing, none, rfl, rfl, none, rfl, cast_missing ht⟩
  | some v =>
      obtain ⟨cell, bytes, hcell, hbytes, hcast⟩ := exists_stored_value ht v
      exact ⟨cell, some bytes, hcell, hbytes, some bytes, rfl, hcast⟩

end Entries

section Rows

theorem cellColumns_singleton (r : Row s) :
    Batch.cellColumns [r] = r.cells.map fun x => [x] := by
  unfold Batch.cellColumns
  induction r with
  | nil => rfl
  | @cons f s entry rest ih =>
      show (List.finRange (s.length + 1)).map _ = _
      rw [Row.cells, List.map_cons, ← ih, List.finRange_succ, List.map_cons, List.map_map]
      rfl

theorem exists_stored_cells (r : Row s) (hs : ∀ f ∈ s, f.type.isStorable = true)
    {positions : List Nat} (hlength : positions.length = s.length) :
    ∃ columns stored,
      (r.cells.map fun x => [x]).mapM (fun c => c.mapM id >>= Cell.build .binary) = .ok columns ∧
        untypedBatch 1 positions columns = [stored] ∧
        List.Forall₂ StoresAs r.entries stored.entries := by
  induction r generalizing positions with
  | nil =>
      obtain rfl := List.length_eq_zero_iff.mp hlength
      exact ⟨[], .nil, rfl, rfl, .nil⟩
  | cons entry rest ih =>
      obtain ⟨hfirst, hrest⟩ := List.forall_mem_cons.mp hs
      cases positions with
      | nil => cases hlength
      | cons p positions =>
          obtain ⟨cell, bytes, hcell, hbytes, hentry⟩ := exists_stored_entry hfirst entry
          obtain ⟨columns, stored, hcolumns, hstored, hentries⟩ :=
            ih hrest (Nat.succ.inj hlength)
          have hcolumn : [Cell.read entry].mapM id >>= Cell.build .binary = .ok [bytes] := by
            rw [hcell]
            show (Cell.narrow .binary cell >>= fun b => _) = _
            rw [hbytes]
            rfl
          refine ⟨[bytes] :: columns, .cons (f := positionalField p) bytes stored, ?_, ?_,
            .cons hentry hentries⟩
          · rw [Row.cells, List.map_cons, List.mapM_cons, hcolumn, hcolumns]
            rfl
          · rw [untypedBatch, hstored]
            rfl

theorem exists_stored_row (r : Row s) (hs : ∀ f ∈ s, f.type.isStorable = true) :
    ∃ stored, encodeBatch [r] = .ok [stored] ∧ List.Forall₂ StoresAs r.entries stored.entries := by
  obtain ⟨columns, stored, hcolumns, hstored, hentries⟩ :=
    exists_stored_cells r hs (List.length_range (n := s.length))
  refine ⟨stored, ?_, hentries⟩
  show (Batch.cellColumns [r]).mapM (fun c => c.mapM id >>= Cell.build .binary) >>= _ = _
  rw [cellColumns_singleton, hcolumns]
  exact congrArg Except.ok hstored

theorem scanColumn_singleton {r : Row s} {index : Nat} {y : (t : DataType) × t.Entry}
    (h : r.entries[index]? = some y) (t : DataType) :
    scanColumn [r] index t = Column.cast [y.2] t := by
  obtain ⟨hi, -⟩ := List.getElem?_eq_some_iff.mp h
  rw [Row.length_entries] at hi
  obtain rfl := Option.some.inj ((r.getElem?_entries ⟨index, hi⟩).symm.trans h)
  exact dif_pos hi

theorem scanColumns_stored {t : Schema} {stored : Row t} (r : Row s) (index : Nat)
    (h : List.Forall₂ StoresAs r.entries (stored.entries.drop index)) :
    scanColumns [stored] index (s.map Field.optional) = .ok [r.optional] := by
  induction r generalizing index with
  | nil => rfl
  | @cons f s entry rest ih =>
      obtain ⟨y, others, ⟨bytes, rfl, hcast⟩, hrest, hdrop⟩ := List.forall₂_cons_left_iff.mp h
      have hget : stored.entries[index]? = some ⟨.binary, bytes⟩ := by
        rw [← Nat.add_zero index, ← List.getElem?_drop, hdrop]
        rfl
      have hothers : stored.entries.drop (index + 1) = others := by
        rw [← List.drop_drop, hdrop]
        rfl
      have hcolumn : scanColumn [stored] index f.type = .ok [entry] :=
        (scanColumn_singleton hget f.type).trans hcast
      have hcolumns := ih (index + 1) (hothers ▸ hrest)
      show scanColumn [stored] index f.type >>= (fun c =>
        scanColumns [stored] (index + 1) (s.map Field.optional) >>= fun b => _) = _
      rw [hcolumn, hcolumns]
      rfl

end Rows

section Tables

theorem exists_encodeBatch_nil : ∃ none, encodeBatch ([] : Batch s) = .ok none := by
  have hcolumns : ∃ columns, (Batch.cellColumns ([] : Batch s)).mapM
      (fun c => c.mapM id >>= Cell.build .binary) = .ok columns := by
    apply exists_mapM_eq_ok
    intro c hc
    obtain ⟨i, -, rfl⟩ := List.mem_map.mp hc
    exact ⟨[], rfl⟩
  obtain ⟨columns, hcolumns⟩ := hcolumns
  exact ⟨_, bind_eq_ok.mpr ⟨columns, hcolumns, rfl⟩⟩

theorem exists_encode {r : Relation} (hs : ∀ f ∈ r.schema, f.type.isStorable = true) :
    ∃ batches, r.encode = .ok ⟨positionalSchema r.schema.length, batches⟩ ∧
      List.Forall₂ (fun row stored => encodeBatch [row] = .ok [stored]) r.rows batches.flatten := by
  obtain ⟨batches, hbatches, hrows⟩ := rowwise_encodeBatch.exists_batches
    (fun (_ : [] ∈ r.batches) => exists_encodeBatch_nil) fun row _ =>
      (exists_stored_row row hs).imp fun _ hstored => hstored.1
  exact ⟨batches, bind_eq_ok.mpr ⟨batches, hbatches, rfl⟩, hrows⟩

theorem scan_stored {row : Row s} {stored : Row (positionalSchema s.length)} (hne : s ≠ [])
    (hs : ∀ f ∈ s, f.type.isStorable = true) (h : encodeBatch [row] = .ok [stored])
    (source : String) :
    (scanColumns [stored] 0 (s.map Field.optional) >>= fun b => b.check (.scan source)) =
      .ok [row.optional] := by
  obtain ⟨stored', hstored', hentries⟩ := exists_stored_row row hs
  obtain rfl : stored = stored' := by simpa using h.symm.trans hstored'
  rw [scanColumns_stored row 0 hentries]
  apply Batch.check_of_nullable (by simpa using hne)
  intro f hf
  obtain ⟨g, -, rfl⟩ := List.mem_map.mp hf
  rfl

/-- A stored table, scanned with the schema of the rows that were stored, has these rows. -/
theorem scanTable_encode {r table : Relation} (hne : r.schema ≠ [])
    (hs : ∀ f ∈ r.schema, f.type.isStorable = true) (h : r.encode = .ok table) (size : Nat)
    (source : String) :
    ∃ loaded, scanTable size source (some (r.schema.map Field.optional)) table = .ok loaded ∧
      loaded.schema = r.schema.map Field.optional ∧
      loaded.rows.map Row.entries = r.rows.map Row.entries := by
  obtain ⟨batches, hencode, hstored⟩ := exists_encode hs
  obtain rfl := Except.ok.inj (h.symm.trans hencode)
  have hscan : Rowwise fun rows : Batch (positionalSchema r.schema.length) =>
      scanColumns rows 0 (r.schema.map Field.optional) >>= fun b => b.check (.scan source) :=
    (rowwise_scanColumns 0 _).bind (Batch.rowwise_check _)
  have hnil : ([] : Batch _) ∉ batches.flatMap (slices size) := by
    intro hmem
    obtain ⟨b, -, hslice⟩ := List.mem_flatMap.mp hmem
    exact ne_nil_of_mem_slices hslice rfl
  obtain ⟨outs, houts, hrows⟩ := hscan.exists_batches
    (fun (hmem : [] ∈ batches.flatMap (slices size)) => absurd hmem hnil) fun stored hmem => by
      rw [flatten_rebatch] at hmem
      obtain ⟨row, -, hrow⟩ := forall_right_of_forall₂ hstored stored hmem
      exact ⟨_, scan_stored hne hs hrow source⟩
  refine ⟨⟨_, outs⟩, bind_eq_ok.mpr ⟨outs, houts, rfl⟩, rfl, ?_⟩
  rw [flatten_rebatch] at hrows
  have hsame : List.Forall₂ (fun row (loaded : Row (r.schema.map Field.optional)) =>
      row.entries = loaded.entries) r.rows outs.flatten := by
    refine forall₂_trans (fun row stored loaded hrow hloaded => ?_) hstored hrows
    obtain rfl : row.optional = loaded := by
      simpa using (scan_stored hne hs hrow source).symm.trans hloaded
    exact row.entries_optional.symm
  exact (List.forall₂_eq_eq_eq ▸ List.forall₂_map_left_iff.mpr
    (List.forall₂_map_right_iff.mpr hsame) : r.rows.map Row.entries = _).symm

end Tables

namespace Catalog

theorem get_register (c : Catalog) (name : String) (table : Relation) :
    (c.register name table).get name = .ok table := by
  rw [get, register, List.lookup_cons_self]

/-- Rows of storable types that are stored under a name and loaded with their schema are the same
rows in the same order, whatever the catalog and the size of batches. -/
theorem reload (c : Catalog) (name : String) (r : Relation) (hne : r.schema ≠ [])
    (hs : ∀ f ∈ r.schema, f.type.isStorable = true) :
    ∃ c', c.write name r = .ok (r.size, c') ∧
      ∀ (ctx : RunContext) (b : ScalarBindings) (size : Nat) (w : EngineState),
        w.catalog = c' → ∃ loaded,
          ((Operator.scan name (some (r.schema.map Field.optional)) size).execute ctx b w).1 =
            .ok loaded ∧
          loaded.schema = r.schema.map Field.optional ∧
          loaded.rows.map Row.entries = r.rows.map Row.entries := by
  obtain ⟨batches, hencode, hstored⟩ := exists_encode hs
  have hsize : batches.flatten.length = r.size := hstored.length_eq.symm
  refine ⟨c.register name ⟨_, batches⟩, ?_, ?_⟩
  · rw [write, hencode, ← hsize]
    rfl
  · intro ctx b size w hw
    obtain ⟨loaded, hloaded, hschema, hrows⟩ := scanTable_encode hne hs hencode ctx.batchSize name
    refine ⟨loaded, ?_, hschema, hrows⟩
    show ((ofOutcome (w.catalog.get name) >>= fun table =>
      ofOutcome (scanTable ctx.batchSize name _ table) >>= fun r =>
        Operator.execute.finish ctx _ r) w).1 = _
    rw [hw, get_register]
    show ((ofOutcome (scanTable ctx.batchSize name _ _) >>= fun r =>
      Operator.execute.finish ctx _ r) w).1 = _
    rw [hloaded]
    rfl

/-- A truth value, an integer and texts: a missing one, one without characters and one with tabs,
newlines and blanks. -/
def mixedRows : Relation :=
  ⟨[⟨"b", .boolean, false⟩, ⟨"n", .integer .int16, true⟩, ⟨"v", .utf8, true⟩],
    [[.cons (some true : DataType.Entry .boolean) (.cons
        (some ⟨-32768, by decide⟩ : DataType.Entry (.integer .int16))
        (.cons (some "a\tb\n c" : DataType.Entry .utf8) .nil))], [],
      [.cons (some false : DataType.Entry .boolean) (.cons
        (none : DataType.Entry (.integer .int16)) (.cons (none : DataType.Entry .utf8) .nil)),
       .cons (some false : DataType.Entry .boolean) (.cons
        (some ⟨32767, by decide⟩ : DataType.Entry (.integer .int16))
        (.cons (some "" : DataType.Entry .utf8) .nil))]]⟩

theorem reload_mixedRows :
    ∃ c', write [] "t" mixedRows = .ok (mixedRows.size, c') ∧
      ∀ (ctx : RunContext) (b : ScalarBindings) (size : Nat) (w : EngineState),
        w.catalog = c' → ∃ loaded,
          ((Operator.scan "t" (some (mixedRows.schema.map Field.optional)) size).execute
            ctx b w).1 = .ok loaded ∧
          loaded.schema = mixedRows.schema.map Field.optional ∧
          loaded.rows.map Row.entries = mixedRows.rows.map Row.entries :=
  reload [] "t" mixedRows (by decide) (by decide)

end Catalog

end RelScript
