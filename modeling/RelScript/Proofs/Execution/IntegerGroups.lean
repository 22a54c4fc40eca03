import RelScript.Proofs.Execution.IntegerGathering

/-!
Integers gathered in groups. What a group has gathered is what its own rows bring to it, whatever
rows of other keys come between. So in an aggregation that succeeds every sum, minimum and maximum
of integers is the exact result for the integers of one key.
-/

namespace RelScript

section Keys

variable {α β : Type}

/-- What the rows of a key hold, in order. -/
def rowsOf (key : List Cell) (rows : List (List Cell × α)) : List α :=
  (rows.filter (·.1 = key)).map (·.2)

theorem rowsOf_append_of_eq (rows : List (List Cell × α)) {key key' : List Cell} (h : key' = key)
    (a : α) : rowsOf key (rows ++ [(key', a)]) = rowsOf key rows ++ [a] := by
  simp [rowsOf, h]

theorem rowsOf_append_of_ne (rows : List (List Cell × α)) {key key' : List Cell} (h : key' ≠ key)
    (a : α) : rowsOf key (rows ++ [(key', a)]) = rowsOf key rows := by
  simp [rowsOf, h]

theorem rowsOf_eq_nil {rows : List (List Cell × α)} {key : List Cell}
    (h : key ∉ rows.map Prod.fst) : rowsOf key rows = [] := by
  rw [rowsOf, List.map_eq_nil_iff, List.filter_eq_nil_iff]
  intro row hrow hkey
  exact h (List.mem_map.mpr ⟨row, hrow, of_decide_eq_true hkey⟩)

theorem forall₂_rowsOf {R : α → β → Prop} {as : List α} {bs : List β} (h : List.Forall₂ R as bs)
    (key : List Cell) (keys : List (List Cell)) :
    List.Forall₂ R (rowsOf key (keys.zip as)) (rowsOf key (keys.zip bs)) := by
  induction h generalizing keys with
  | nil =>
      rw [List.zip_nil_right, List.zip_nil_right]
      exact .nil
  | @cons a b as bs hab _ ih =>
      cases keys with
      | nil => exact .nil
      | cons k keys =>
          rw [List.zip_cons_cons, List.zip_cons_cons, rowsOf, rowsOf, List.filter_cons,
            List.filter_cons]
          dsimp only
          split
          · exact .cons hab (ih keys)
          · exact ih keys

end Keys

section Groups

variable {start : List Accumulator} {rows : List (List Cell × List (Outcome Cell))}
  {groups groups' : List Group} {key : List Cell} {args : List (Outcome Cell)}

/-- Takes the arguments of some rows into a group, one row after the other. -/
def Group.addAll (g : Group) (rows : List (List (Outcome Cell))) : Outcome Group :=
  rows.foldlM (fun g args => g.add args) g

/-- Groups of rows with their keys: one for each key, with what the rows of that key bring to it. -/
structure Grouped (start : List Accumulator) (rows : List (List Cell × List (Outcome Cell)))
    (groups : List Group) : Prop where
  nodup : (groups.map Group.key).Nodup
  keys : ∀ key, key ∈ groups.map Group.key ↔ key ∈ rows.map Prod.fst
  gathered : ∀ g ∈ groups, Group.addAll ⟨g.key, start⟩ (rowsOf g.key rows) = .ok g

theorem grouped_nil (start : List Accumulator) : Grouped start [] [] :=
  ⟨List.nodup_nil, fun _ => Iff.rfl, List.forall_mem_nil _⟩

theorem Group.key_of_add {g g' : Group} (h : Group.add args g = .ok g') : g'.key = g.key := by
  obtain ⟨_, -, h⟩ := bind_eq_ok.mp h
  cases h
  rfl

theorem addToGroups_eq_ok (h : addToGroups start key args groups = .ok groups') :
    (∃ g, key ∉ groups.map Group.key ∧ Group.add args ⟨key, start⟩ = .ok g ∧
      groups' = groups ++ [g]) ∨
    ∃ before g after g', groups = before ++ g :: after ∧ g.key = key ∧
      Group.add args g = .ok g' ∧ groups' = before ++ g' :: after := by
  induction groups generalizing groups' with
  | nil =>
      obtain ⟨g, hg, h⟩ := bind_eq_ok.mp h
      cases h
      exact Or.inl ⟨g, List.not_mem_nil, hg, rfl⟩
  | cons first rest ih =>
      rw [addToGroups] at h
      split at h
      · rename_i hkey
        obtain ⟨g', hg', h⟩ := bind_eq_ok.mp h
        cases h
        exact Or.inr ⟨[], first, rest, g', rfl, hkey, hg', rfl⟩
      · rename_i hkey
        obtain ⟨rest', hrest, h⟩ := bind_eq_ok.mp h
        cases h
        obtain ⟨g, hnew, hg, rfl⟩ | ⟨before, g, after, g', rfl, hg, hg', rfl⟩ := ih hrest
        · refine Or.inl ⟨g, ?_, hg, rfl⟩
          rw [List.map_cons, List.mem_cons, not_or]
          exact ⟨fun hsame => hkey hsame.symm, hnew⟩
        · exact Or.inr ⟨first :: before, g, after, g', rfl, hg, hg', rfl⟩

theorem Group.addAll_append_of_ok {g g' g'' : Group} {rows : List (List (Outcome Cell))}
    (h : g.addAll rows = .ok g') (hadd : g'.add args = .ok g'') :
    g.addAll (rows ++ [args]) = .ok g'' := by
  rw [addAll, List.foldlM_append]
  refine bind_eq_ok.mpr ⟨g', h, ?_⟩
  rw [List.foldlM_cons]
  exact bind_eq_ok.mpr ⟨g'', hadd, rfl⟩

theorem Grouped.gathered_of_ne (h : Grouped start rows groups) {g : Group} (hg : g ∈ groups)
    (hne : g.key ≠ key) (args : List (Outcome Cell)) :
    Group.addAll ⟨g.key, start⟩ (rowsOf g.key (rows ++ [(key, args)])) = .ok g := by
  rw [rowsOf_append_of_ne rows hne.symm]
  exact h.gathered g hg

theorem Grouped.append (h : Grouped start rows groups) (hnew : key ∉ groups.map Group.key)
    {g : Group} (hg : Group.add args ⟨key, start⟩ = .ok g) :
    Grouped start (rows ++ [(key, args)]) (groups ++ [g]) := by
  obtain rfl : g.key = key := Group.key_of_add hg
  constructor
  · rw [List.map_append, List.nodup_append_comm]
    exact List.nodup_cons.mpr ⟨hnew, h.nodup⟩
  · intro k
    rw [List.map_append, List.map_append, List.mem_append, List.mem_append, h.keys k]
    rfl
  · intro g₁ hg₁
    rcases List.mem_append.mp hg₁ with hold | hlast
    · have hne : g₁.key ≠ g.key := fun hsame => hnew (hsame ▸ List.mem_map_of_mem hold)
      exact h.gathered_of_ne hold hne args
    · obtain rfl := List.mem_singleton.mp hlast
      rw [rowsOf_append_of_eq rows rfl, rowsOf_eq_nil (mt (h.keys _).mpr hnew)]
      exact Group.addAll_append_of_ok rfl hg

theorem Grouped.replace {before after : List Group} {g g' : Group}
    (h : Grouped start rows (before ++ g :: after)) (hg : Group.add args g = .ok g') :
    Grouped start (rows ++ [(g.key, args)]) (before ++ g' :: after) := by
  have hkey : g'.key = g.key := Group.key_of_add hg
  have hkeys : (before ++ g' :: after).map Group.key = (before ++ g :: after).map Group.key := by
    rw [List.map_append, List.map_append, List.map_cons, List.map_cons, hkey]
  have hmem : g ∈ before ++ g :: after := List.mem_append_cons_self
  constructor
  · rw [hkeys]
    exact h.nodup
  · intro k
    have hold : g.key ∈ rows.map Prod.fst := (h.keys _).mp (List.mem_map_of_mem hmem)
    rw [hkeys, h.keys k, List.map_append, List.mem_append, List.map_singleton, List.mem_singleton]
    exact ⟨Or.inl, fun hk => hk.elim id fun hk => hk ▸ hold⟩
  · have hfresh := h.nodup
    rw [List.map_append, List.map_cons, List.nodup_middle, List.nodup_cons,
      ← List.map_append] at hfresh
    intro g₁ hg₁
    rw [List.mem_append, List.mem_cons, or_left_comm, ← List.mem_append] at hg₁
    rcases hg₁ with rfl | hrest
    · rw [rowsOf_append_of_eq rows hkey.symm, hkey]
      exact Group.addAll_append_of_ok (h.gathered g hmem) hg
    · have hold : g₁ ∈ before ++ g :: after :=
        (List.Sublist.append_left (List.sublist_cons_self g after) before).subset hrest
      have hne : g₁.key ≠ g.key := fun hsame => hfresh.1 (hsame ▸ List.mem_map_of_mem hrest)
      exact h.gathered_of_ne hold hne args

theorem Grouped.addToGroups (h : Grouped start rows groups)
    (hadd : addToGroups start key args groups = .ok groups') :
    Grouped start (rows ++ [(key, args)]) groups' := by
  obtain ⟨g, hnew, hg, rfl⟩ | ⟨before, g, after, g', rfl, rfl, hg', rfl⟩ := addToGroups_eq_ok hadd
  · exact h.append hnew hg
  · exact h.replace hg'

/-- All rows: their keys can be read, and the groups are those of the rows with these keys. -/
theorem Grouped.foldlM_addRow {read : List (List (Outcome Cell) × List (Outcome Cell))}
    (h : Grouped start rows groups) (hread : read.foldlM (addRow start) groups = .ok groups') :
    ∃ keys, List.Forall₂ (fun row key => row.1.mapM id = .ok key) read keys ∧
      Grouped start (rows ++ keys.zip (read.map Prod.snd)) groups' := by
  induction read generalizing rows groups with
  | nil =>
      cases hread
      refine ⟨[], .nil, ?_⟩
      rwa [List.zip_nil_left, List.append_nil]
  | cons row read ih =>
      rw [List.foldlM_cons] at hread
      obtain ⟨next, hrow, hread⟩ := bind_eq_ok.mp hread
      obtain ⟨key, hkey, hrow⟩ := bind_eq_ok.mp hrow
      obtain ⟨keys, hkeys, hgroups⟩ := ih (h.addToGroups hrow) hread
      refine ⟨key :: keys, .cons hkey hkeys, ?_⟩
      rwa [List.map_cons, List.zip_cons_cons, List.append_cons]

end Groups

section Gathering

variable {g g' : Group} {i : Nat} {a : Accumulator}

theorem Group.getElem?_of_add {args : List (Outcome Cell)} {v : Cell}
    (h : Group.add args g = .ok g') (ha : g.gathered[i]? = some a) (hv : args[i]? = some (.ok v)) :
    ∃ a', g'.gathered[i]? = some a' ∧ a.add v = .ok a' := by
  obtain ⟨gathered, hgathered, h⟩ := bind_eq_ok.mp h
  cases h
  have hpair : (g.gathered.zip args)[i]? = some (a, .ok v) :=
    List.getElem?_zip_eq_some.mpr ⟨ha, hv⟩
  exact exists_getElem?_of_forall₂ (mapM_eq_ok.mp hgathered) hpair

theorem Group.getElem?_of_addAll {rows : List (List (Outcome Cell))}
    {c : List (Option (Whole .int64))}
    (hc : List.Forall₂ (fun args n => args[i]? = some (.ok (Cell.ofWhole n))) rows c)
    (h : g.addAll rows = .ok g') (ha : g.gathered[i]? = some a) :
    ∃ a', g'.gathered[i]? = some a' ∧ a.addAll c.reduceOption = .ok a' := by
  induction hc generalizing g a with
  | nil =>
      cases h
      exact ⟨a, ha, rfl⟩
  | @cons args n rows c hn _ ih =>
      rw [addAll, List.foldlM_cons] at h
      obtain ⟨next, hnext, h⟩ := bind_eq_ok.mp h
      obtain ⟨a', ha', hadd⟩ := Group.getElem?_of_add hnext ha hn
      rw [Accumulator.addAll_reduceOption_cons, hadd]
      exact ih h ha'

end Gathering

section Cells

theorem Rowwise.forall₂ {α β : Type} {f : List α → Outcome (List β)} (h : Rowwise f)
    {rows : List α} {out : List β} (hout : f rows = .ok out) :
    List.Forall₂ (fun a b => f [a] = .ok [b]) rows out := by
  obtain ⟨g, hg⟩ := h
  have hrows := hg rows
  rw [hout] at hrows
  cases g with
  | none => cases hrows
  | some g =>
      have hsingle : ∀ a b, g a = some b → f [a] = .ok [b] := by
        intro a b hab
        apply toOption_eq_some.mp
        rw [hg]
        simp [hab]
      have hall : rows.mapM g = some out := hrows.symm
      clear hout hrows
      induction rows generalizing out with
      | nil =>
          cases hall
          exact .nil
      | cons a rows ih =>
          rw [List.mapM_cons] at hall
          obtain ⟨b, hb, hall⟩ := Option.bind_eq_some_iff.mp hall
          obtain ⟨bs, hbs, hall⟩ := Option.bind_eq_some_iff.mp hall
          cases hall
          exact .cons (hsingle a b hb) (ih hbs)

variable {s : Schema}

theorem getElem?_transposeCells {α : Type} {columns : List (List α)} {count r i : Nat}
    {row column : List α} (hrow : (transposeCells count columns)[r]? = some row)
    (hcolumn : columns[i]? = some column) : row[i]? = column[r]? := by
  induction columns generalizing row i with
  | nil => cases hcolumn
  | cons first columns ih =>
      rw [transposeCells, List.foldr_cons] at hrow
      obtain ⟨x, rest, hx, hrest, rfl⟩ := List.getElem?_zipWith_eq_some.mp hrow
      cases i with
      | zero =>
          cases hcolumn
          exact hx.symm
      | succ i =>
          show rest[i]? = column[r]?
          exact ih hrest hcolumn

theorem transposeCells_cons {α : Type} (count : Nat) (column : List α) (columns : List (List α)) :
    transposeCells count (column :: columns) =
      List.zipWith List.cons column (transposeCells count columns) := rfl

theorem transposeCells_map {α β γ : Type} (items : List γ) (columns : List α) (f : α → γ → β) :
    transposeCells items.length (columns.map fun column => items.map (f column)) =
      items.map fun item => columns.map (f · item) := by
  induction columns with
  | nil =>
      show List.replicate items.length [] = _
      simp [List.map_const']
  | cons column columns ih =>
      rw [List.map_cons, transposeCells_cons, ih, List.zipWith_map, List.zipWith_self]
      rfl

theorem transposeCells_convert {α β : Type} (count : Nat) (columns : List (List α)) (f : α → β) :
    transposeCells count (columns.map (List.map f)) =
      (transposeCells count columns).map (List.map f) := by
  induction columns with
  | nil =>
      show List.replicate count [] = (List.replicate count []).map _
      simp
  | cons column columns ih =>
      rw [List.map_cons, transposeCells_cons, transposeCells_cons, ih, List.zipWith_map,
        List.map_zipWith]
      rfl

theorem length_transposeCells {α : Type} {count : Nat} {columns : List (List α)}
    (h : ∀ column ∈ columns, column.length = count) :
    (transposeCells count columns).length = count := by
  induction columns with
  | nil => exact List.length_replicate
  | cons column columns ih =>
      obtain ⟨hcolumn, hcolumns⟩ := List.forall_mem_cons.mp h
      rw [transposeCells_cons, List.length_zipWith, hcolumn, ih hcolumns, Nat.min_self]

theorem getElem?_evalCells {es : List (AnyCompiled s)} {i : Nat} {e : Compiled s .int64}
    (hi : es[i]? = some ⟨_, e⟩) {row : Row s} {cells : List (Outcome Cell)}
    (hcells : evalCells es [row] = .ok [cells]) {n : Option (Whole .int64)}
    (hn : e.eval [row] = .ok [n]) : cells[i]? = some (.ok (Cell.ofWhole n)) := by
  obtain ⟨columns, hcolumns, hrows⟩ := bind_eq_ok.mp hcells
  obtain ⟨column, hcolumn, he⟩ := exists_getElem?_of_forall₂ (mapM_eq_ok.mp hcolumns) hi
  obtain ⟨values, hvalues, he⟩ := bind_eq_ok.mp he
  rw [hn] at hvalues
  cases hvalues
  cases he
  have hrow : (transposeCells [row].length columns)[0]? = some cells := by
    rw [pure_eq_ok.mp hrows]
    rfl
  rw [getElem?_transposeCells hrow hcolumn]
  exact congrArg some (read_integer n)

theorem forall₂_evalCells {es : List (AnyCompiled s)} {i : Nat} {e : Compiled s .int64}
    (hi : es[i]? = some ⟨_, e⟩) {rows : Batch s} {cells : List (List (Outcome Cell))}
    (hcells : evalCells es rows = .ok cells) {c : Column .int64} (hc : e.eval rows = .ok c) :
    List.Forall₂ (fun cells n => cells[i]? = some (.ok (Cell.ofWhole n))) cells c := by
  refine forall₂_trans (S := fun row n => e.eval [row] = .ok [n]) (fun _ row n hrow hn => ?_)
    ((rowwise_evalCells es).forall₂ hcells).flip (e.rowwise_eval.forall₂ hc)
  exact getElem?_evalCells hi hrow hn

end Cells

section Results

theorem Batch.getElem?_ofCells {columns : List (Field × List Cell)} {count : Nat}
    {b : Batch (columns.map (·.1))} (h : Batch.ofCells count columns = .ok b) {i : Nat}
    {f : Field} {cells : List Cell} (hi : columns[i]? = some (f, cells)) :
    ∃ column, Cell.build f.type cells = .ok column ∧
      ∀ (r : Nat) (row : Row (columns.map (·.1))), b[r]? = some row →
        ∃ entry, column[r]? = some entry ∧ row.entries[i]? = some ⟨f.type, entry⟩ := by
  induction columns generalizing i with
  | nil => cases hi
  | cons first columns ih =>
      obtain ⟨column, hcolumn, h⟩ := bind_eq_ok.mp h
      obtain ⟨rest, hrest, h⟩ := bind_eq_ok.mp h
      cases h
      have hrow : ∀ (r : Nat) row, (Batch.consColumn column rest)[r]? = some row →
          ∃ entry more, column[r]? = some entry ∧ rest[r]? = some more ∧
            row = .cons entry more := by
        intro r row hr
        obtain ⟨entry, more, hentry, hmore, hsame⟩ := List.getElem?_zipWith_eq_some.mp hr
        exact ⟨entry, more, hentry, hmore, hsame.symm⟩
      cases i with
      | zero =>
          cases hi
          refine ⟨column, hcolumn, fun r row hr => ?_⟩
          obtain ⟨entry, more, hentry, -, rfl⟩ := hrow r row hr
          exact ⟨entry, hentry, rfl⟩
      | succ i =>
          obtain ⟨column', hcolumn', hrows⟩ := ih hrest hi
          refine ⟨column', hcolumn', fun r row hr => ?_⟩
          obtain ⟨entry, more, -, hmore, rfl⟩ := hrow r row hr
          exact hrows r more hmore

theorem Cell.length_build {t : DataType} {cells : List Cell} {column : Column t}
    (h : Cell.build t cells = .ok column) : column.length = cells.length := by
  unfold Cell.build at h
  split at h
  · cases h
  · cases h
  · exact (mapM_eq_ok.mp h).length_eq.symm

theorem Batch.length_ofCells {columns : List (Field × List Cell)} {count : Nat}
    {b : Batch (columns.map (·.1))} (h : Batch.ofCells count columns = .ok b)
    (hcount : ∀ column ∈ columns, column.2.length = count) : b.length = count := by
  induction columns with
  | nil =>
      cases h
      exact List.length_replicate
  | cons first columns ih =>
      obtain ⟨column, hcolumn, h⟩ := bind_eq_ok.mp h
      obtain ⟨rest, hrest, h⟩ := bind_eq_ok.mp h
      cases h
      obtain ⟨hfirst, hothers⟩ := List.forall_mem_cons.mp hcount
      show (List.zipWith _ column rest).length = count
      rw [List.length_zipWith, Cell.length_build hcolumn, hfirst, ih hrest hothers, Nat.min_self]

theorem eq_of_check {s : Schema} {site : BatchSite} {b b' : Batch s}
    (h : b.check site = .ok b') : b' = b := by
  have hall := b.toOption_check site
  rw [h] at hall
  split at hall
  · cases hall
  · split at hall
    · cases hall
    · exact Option.some.inj hall

end Results

section Aggregation

variable {s : Schema}

/-- The key of a row: the cells that the grouping keys have for it. -/
def rowKey (keys : List Expr) (b : ScalarBindings) (row : Row s) : Outcome (List Cell) := do
  let compiled ← keys.mapM (·.compile s b)
  let cells ← evalCells compiled [row]
  cells.flatten.mapM id

/-- What an aggregate comes to for the integers of rows with keys: one row for each key, with the
exact result for the integers of that key in its place. No sum leaves its range. -/
def AggregateFn.GroupsAs (fn : AggregateFn) (position : Nat) (keys : List (List Cell))
    (entries : List (Option Int)) (out : Batch s) : Prop :=
  ∃ groupKeys : List (List Cell), groupKeys.Nodup ∧ (∀ key, key ∈ groupKeys ↔ key ∈ keys) ∧
    List.Forall₂ (fun key row => ∃ found : Option (Whole .int64),
      row.entries[position]? = some ⟨.int64, found⟩ ∧
        ¬ fn.Overflows (rowsOf key (keys.zip entries)).reduceOption ∧
          found.map Subtype.val = fn.exact (rowsOf key (keys.zip entries)).reduceOption)
      groupKeys out

theorem addBatch_eq_ok {keys : List (AnyCompiled s)} {measures : List (Measure s)}
    {rows : Batch s} {groups : List Group} (h : addBatch keys measures [] rows = .ok groups) :
    ∃ cells args found, evalCells keys rows = .ok cells ∧
      evalCells (measures.map (·.arg)) rows = .ok args ∧
      List.Forall₂ (fun cells key => cells.mapM id = .ok key) cells found ∧
        Grouped (measures.map Measure.start) (found.zip args) groups := by
  obtain ⟨cells, hcells, h⟩ := bind_eq_ok.mp h
  obtain ⟨args, hargs, h⟩ := bind_eq_ok.mp h
  have hlength : cells.length = args.length := by
    rw [(rowwise_evalCells _).length hcells, (rowwise_evalCells _).length hargs]
  obtain ⟨found, hfound, hgroups⟩ := (grouped_nil _).foldlM_addRow h
  rw [List.nil_append, List.map_snd_zip hlength.ge] at hgroups
  refine ⟨cells, args, found, hcells, hargs, ?_, hgroups⟩
  rw [← List.map_fst_zip hlength.le, List.forall₂_map_left_iff]
  exact hfound

theorem Grouped.result {measures : List (Measure s)} {keys : List (List Cell)}
    {args : List (List (Outcome Cell))} {groups : List Group}
    (h : Grouped (measures.map Measure.start) (keys.zip args) groups) {i : Nat} {m : Measure s}
    (hm : measures[i]? = some m) (hfn : m.fn.IsIntegral) (ht : m.type = .int64)
    {c : List (Option (Whole .int64))}
    (hc : List.Forall₂ (fun args n => args[i]? = some (.ok (Cell.ofWhole n))) args c) :
    ∀ g ∈ groups, ∃ a found, g.gathered[i]? = some a ∧ a.result = Cell.ofWhole found ∧
      ¬ m.fn.Overflows ((rowsOf g.key (keys.zip c)).reduceOption.map Subtype.val) ∧
        found.map Subtype.val =
          m.fn.exact ((rowsOf g.key (keys.zip c)).reduceOption.map Subtype.val) := by
  intro g hg
  have hstart : (measures.map Measure.start)[i]? = some m.start := by
    rw [List.getElem?_map, hm]
    rfl
  obtain ⟨a, ha, hadd⟩ := Group.getElem?_of_addAll (forall₂_rowsOf hc g.key keys)
    (h.gathered g hg) hstart
  obtain ⟨hexact, hoverflow⟩ := m.addAll_start hfn ht (rowsOf g.key (keys.zip c)).reduceOption
  have hstays : ¬ m.fn.Overflows ((rowsOf g.key (keys.zip c)).reduceOption.map Subtype.val) := by
    intro hover
    rw [hoverflow hover] at hadd
    cases hadd
  obtain ⟨a', found, hadd', hresult, hfound⟩ := hexact hstays
  rw [hadd] at hadd'
  cases hadd'
  exact ⟨a, found, ha, hresult, hstays, hfound⟩

theorem entries_of_groupsToRelation {columns : List (Field × List Cell)} {groups : List Group}
    {out : Relation} (h : groupsToRelation columns groups = .ok out)
    (hlength : ∀ column ∈ columns, column.2.length = groups.length) {i : Nat} {name : String}
    {found : List (Option (Whole .int64))}
    (hi : columns[i]? = some (⟨name, .int64, true⟩, found.map Cell.ofWhole)) :
    List.Forall₂ (fun (n : Option (Whole .int64)) row => row.entries[i]? = some ⟨.int64, n⟩)
      found out.rows := by
  have hfound : found.length = groups.length := by
    rw [← hlength _ (List.mem_of_getElem? hi), List.length_map]
  unfold groupsToRelation at h
  split at h
  · rename_i hempty
    rw [List.isEmpty_iff.mp hempty] at hfound
    cases h
    rw [List.length_eq_zero_iff.mp hfound]
    exact .nil
  · obtain ⟨b, hb, h⟩ := bind_eq_ok.mp h
    obtain ⟨checked, hchecked, h⟩ := bind_eq_ok.mp h
    cases h
    obtain rfl := eq_of_check hchecked
    have hentries : ∀ (r : Nat) (row : Row (columns.map (·.1))), checked[r]? = some row →
        ∃ n : Option (Whole .int64), found[r]? = some n ∧
          row.entries[i]? = some ⟨.int64, n⟩ := by
      obtain ⟨column, hcolumn, hrows⟩ := Batch.getElem?_ofCells hb hi
      cases hcolumn.symm.trans (build_ofWhole found)
      exact hrows
    show List.Forall₂ _ found [checked].flatten
    rw [List.flatten_singleton, List.forall₂_iff_get]
    refine ⟨hfound.trans (Batch.length_ofCells hb hlength).symm, fun r hr hr' => ?_⟩
    obtain ⟨n, hn, hentry⟩ := hentries r _ (List.getElem?_eq_getElem hr')
    obtain rfl := Option.some.inj ((List.getElem?_eq_getElem hr).symm.trans hn)
    exact hentry

theorem forall₂_rowKey {keys : List Expr} {b : ScalarBindings}
    {compiled : List (Expr × AnyCompiled s)}
    (hcompiled : (keys.mapM fun k => do return (k, ← k.compile s b)) = .ok compiled)
    {rows : Batch s} {cells : List (List (Outcome Cell))}
    (hcells : evalCells (compiled.map (·.2)) rows = .ok cells) {found : List (List Cell)}
    (hfound : List.Forall₂ (fun cells key => cells.mapM id = .ok key) cells found) :
    List.Forall₂ (fun row key => rowKey keys b row = .ok key) rows found := by
  have hkeys : keys.mapM (·.compile s b) = .ok (compiled.map (·.2)) := by
    refine mapM_eq_ok.mpr ?_
    rw [List.forall₂_map_right_iff]
    refine (mapM_eq_ok.mp hcompiled).imp fun k c hc => ?_
    obtain ⟨e, he, hc⟩ := bind_eq_ok.mp hc
    cases hc
    exact he
  refine forall₂_trans (fun row cells key hrow hkey => ?_)
    ((rowwise_evalCells (compiled.map (·.2))).forall₂ hcells) hfound
  refine bind_eq_ok.mpr ⟨_, hkeys, bind_eq_ok.mpr ⟨_, hrow, ?_⟩⟩
  rw [List.flatten_singleton]
  exact hkey

theorem rowsOf_zip_map {α β : Type} (f : α → β) (key : List Cell) (keys : List (List Cell))
    (as : List α) : rowsOf key (keys.zip (as.map f)) = (rowsOf key (keys.zip as)).map f := by
  rw [← List.forall₂_eq_eq_eq, List.forall₂_map_right_iff]
  refine (forall₂_rowsOf ?_ key keys).flip
  rw [List.forall₂_map_right_iff, List.forall₂_same]
  exact fun a _ => rfl

theorem groupsAs_of_grouped {measures : List (Measure s)} {found : List (List Cell)}
    {args : List (List (Outcome Cell))} {groups : List Group}
    (hgroups : Grouped (measures.map Measure.start) (found.zip args) groups)
    (hlength : found.length = args.length) {i : Nat} {m : Measure s} (hm : measures[i]? = some m)
    (hfn : m.fn.IsIntegral) (ht : m.type = .int64) {c : List (Option (Whole .int64))}
    (hc : List.Forall₂ (fun args n => args[i]? = some (.ok (Cell.ofWhole n))) args c)
    {keys : List (Expr × AnyCompiled s)} {out : Relation}
    (hout : groupsToRelation (keyColumns keys groups ++ measureColumns measures groups) groups =
      .ok out) :
    m.fn.GroupsAs (keys.length + i) found (c.map (Option.map Subtype.val)) out.rows := by
  obtain ⟨ns, hns⟩ := exists_forall₂ fun g hg => by
    obtain ⟨a, n, ha, hresult, hn⟩ := hgroups.result hm hfn ht hc g hg
    exact ⟨n, (⟨a, ha, hresult, hn⟩ : ∃ a, g.gathered[i]? = some a ∧
      a.result = Cell.ofWhole n ∧ _)⟩
  have hcolumn : (measureColumns measures groups)[i]? = some (m.field, ns.map Cell.ofWhole) := by
    rw [measureColumns, List.getElem?_map, List.getElem?_zipIdx, hm, Nat.zero_add]
    refine congrArg some (Prod.ext rfl ?_)
    show groups.map _ = _
    rw [← List.forall₂_eq_eq_eq, List.forall₂_map_left_iff, List.forall₂_map_right_iff]
    refine hns.imp fun g n hn => ?_
    obtain ⟨a, ha, hresult, -⟩ := hn
    rw [ha, Option.map_some, Option.getD_some, hresult]
  -- Key columns come first, so the column of measure `i` stands behind them.
  have hplace : (keyColumns keys groups ++ measureColumns measures groups)[keys.length + i]? =
      some (⟨m.name, .int64, true⟩, ns.map Cell.ofWhole) := by
    have hkeys : (keyColumns keys groups).length = keys.length := by simp [keyColumns]
    rw [← hkeys, List.getElem?_append_right (Nat.le_add_right _ _), Nat.add_sub_cancel_left,
      hcolumn, Measure.field_eq ht]
  have hentries := entries_of_groupsToRelation hout (length_columns keys measures groups) hplace
  refine ⟨groups.map Group.key, hgroups.nodup, fun key => ?_, ?_⟩
  · rw [hgroups.keys key, List.map_fst_zip hlength.le]
  · rw [List.forall₂_map_left_iff]
    refine forall₂_trans (fun g n row hn hentry => ?_) hns hentries
    obtain ⟨a, -, -, hstays, hexact⟩ := hn
    refine ⟨n, hentry, ?_, ?_⟩
    · rwa [rowsOf_zip_map, reduceOption_map_val]
    · rwa [rowsOf_zip_map, reduceOption_map_val]

theorem aggregateRelation_eq_ok {batches : List (Batch s)} {keys : List Expr}
    {aggregates : List (Named Aggregate)} {b : ScalarBindings} {out : Relation}
    (h : aggregateRelation ⟨s, batches⟩ keys aggregates b = .ok out) :
    ∃ compiled measures groups,
      (keys.mapM fun k => do return (k, ← k.compile s b)) = .ok compiled ∧
      aggregates.mapM (compileMeasure s b) = .ok measures ∧
      batches.foldlM (addBatch (compiled.map (·.2)) measures) [] = .ok groups ∧
      groupsToRelation (keyColumns compiled groups ++ measureColumns measures groups) groups =
        .ok out := by
  obtain ⟨compiled, hcompiled, h⟩ := bind_eq_ok.mp h
  obtain ⟨measures, hmeasures, h⟩ := bind_eq_ok.mp h
  obtain ⟨groups, hgroups, h⟩ := bind_eq_ok.mp h
  exact ⟨compiled, measures, groups, hcompiled, hmeasures, hgroups, h⟩

theorem getElem?_compileMeasure {aggregates : List (Named Aggregate)} {b : ScalarBindings}
    {measures : List (Measure s)} (h : aggregates.mapM (compileMeasure s b) = .ok measures)
    {i : Nat} {a : Named Aggregate} (hi : aggregates[i]? = some a) {c : AnyCompiled s}
    (hc : a.value.arg.compile s b = .ok c) : measures[i]? = some ⟨a.value.fn, a.name, c⟩ := by
  obtain ⟨m, hm, hcompiled⟩ := exists_getElem?_of_forall₂ (mapM_eq_ok.mp h) hi
  obtain ⟨c', hc', hcompiled⟩ := bind_eq_ok.mp hcompiled
  rw [hc] at hc'
  cases hc'
  cases hcompiled
  exact hm

/-- A column of integers in an aggregation that succeeds: there is one row for each key, and it has
the exact result for the integers of that key. -/
theorem groupsAs_aggregateRelation {r out : Relation} {keys : List Expr}
    {aggregates : List (Named Aggregate)} {b : ScalarBindings} {arg : Expr} {c : Column .int64}
    (h : arg.values r.schema b r.rows = .ok ⟨.int64, c⟩) {fn : AggregateFn} (hfn : fn.IsIntegral)
    {i : Nat} {name : String} (hi : aggregates[i]? = some ⟨⟨fn, arg⟩, name⟩)
    (hout : aggregateRelation r keys aggregates b = .ok out) :
    ∃ found, List.Forall₂ (fun row key => rowKey keys b row = .ok key) r.rows found ∧
      fn.GroupsAs (keys.length + i) found (List.map (Option.map Subtype.val) c) out.rows := by
  obtain ⟨s, batches⟩ := r
  change arg.values s b batches.flatten = _ at h
  obtain ⟨⟨t, e⟩, harg, hvalues⟩ := bind_eq_ok.mp h
  obtain ⟨column, hrows, hsame⟩ := bind_eq_ok.mp hvalues
  cases hsame
  have htype := Measure.type_of_isIntegral hfn name e
  by_cases hne : batches = []
  · -- Nothing is evaluated for no batches, and there are no groups.
    subst hne
    obtain rfl : c = [] := List.length_eq_zero_iff.mp (e.rowwise_eval.length hrows)
    obtain ⟨compiled, measures, groups, hcompiled, hmeasures, hgroups, hout⟩ :=
      aggregateRelation_eq_ok hout
    cases hgroups
    have hgrouped : Grouped (measures.map Measure.start)
        (([] : List (List Cell)).zip ([] : List (List (Outcome Cell)))) [] := grouped_nil _
    have hm := getElem?_compileMeasure hmeasures hi harg
    rw [(mapM_eq_ok.mp hcompiled).length_eq]
    exact ⟨[], .nil, groupsAs_of_grouped hgrouped rfl hm hfn htype .nil hout⟩
  · -- The rows might as well be those of one batch.
    have halike := (alike_aggregateRelation_flatten hne keys aggregates b).symm
    rw [hout] at halike
    obtain ⟨_, hsingle, rfl⟩ := halike.ok_left
    obtain ⟨compiled, measures, groups, hcompiled, hmeasures, hgroups, hout⟩ :=
      aggregateRelation_eq_ok hsingle
    rw [List.foldlM_cons] at hgroups
    obtain ⟨_, hbatch, hdone⟩ := bind_eq_ok.mp hgroups
    cases hdone
    obtain ⟨cells, args, found, hcells, hargs, hfound, hgrouped⟩ := addBatch_eq_ok hbatch
    have hlength : found.length = args.length := by
      rw [← hfound.length_eq, (rowwise_evalCells _).length hcells,
        (rowwise_evalCells _).length hargs]
    have hm := getElem?_compileMeasure hmeasures hi harg
    have hplace : (measures.map (·.arg))[i]? = some ⟨.int64, e⟩ := by
      rw [List.getElem?_map, hm]
      rfl
    rw [(mapM_eq_ok.mp hcompiled).length_eq]
    exact ⟨found, forall₂_rowKey hcompiled hcells hfound, groupsAs_of_grouped hgrouped hlength hm
      hfn htype (forall₂_evalCells hplace hargs hrows) hout⟩

end Aggregation

end RelScript
