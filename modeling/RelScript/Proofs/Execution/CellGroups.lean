import RelScript.Proofs.Execution.CellAggregates
import RelScript.Proofs.Execution.IntegerGroups

/-!
Rows of cells gathered in groups. Taking all rows in, one after the other, comes to the same as
gathering the rows of every key alone: the one succeeds if the other does, and the groups stand in
the order in which their keys first appear. In a group every accumulator gathers the cells of its
own column.
-/

namespace RelScript

section Order

variable {start : List Accumulator} {rows more : List (List Cell × List (Outcome Cell))}
  {groups groups' : List Group} {key : List Cell} {args : List (Outcome Cell)}

/-- Takes rows with their keys into groups, one after the other. -/
def addRows (start : List Accumulator) (rows : List (List Cell × List (Outcome Cell)))
    (groups : List Group) : Outcome (List Group) :=
  rows.foldlM (fun groups row => addToGroups start row.1 row.2 groups) groups

theorem addRows_cons (row : List Cell × List (Outcome Cell)) (groups : List Group) :
    addRows start (row :: more) groups =
      addToGroups start row.1 row.2 groups >>= addRows start more :=
  List.foldlM_cons

theorem keys_addToGroups {keys : List (List Cell)} (hkeys : groups.map Group.key = keys.eraseDups)
    (h : addToGroups start key args groups = .ok groups') :
    groups'.map Group.key = (keys ++ [key]).eraseDups := by
  rw [List.eraseDups_append]
  obtain ⟨g, hnew, hg, rfl⟩ | ⟨before, g, after, g', rfl, rfl, hg', rfl⟩ := addToGroups_eq_ok h
  · have hfresh : key ∉ keys := by rwa [hkeys, List.mem_eraseDups] at hnew
    have hlast : [key].removeAll keys = [key] := by simp [List.removeAll, hfresh]
    rw [List.map_append, hkeys, hlast, List.map_singleton, Group.key_of_add hg]
    rfl
  · have hmem : g.key ∈ keys := by
      rw [← List.mem_eraseDups, ← hkeys]
      exact List.mem_map_of_mem List.mem_append_cons_self
    have hnone : [g.key].removeAll keys = [] := by simp [List.removeAll, hmem]
    rw [hnone, List.eraseDups_nil, List.append_nil, ← hkeys, List.map_append, List.map_append,
      List.map_cons, List.map_cons, Group.key_of_add hg']

theorem exists_addToGroups
    (hnew : key ∉ groups.map Group.key → ∃ g, Group.add args ⟨key, start⟩ = .ok g)
    (hold : ∀ g ∈ groups, g.key = key → ∃ g', Group.add args g = .ok g') :
    ∃ groups', addToGroups start key args groups = .ok groups' := by
  induction groups with
  | nil =>
      obtain ⟨g, hg⟩ := hnew List.not_mem_nil
      exact ⟨[g], bind_eq_ok.mpr ⟨g, hg, rfl⟩⟩
  | cons first rest ih =>
      obtain ⟨hfirst, hrest⟩ := List.forall_mem_cons.mp hold
      rw [addToGroups]
      by_cases hkey : first.key = key
      · obtain ⟨g, hg⟩ := hfirst hkey
        rw [if_pos hkey]
        exact ⟨g :: rest, bind_eq_ok.mpr ⟨g, hg, rfl⟩⟩
      · have hnew' : key ∉ rest.map Group.key → ∃ g, Group.add args ⟨key, start⟩ = .ok g := by
          intro hmem
          refine hnew ?_
          rw [List.map_cons, List.mem_cons, not_or]
          exact ⟨Ne.symm hkey, hmem⟩
        obtain ⟨rest', hrest'⟩ := ih hnew' hrest
        rw [if_neg hkey]
        exact ⟨first :: rest', bind_eq_ok.mpr ⟨rest', hrest', rfl⟩⟩

theorem Grouped.exists_addToGroups (h : Grouped start rows groups) {g : Group}
    (hg : Group.addAll ⟨key, start⟩ (rowsOf key rows ++ [args]) = .ok g) :
    ∃ groups', RelScript.addToGroups start key args groups = .ok groups' := by
  rw [Group.addAll, List.foldlM_append] at hg
  obtain ⟨before, hbefore, hlast⟩ := bind_eq_ok.mp hg
  rw [List.foldlM_cons] at hlast
  obtain ⟨last, hadd, -⟩ := bind_eq_ok.mp hlast
  refine RelScript.exists_addToGroups (fun hnew => ?_) fun old hold hkey => ?_
  · rw [rowsOf_eq_nil (mt (h.keys key).mpr hnew)] at hbefore
    cases hbefore
    exact ⟨last, hadd⟩
  · subst hkey
    cases (h.gathered old hold).symm.trans hbefore
    exact ⟨last, hadd⟩

theorem Grouped.exists_addRows (h : Grouped start rows groups)
    (hall : ∀ key ∈ more.map Prod.fst,
      ∃ g, Group.addAll ⟨key, start⟩ (rowsOf key (rows ++ more)) = .ok g) :
    ∃ groups', addRows start more groups = .ok groups' := by
  induction more generalizing rows groups with
  | nil => exact ⟨groups, rfl⟩
  | cons row more ih =>
      obtain ⟨key, args⟩ := row
      rw [List.append_cons] at hall
      obtain ⟨hfirst, hrest⟩ := List.forall_mem_cons.mp hall
      obtain ⟨g, hg⟩ := hfirst
      have hsplit : rowsOf key (rows ++ [(key, args)] ++ more) =
          (rowsOf key rows ++ [args]) ++ rowsOf key more := by
        rw [← rowsOf_append_of_eq rows rfl, rowsOf, rowsOf, rowsOf, List.filter_append,
          List.map_append]
      rw [hsplit, Group.addAll, List.foldlM_append] at hg
      obtain ⟨first, hfirst, -⟩ := bind_eq_ok.mp hg
      obtain ⟨next, hnext⟩ := h.exists_addToGroups hfirst
      obtain ⟨groups', hgroups'⟩ := ih (h.addToGroups hnext) hrest
      exact ⟨groups', by rw [addRows_cons, hnext]; exact hgroups'⟩

theorem Grouped.addRows (h : Grouped start rows groups)
    (hkeys : groups.map Group.key = (rows.map Prod.fst).eraseDups)
    (hrun : RelScript.addRows start more groups = .ok groups') :
    Grouped start (rows ++ more) groups' ∧
      groups'.map Group.key = ((rows ++ more).map Prod.fst).eraseDups := by
  induction more generalizing rows groups with
  | nil =>
      cases hrun
      rw [List.append_nil]
      exact ⟨h, hkeys⟩
  | cons row more ih =>
      rw [addRows_cons] at hrun
      obtain ⟨next, hnext, hrun⟩ := bind_eq_ok.mp hrun
      have hkeys' := keys_addToGroups hkeys hnext
      rw [← List.map_singleton, ← List.map_append] at hkeys'
      rw [List.append_cons]
      exact ih (h.addToGroups hnext) hkeys' hrun

/-- All rows can be taken in exactly if the rows of each key can be gathered. -/
theorem exists_addRows_iff (start : List Accumulator)
    (rows : List (List Cell × List (Outcome Cell))) :
    (∃ groups, addRows start rows [] = .ok groups) ↔
      ∀ key ∈ rows.map Prod.fst, ∃ g, Group.addAll ⟨key, start⟩ (rowsOf key rows) = .ok g := by
  constructor
  · rintro ⟨groups, hgroups⟩ key hkey
    obtain ⟨hgrouped, -⟩ := (grouped_nil start).addRows rfl hgroups
    obtain ⟨g, hg, rfl⟩ := List.mem_map.mp ((hgrouped.keys key).mpr hkey)
    exact ⟨g, hgrouped.gathered g hg⟩
  · intro hall
    exact (grouped_nil start).exists_addRows hall

theorem forall₂_of_addRows (h : addRows start rows [] = .ok groups) :
    List.Forall₂ (fun key g => Group.addAll ⟨key, start⟩ (rowsOf key rows) = .ok g)
      (rows.map Prod.fst).eraseDups groups := by
  obtain ⟨hgrouped, hkeys⟩ := (grouped_nil start).addRows rfl h
  rw [List.nil_append] at hkeys
  rw [← hkeys, List.forall₂_map_left_iff, List.forall₂_same]
  exact hgrouped.gathered

end Order

section Columns

/-- Takes a row of cells into accumulators, each cell in its place. -/
def gatherRow (accumulators : List Accumulator) (row : List Cell) : Outcome (List Accumulator) :=
  (accumulators.zip row).mapM fun p => p.1.add p.2

/-- Takes some rows of cells into accumulators, one row after the other. -/
def gatherRows (accumulators : List Accumulator) (rows : List (List Cell)) :
    Outcome (List Accumulator) :=
  rows.foldlM gatherRow accumulators

theorem Group.add_ok (g : Group) (row : List Cell) :
    g.add (row.map .ok) = (gatherRow g.gathered row).map (Group.mk g.key) := by
  have hgather : (g.gathered.zip (row.map .ok)).mapM (fun (p : Accumulator × Outcome Cell) => do
      p.1.add (← p.2)) = gatherRow g.gathered row := by
    rw [List.zip_map_right, List.mapM_map]
    rfl
  rw [add, hgather]
  cases gatherRow g.gathered row <;> rfl

theorem Group.addAll_ok (g : Group) (rows : List (List Cell)) :
    g.addAll (rows.map (List.map .ok)) = (gatherRows g.gathered rows).map (Group.mk g.key) := by
  induction rows generalizing g with
  | nil => rfl
  | cons row rows ih =>
      rw [List.map_cons, addAll, List.foldlM_cons, Group.add_ok, gatherRows, List.foldlM_cons]
      cases gatherRow g.gathered row with
      | error e => rfl
      | ok next => exact ih ⟨g.key, next⟩

variable {a : Accumulator} {as out : List Accumulator}

theorem gatherRow_cons_eq_ok {c : Cell} {row : List Cell} :
    gatherRow (a :: as) (c :: row) = .ok out ↔
      ∃ a' as', a.add c = .ok a' ∧ gatherRow as row = .ok as' ∧ out = a' :: as' := by
  simp only [gatherRow, List.zip_cons_cons, mapM_eq_ok, List.forall₂_cons_left_iff]

theorem gatherRows_cons_eq_ok {column : List Cell} {rows : List (List Cell)}
    (h : column.length = rows.length) :
    gatherRows (a :: as) (List.zipWith List.cons column rows) = .ok out ↔
      ∃ a' as', a.addCells column = .ok a' ∧ gatherRows as rows = .ok as' ∧ out = a' :: as' := by
  induction rows generalizing a as column with
  | nil =>
      obtain rfl := List.length_eq_zero_iff.mp h
      constructor
      · rintro ⟨⟩
        exact ⟨a, as, rfl, rfl, rfl⟩
      · rintro ⟨_, _, ⟨⟩, ⟨⟩, rfl⟩
        rfl
  | cons row rows ih =>
      obtain ⟨c, column, rfl⟩ := List.exists_cons_of_length_eq_add_one h
      have hlength : column.length = rows.length := Nat.succ.inj h
      rw [List.zipWith_cons_cons, gatherRows, List.foldlM_cons, bind_eq_ok]
      constructor
      · rintro ⟨next, hrow, hrows⟩
        obtain ⟨b, bs, hc, hrest, rfl⟩ := gatherRow_cons_eq_ok.mp hrow
        obtain ⟨a', as', hcolumn, hothers, rfl⟩ := (ih hlength).mp hrows
        exact ⟨a', as', bind_eq_ok.mpr ⟨b, hc, hcolumn⟩, bind_eq_ok.mpr ⟨bs, hrest, hothers⟩, rfl⟩
      · rintro ⟨a', as', hcolumn, hrows, rfl⟩
        obtain ⟨b, hc, hcolumn⟩ := bind_eq_ok.mp hcolumn
        obtain ⟨bs, hrow, hrows⟩ := bind_eq_ok.mp hrows
        exact ⟨b :: bs, gatherRow_cons_eq_ok.mpr ⟨b, bs, hc, hrow, rfl⟩,
          (ih hlength).mpr ⟨a', as', hcolumn, hrows, rfl⟩⟩

theorem gatherRows_nil (n : Nat) : gatherRows [] (List.replicate n []) = .ok [] := by
  induction n with
  | zero => rfl
  | succ n ih => exact ih

theorem gatherRows_transposeCells {n : Nat} {columns : List (List Cell)}
    (h : as.length = columns.length) (hcolumns : ∀ column ∈ columns, column.length = n) :
    gatherRows as (transposeCells n columns) = .ok out ↔
      List.Forall₂ (fun p a => p.1.addCells p.2 = .ok a) (as.zip columns) out := by
  induction columns generalizing as out with
  | nil =>
      obtain rfl := List.length_eq_zero_iff.mp h
      rw [transposeCells, List.foldr_nil, gatherRows_nil, List.zip_nil_left,
        List.forall₂_nil_left_iff]
      simp [eq_comm]
  | cons column columns ih =>
      obtain ⟨a, as, rfl⟩ := List.exists_cons_of_length_eq_add_one h
      obtain ⟨hcolumn, hrest⟩ := List.forall_mem_cons.mp hcolumns
      have hlength : column.length = (transposeCells n columns).length := by
        rw [hcolumn, length_transposeCells hrest]
      rw [transposeCells_cons, gatherRows_cons_eq_ok hlength, List.zip_cons_cons,
        List.forall₂_cons_left_iff]
      simp only [ih (Nat.succ.inj h) hrest]

theorem rowsOf_cons {α : Type} (key stored : List Cell) (keys : List (List Cell)) (item : α)
    (items : List α) : rowsOf key ((stored :: keys).zip (item :: items)) =
      (if stored = key then [item] else []) ++ rowsOf key (keys.zip items) := by
  rw [rowsOf, rowsOf, List.zip_cons_cons, List.filter_cons]
  by_cases hkey : stored = key <;> simp [hkey]

theorem length_rowsOf {α : Type} (key : List Cell) {keys : List (List Cell)} {items : List α}
    (h : items.length = keys.length) : (rowsOf key (keys.zip items)).length = keys.count key := by
  induction keys generalizing items with
  | nil => rfl
  | cons stored keys ih =>
      obtain ⟨item, items, rfl⟩ := List.exists_cons_of_length_eq_add_one h
      rw [rowsOf_cons, List.length_append, ih (Nat.succ.inj h), List.count_cons, Nat.add_comm]
      by_cases hkey : stored = key <;> simp [hkey]

theorem rowsOf_zipWith_cons {α : Type} (key : List Cell) {keys : List (List Cell)}
    {column : List α} {rows : List (List α)} (h : column.length = keys.length)
    (hrows : rows.length = keys.length) :
    rowsOf key (keys.zip (List.zipWith List.cons column rows)) =
      List.zipWith List.cons (rowsOf key (keys.zip column)) (rowsOf key (keys.zip rows)) := by
  induction keys generalizing column rows with
  | nil => rfl
  | cons stored keys ih =>
      obtain ⟨item, column, rfl⟩ := List.exists_cons_of_length_eq_add_one h
      obtain ⟨row, rows, rfl⟩ := List.exists_cons_of_length_eq_add_one hrows
      rw [List.zipWith_cons_cons, rowsOf_cons, rowsOf_cons, rowsOf_cons,
        ih (Nat.succ.inj h) (Nat.succ.inj hrows)]
      by_cases hkey : stored = key <;> simp [hkey]

theorem rowsOf_transposeCells {α : Type} (key : List Cell) (keys : List (List Cell))
    {columns : List (List α)} (h : ∀ column ∈ columns, column.length = keys.length) :
    rowsOf key (keys.zip (transposeCells keys.length columns)) =
      transposeCells (keys.count key) (columns.map fun column => rowsOf key (keys.zip column)) := by
  induction columns with
  | nil =>
      show rowsOf key (keys.zip (List.replicate keys.length [])) = List.replicate _ []
      rw [List.eq_replicate_iff]
      refine ⟨length_rowsOf key List.length_replicate, fun row hrow => ?_⟩
      obtain ⟨p, hp, rfl⟩ := List.mem_map.mp hrow
      exact List.eq_of_mem_replicate (List.of_mem_zip (List.mem_of_mem_filter hp)).2
  | cons column columns ih =>
      obtain ⟨hcolumn, hcolumns⟩ := List.forall_mem_cons.mp h
      rw [transposeCells_cons, rowsOf_zipWith_cons key hcolumn (length_transposeCells hcolumns),
        ih hcolumns, List.map_cons, transposeCells_cons]

end Columns

section Runs

variable {starts : List Accumulator} {keys : List (List Cell)} {columns : List (List Cell)}
  {groups : List Group}

/-- Rows with their keys, from columns of cells. -/
def keyedRows (keys : List (List Cell)) (columns : List (List Cell)) :
    List (List Cell × List (Outcome Cell)) :=
  keys.zip ((transposeCells keys.length columns).map (List.map .ok))

theorem map_fst_keyedRows (h : ∀ column ∈ columns, column.length = keys.length) :
    (keyedRows keys columns).map Prod.fst = keys := by
  rw [keyedRows, List.map_fst_zip]
  rw [List.length_map, length_transposeCells h]

theorem Group.addAll_keyedRows (hstarts : starts.length = columns.length)
    (h : ∀ column ∈ columns, column.length = keys.length) (key : List Cell) (g : Group) :
    Group.addAll ⟨key, starts⟩ (rowsOf key (keyedRows keys columns)) = .ok g ↔
      g.key = key ∧ List.Forall₂ (fun p a => p.1.addCells (rowsOf key (keys.zip p.2)) = .ok a)
        (starts.zip columns) g.gathered := by
  have hlengths : ∀ column ∈ columns.map fun column => rowsOf key (keys.zip column),
      column.length = keys.count key := by
    rw [List.forall_mem_map]
    exact fun column hcolumn => length_rowsOf key (h column hcolumn)
  have hgather : ∀ gathered, gatherRows starts (rowsOf key (keys.zip
      (transposeCells keys.length columns))) = .ok gathered ↔
        List.Forall₂ (fun p a => p.1.addCells (rowsOf key (keys.zip p.2)) = .ok a)
          (starts.zip columns) gathered := by
    intro gathered
    rw [rowsOf_transposeCells key keys h, gatherRows_transposeCells (by simpa) hlengths,
      List.zip_map_right, List.forall₂_map_left_iff]
    rfl
  rw [keyedRows, rowsOf_zip_map, Group.addAll_ok, map_eq_ok]
  simp only [hgather]
  constructor
  · rintro ⟨gathered, hgathered, rfl⟩
    exact ⟨rfl, hgathered⟩
  · rintro ⟨rfl, hgathered⟩
    exact ⟨g.gathered, hgathered, rfl⟩

/-- All rows can be taken in exactly if every accumulator can gather the cells of every key. -/
theorem exists_addRows_keyedRows_iff (hstarts : starts.length = columns.length)
    (h : ∀ column ∈ columns, column.length = keys.length) :
    (∃ groups, addRows starts (keyedRows keys columns) [] = .ok groups) ↔
      ∀ key ∈ keys, ∀ p ∈ starts.zip columns,
        ∃ a, p.1.addCells (rowsOf key (keys.zip p.2)) = .ok a := by
  rw [exists_addRows_iff, map_fst_keyedRows h]
  simp only [Group.addAll_keyedRows hstarts h]
  refine forall₂_congr fun key _ => ⟨?_, fun hall => ?_⟩
  · rintro ⟨g, -, hgathered⟩ p hp
    obtain ⟨a, -, ha⟩ := forall_right_of_forall₂ hgathered.flip p hp
    exact ⟨a, ha⟩
  · obtain ⟨gathered, hgathered⟩ := exists_forall₂ hall
    exact ⟨⟨key, gathered⟩, rfl, hgathered⟩

theorem forall₂_of_keyedRows (hstarts : starts.length = columns.length)
    (h : ∀ column ∈ columns, column.length = keys.length)
    (hrun : addRows starts (keyedRows keys columns) [] = .ok groups) :
    List.Forall₂ (fun key g => g.key = key ∧
        List.Forall₂ (fun p a => p.1.addCells (rowsOf key (keys.zip p.2)) = .ok a)
          (starts.zip columns) g.gathered)
      keys.eraseDups groups := by
  have hgroups := forall₂_of_addRows hrun
  rw [map_fst_keyedRows h] at hgroups
  exact hgroups.imp fun key g hg => (Group.addAll_keyedRows hstarts h key g).mp hg

end Runs

end RelScript
