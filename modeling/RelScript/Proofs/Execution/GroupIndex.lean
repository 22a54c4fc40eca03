import RelScript.Proofs.Execution.IntegerGroups

/-!
Groups with an index of their keys. A row finds the group of its key in a table from keys to places,
and a new key adds a group behind the others and its place to the table. The groups are those that a
search of the keys in order finds: the table holds for every key the first place that has it.
-/

namespace RelScript

/-- Groups in the order of their first rows, and the place of every key. -/
structure IndexedGroups where
  order : List Group
  index : Std.HashMap (List Cell) Nat

namespace IndexedGroups

/-- No groups. -/
def empty : IndexedGroups := ⟨[], ∅⟩

/-- The place of the group of a key, which is added behind the others if it is new. -/
def slot (start : List Accumulator) (key : List Cell) (x : IndexedGroups) : Nat × IndexedGroups :=
  match x.index[key]? with
  | some i => (i, x)
  | none =>
    (x.order.length, ⟨x.order ++ [⟨key, start⟩], x.index.insert key x.order.length⟩)

/-- Takes the arguments of one row into the group at a place. -/
def addAt (i : Nat) (args : List (Outcome Cell)) (x : IndexedGroups) : Outcome IndexedGroups :=
  match x.order[i]? with
  | some g => do return { x with order := x.order.set i (← g.add args) }
  | none => .ok x

/-- Takes one row into the groups: its key is read first, then its arguments. -/
def addRow (start : List Accumulator) (x : IndexedGroups)
    (row : List (Outcome Cell) × List (Outcome Cell)) : Outcome IndexedGroups := do
  let key ← row.1.mapM id
  let (i, x) := x.slot start key
  x.addAt i row.2

/-- Takes a batch into the groups. -/
def addBatch {s : Schema} (keys : List (AnyCompiled s)) (measures : List (Measure s))
    (x : IndexedGroups) (rows : Batch s) : Outcome IndexedGroups := do
  let keyRows ← evalCells keys rows
  let argRows ← evalCells (measures.map (·.arg)) rows
  (keyRows.zip argRows).foldlM (addRow (measures.map Measure.start)) x

end IndexedGroups

/-- Groups a relation by keys and aggregates each group, with an index of the keys. -/
def aggregateIndexed (input : Relation) (keys : List Expr) (aggregates : List (Named Aggregate))
    (bindings : ScalarBindings) : Outcome Relation := do
  let keys ← keys.mapM fun k => do return (k, ← k.compile input.schema bindings)
  let measures ← aggregates.mapM (compileMeasure input.schema bindings)
  let groups ← input.batches.foldlM (IndexedGroups.addBatch (keys.map (·.2)) measures) .empty
  groupsToRelation (keyColumns keys groups.order ++ measureColumns measures groups.order)
    groups.order

section Search

variable {start : List Accumulator} {key : List Cell} {args : List (Outcome Cell)}
  {groups : List Group}

theorem addToGroups_of_findIdx? {i : Nat} (h : groups.findIdx? (·.key = key) = some i) :
    ∃ g, groups[i]? = some g ∧ g.key = key ∧
      addToGroups start key args groups = (g.add args).map (groups.set i) := by
  induction groups generalizing i with
  | nil => cases h
  | cons g rest ih =>
      rw [addToGroups]
      by_cases hkey : g.key = key
      · have hi : i = 0 := by simpa [List.findIdx?_cons, hkey, eq_comm] using h
        subst hi
        rw [if_pos hkey]
        refine ⟨g, rfl, hkey, ?_⟩
        cases g.add args <;> rfl
      · rw [List.findIdx?_cons, decide_eq_false hkey] at h
        obtain ⟨j, hj, rfl⟩ := Option.map_eq_some_iff.mp h
        obtain ⟨found, hfound, hsame, hadd⟩ := ih hj
        rw [if_neg hkey, hadd]
        refine ⟨found, hfound, hsame, ?_⟩
        cases found.add args <;> rfl

theorem addToGroups_of_findIdx?_eq_none (h : groups.findIdx? (·.key = key) = none) :
    addToGroups start key args groups =
      (Group.add args ⟨key, start⟩).map (groups ++ [·]) := by
  induction groups with
  | nil =>
      rw [addToGroups]
      cases Group.add args ⟨key, start⟩ <;> rfl
  | cons g rest ih =>
      have hnone := List.findIdx?_eq_none_iff.mp h
      have hkey : g.key ≠ key := by simpa using hnone g List.mem_cons_self
      have hrest : rest.findIdx? (·.key = key) = none :=
        List.findIdx?_eq_none_iff.mpr fun g hg => hnone g (List.mem_cons_of_mem _ hg)
      rw [addToGroups, if_neg hkey, ih hrest]
      cases Group.add args ⟨key, start⟩ <;> rfl

theorem findIdx?_set {i : Nat} {g g' : Group} (hi : groups[i]? = some g) (hkey : g'.key = g.key)
    (k : List Cell) :
    (groups.set i g').findIdx? (·.key = k) = groups.findIdx? (·.key = k) := by
  have hkeys : (groups.set i g').map Group.key = groups.map Group.key := by
    obtain ⟨hlt, rfl⟩ := List.getElem?_eq_some_iff.mp hi
    rw [List.map_set, hkey, ← List.getElem_map Group.key (h := by simpa using hlt),
      List.set_getElem_self]
  have hfind : ∀ groups : List Group,
      groups.findIdx? (·.key = k) = (groups.map Group.key).findIdx? (· = k) := fun groups => by
    rw [List.findIdx?_map]
    rfl
  rw [hfind, hfind, hkeys]

end Search

namespace IndexedGroups

/-- The index holds for every key the first place that has it. -/
def Agrees (x : IndexedGroups) : Prop := ∀ key, x.index[key]? = x.order.findIdx? (·.key = key)

theorem agrees_empty : empty.Agrees := fun _ => Std.HashMap.getElem?_empty

variable {x : IndexedGroups} {start : List Accumulator}

/-- What comes of groups with an index is what comes of the groups alone, and the index agrees. -/
structure Tracks (indexed : Outcome IndexedGroups) (groups : Outcome (List Group)) : Prop where
  order : indexed.map (·.order) = groups
  agrees : ∀ x, indexed = .ok x → x.Agrees

theorem Agrees.tracks (h : x.Agrees) : Tracks (.ok x) (.ok x.order) where
  order := rfl
  agrees := by
    rintro _ ⟨⟩
    exact h

theorem tracks_error (e : Error) : Tracks (.error e) (.error e) where
  order := rfl
  agrees := by rintro _ ⟨⟩

theorem Tracks.bind {α : Type} {a : Outcome α} {f : α → Outcome IndexedGroups}
    {g : α → Outcome (List Group)} (h : ∀ v, Tracks (f v) (g v)) : Tracks (a >>= f) (a >>= g) := by
  cases a with
  | error e => exact tracks_error e
  | ok v => exact h v

theorem Tracks.foldlM {α : Type} {f : IndexedGroups → α → Outcome IndexedGroups}
    {g : List Group → α → Outcome (List Group)}
    (h : ∀ x, x.Agrees → ∀ a, Tracks (f x a) (g x.order a)) (items : List α) (hx : x.Agrees) :
    Tracks (items.foldlM f x) (items.foldlM g x.order) := by
  induction items generalizing x with
  | nil => exact hx.tracks
  | cons a items ih =>
      rw [List.foldlM_cons, List.foldlM_cons, ← (h x hx a).order]
      cases hnext : f x a with
      | error e => exact tracks_error e
      | ok next => exact ih ((h x hx a).agrees next hnext)

theorem Agrees.addAt (h : x.Agrees) {i : Nat} {g : Group} (hi : x.order[i]? = some g)
    (args : List (Outcome Cell)) :
    Tracks (x.addAt i args) ((g.add args).map (x.order.set i)) := by
  rw [IndexedGroups.addAt, hi]
  dsimp only
  cases hadd : g.add args with
  | error e => exact tracks_error e
  | ok g' =>
      refine Agrees.tracks (x := ⟨x.order.set i g', x.index⟩) fun key => ?_
      rw [findIdx?_set hi (Group.key_of_add hadd)]
      exact h key

theorem Agrees.concat (h : x.Agrees) {key : List Cell} (hnone : x.index[key]? = none)
    (gathered : List Accumulator) :
    Agrees ⟨x.order ++ [⟨key, gathered⟩], x.index.insert key x.order.length⟩ := by
  intro k
  rw [Std.HashMap.getElem?_insert, List.findIdx?_append, ← h k]
  by_cases hk : key = k
  · subst hk
    simp [hnone]
  · cases x.index[k]? <;> simp [hk]

/-- A row goes into the group that the index has for its key, which is the one that the search
finds. -/
theorem Agrees.addRow (h : x.Agrees) (start : List Accumulator)
    (row : List (Outcome Cell) × List (Outcome Cell)) :
    Tracks (x.addRow start row) (RelScript.addRow start x.order row) := by
  refine Tracks.bind fun key => ?_
  dsimp only
  rw [slot]
  cases hindex : x.index[key]? with
  | some i =>
      rw [h key] at hindex
      obtain ⟨g, hg, -, hadd⟩ := addToGroups_of_findIdx? hindex
      rw [hadd]
      exact h.addAt hg row.2
  | none =>
      have hnone := hindex
      rw [h key] at hnone
      rw [addToGroups_of_findIdx?_eq_none hnone]
      have hset : List.set (x.order ++ [⟨key, start⟩]) x.order.length = (x.order ++ [·]) := by
        funext g
        simp
      rw [← hset]
      exact (h.concat hindex start).addAt List.getElem?_concat_length row.2

theorem Agrees.addBatch {s : Schema} (h : x.Agrees) (keys : List (AnyCompiled s))
    (measures : List (Measure s)) (rows : Batch s) :
    Tracks (x.addBatch keys measures rows) (RelScript.addBatch keys measures x.order rows) :=
  Tracks.bind fun _ => Tracks.bind fun _ =>
    Tracks.foldlM (fun _ hx row => hx.addRow _ row) _ h

theorem tracks_batches {s : Schema} (keys : List (AnyCompiled s)) (measures : List (Measure s))
    (batches : List (Batch s)) :
    Tracks (batches.foldlM (IndexedGroups.addBatch keys measures) empty)
      (batches.foldlM (RelScript.addBatch keys measures) []) :=
  Tracks.foldlM (fun _ hx rows => hx.addBatch keys measures rows) batches agrees_empty

end IndexedGroups

/-- Aggregation with an index of the keys gives the same relation, or fails alike. -/
theorem aggregateIndexed_eq (input : Relation) (keys : List Expr)
    (aggregates : List (Named Aggregate)) (bindings : ScalarBindings) :
    aggregateIndexed input keys aggregates bindings =
      aggregateRelation input keys aggregates bindings := by
  refine bind_congr fun compiled => bind_congr fun measures => ?_
  rw [← (IndexedGroups.tracks_batches (compiled.map (·.2)) measures input.batches).order]
  cases input.batches.foldlM (IndexedGroups.addBatch (compiled.map (·.2)) measures) .empty <;> rfl

end RelScript
