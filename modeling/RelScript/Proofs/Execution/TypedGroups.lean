import RelScript.Proofs.Execution.GroupColumns
import RelScript.Proofs.Execution.TypedValues

/-!
Grouping of typed rows is safe. The cells of a group are of the kinds of the keys, and what the
aggregates have gathered is of the kinds of their arguments.
-/

namespace RelScript

theorem forall₂_of_mem_transposeCells {α τ : Type} {P : τ → α → Prop} {types : List τ}
    {columns : List (List α)} (h : List.Forall₂ (fun t column => ∀ x ∈ column, P t x) types columns)
    {count : Nat} {row : List α} (hrow : row ∈ transposeCells count columns) :
    List.Forall₂ P types row := by
  induction h generalizing row with
  | nil =>
      rw [List.eq_of_mem_replicate hrow]
      exact List.Forall₂.nil
  | @cons t column types columns hcolumn _ ih =>
      rw [transposeCells, List.foldr_cons] at hrow
      obtain ⟨i, hi, rfl⟩ := List.getElem_of_mem hrow
      rw [List.getElem_zipWith]
      exact List.Forall₂.cons (hcolumn _ (List.getElem_mem _)) (ih (List.getElem_mem _))

/-- Reading the cells of a row that are all of the right kinds. -/
def ReadsAs (types : List DataType) (row : List (Outcome Cell)) : Prop :=
  List.Forall₂ (fun t x => Safe (Cell.Fits t) x) types row

theorem ReadsAs.safe {types : List DataType} {row : List (Outcome Cell)} (h : ReadsAs types row) :
    Safe (List.Forall₂ (fun t c => Cell.Fits t c) types) (row.mapM id) :=
  Safe.mapM₂ h.flip fun _ _ hx => hx

theorem safe_evalCells {s : Schema} {types : List DataType} {es : List (AnyCompiled s)}
    (h : List.Forall₂ (fun t e => AnyCompiled.IsOf t e) types es) (rows : Batch s) :
    Safe (fun cells => ∀ row ∈ cells, ReadsAs types row) (evalCells es rows) := by
  refine (Safe.mapM₂ (R := fun t (column : List (Outcome Cell)) =>
    ∀ x ∈ column, Safe (Cell.Fits t) x) h.flip fun e t he => ?_).bind fun columns hcolumns => ?_
  · obtain ⟨t, e⟩ := e
    obtain ⟨rfl, he⟩ := he
    refine (he.safe_eval rows).bind fun column _ x hx => ?_
    obtain ⟨entry, -, rfl⟩ := List.mem_map.mp hx
    exact Cell.safe_read entry
  · exact fun row hrow => forall₂_of_mem_transposeCells hcolumns hrow

namespace Accumulator

/-- What an aggregate function over arguments of a type can have gathered. -/
def Gathers (fn : AggregateFn) (t : DataType) : Accumulator → Prop
  | count _ => fn = .count
  | sumInt _ => fn = .sum ∧ t = .int64
  | sumFloat _ => fn = .sum ∧ t = .float64
  | least found => fn = .min ∧ ∀ c ∈ found, c.Fits t ∧ c.isMissing = false
  | greatest found => fn = .max ∧ ∀ c ∈ found, c.Fits t ∧ c.isMissing = false
  | average _ _ => fn = .avg

variable {fn : AggregateFn} {t : DataType}

theorem Gathers.safe_addValue {a : Accumulator} (h : a.Gathers fn t) {v : Cell} (hv : v.Fits t)
    (hmissing : v.isMissing = false) : Safe (Gathers fn t) (a.addValue v) := by
  have hsome : ∀ c ∈ some v, c.Fits t ∧ c.isMissing = false := by
    rintro c ⟨⟩
    exact ⟨hv, hmissing⟩
  cases a with
  | count n =>
      rw [addValue]
      split
      · exact h
      · rfl
  | sumInt total =>
      cases v with
      | int n =>
          rw [addValue]
          split
          · exact h
          · rfl
      | _ => exact h
  | sumFloat total =>
      rw [addValue]
      split <;> exact h
  | least found =>
      cases found with
      | none => exact ⟨h.1, hsome⟩
      | some c =>
          obtain ⟨hc, hcmissing⟩ := h.2 c rfl
          refine (Cell.safe_compare hv hc hmissing hcmissing).bind fun o _ => ⟨h.1, ?_⟩
          split
          · exact hsome
          · exact h.2
  | greatest found =>
      cases found with
      | none => exact ⟨h.1, hsome⟩
      | some c =>
          obtain ⟨hc, hcmissing⟩ := h.2 c rfl
          refine (Cell.safe_compare hv hc hmissing hcmissing).bind fun o _ => ⟨h.1, ?_⟩
          split
          · exact hsome
          · exact h.2
  | average total n =>
      rw [addValue]
      split <;> exact h

theorem Gathers.safe_add {a : Accumulator} (h : a.Gathers fn t) {v : Cell} (hv : v.Fits t) :
    Safe (Gathers fn t) (a.add v) := by
  rw [add]
  cases hmissing : v.isMissing with
  | true => exact h
  | false => exact h.safe_addValue hv hmissing

end Accumulator

namespace Measure

variable {s : Schema}

/-- A measure over a sound argument, which is a number where it is summed. -/
structure Sound (m : Measure s) : Prop where
  arg : m.arg.2.Sound
  summed : m.fn = .sum → m.arg.1 = .int64 ∨ m.arg.1 = .float64

theorem Sound.isOf {m : Measure s} (h : m.Sound) : AnyCompiled.IsOf m.arg.1 m.arg := ⟨rfl, h.arg⟩

theorem Sound.gathers_start {m : Measure s} (h : m.Sound) :
    m.start.Gathers m.fn m.arg.1 := by
  have hdeclared := h.arg.declared
  cases hfn : m.fn with
  | count | avg =>
      rw [start, hfn]
      rfl
  | sum =>
      rw [start, hfn, type, hfn]
      dsimp only
      rw [hdeclared]
      split
      · rename_i ht
        exact ⟨rfl, ht⟩
      · rename_i ht
        exact ⟨rfl, (h.summed hfn).resolve_left ht⟩
  | min | max =>
      rw [start, hfn]
      exact ⟨rfl, fun c hc => by cases hc⟩

theorem Sound.fits_result {m : Measure s} (h : m.Sound) {a : Accumulator}
    (ha : a.Gathers m.fn m.arg.1) : a.result.Fits m.type := by
  have hdeclared := h.arg.declared
  cases a with
  | count n =>
      have htype : m.type = .int64 := by rw [type, (ha : m.fn = .count)]
      rw [htype]
      trivial
  | sumInt total =>
      rw [type, ha.1]
      dsimp only
      rw [hdeclared, ha.2]
      cases total <;> trivial
  | sumFloat total =>
      rw [type, ha.1]
      dsimp only
      rw [hdeclared, ha.2]
      cases total <;> trivial
  | least found | greatest found =>
      rw [type, ha.1]
      dsimp only
      rw [hdeclared]
      cases found with
      | none => exact Cell.fits_missing m.arg.1
      | some c => exact (ha.2 c rfl).1
  | average total n =>
      have htype : m.type = .float64 := by rw [type, (ha : m.fn = .avg)]
      rw [htype, Accumulator.result]
      show Cell.Fits .float64 _
      split <;> trivial

end Measure

namespace Group

variable {s : Schema}

/-- A group of the kinds of the keys and of the measures. -/
structure Fits (types : List DataType) (measures : List (Measure s)) (g : Group) : Prop where
  key : List.Forall₂ (fun t c => Cell.Fits t c) types g.key
  gathered : List.Forall₂ (fun m a => Accumulator.Gathers m.fn m.arg.1 a) measures g.gathered

theorem safe_gather {measures : List (Measure s)} {gathered : List Accumulator}
    {args : List (Outcome Cell)}
    (hgathered : List.Forall₂ (fun m a => Accumulator.Gathers m.fn m.arg.1 a) measures gathered)
    (hargs : ReadsAs (measures.map (·.arg.1)) args) :
    Safe (List.Forall₂ (fun m a => Accumulator.Gathers m.fn m.arg.1 a) measures)
      ((gathered.zip args).mapM fun (a, arg) => do a.add (← arg)) := by
  induction hgathered generalizing args with
  | nil => exact List.Forall₂.nil
  | cons ha _ ih =>
      cases hargs with
      | cons harg hrest =>
          rw [List.zip_cons_cons, List.mapM_cons]
          refine (harg.bind fun v hv => ha.safe_add hv).bind fun b hb => ?_
          exact (ih hrest).bind fun bs hbs => List.Forall₂.cons hb hbs

theorem Fits.safe_add {types : List DataType} {measures : List (Measure s)} {g : Group}
    (h : g.Fits types measures) {args : List (Outcome Cell)}
    (hargs : ReadsAs (measures.map (·.arg.1)) args) :
    Safe (Fits types measures) (Group.add args g) :=
  (safe_gather h.gathered hargs).bind fun _ hgathered => ⟨h.key, hgathered⟩

end Group

section Grouping

variable {s : Schema} {types : List DataType} {measures : List (Measure s)}

theorem safe_addToGroups (hmeasures : ∀ m ∈ measures, m.Sound) {key : List Cell}
    (hkey : List.Forall₂ (fun t c => Cell.Fits t c) types key) {args : List (Outcome Cell)}
    (hargs : ReadsAs (measures.map (·.arg.1)) args) {groups : List Group}
    (hgroups : ∀ g ∈ groups, g.Fits types measures) :
    Safe (fun groups => ∀ g ∈ groups, g.Fits types measures)
      (addToGroups (measures.map Measure.start) key args groups) := by
  induction groups with
  | nil =>
      have hstart : Group.Fits types measures ⟨key, measures.map Measure.start⟩ := by
        refine ⟨hkey, ?_⟩
        rw [List.forall₂_map_right_iff, List.forall₂_same]
        exact fun m hm => (hmeasures m hm).gathers_start
      exact (hstart.safe_add hargs).bind fun g hg => List.forall_mem_singleton.mpr hg
  | cons g rest ih =>
      obtain ⟨hg, hrest⟩ := List.forall_mem_cons.mp hgroups
      rw [addToGroups]
      split
      · exact (hg.safe_add hargs).bind fun g hg => List.forall_mem_cons.mpr ⟨hg, hrest⟩
      · exact (ih hrest).bind fun rest hrest => List.forall_mem_cons.mpr ⟨hg, hrest⟩

theorem safe_addBatch (hmeasures : ∀ m ∈ measures, m.Sound) {keys : List (AnyCompiled s)}
    (hkeys : List.Forall₂ (fun t e => AnyCompiled.IsOf t e) types keys) {groups : List Group}
    (hgroups : ∀ g ∈ groups, g.Fits types measures) (rows : Batch s) :
    Safe (fun groups => ∀ g ∈ groups, g.Fits types measures)
      (addBatch keys measures groups rows) := by
  have hargs : List.Forall₂ (fun t e => AnyCompiled.IsOf t e) (measures.map (·.arg.1))
      (measures.map (·.arg)) := by
    rw [List.forall₂_map_left_iff, List.forall₂_map_right_iff, List.forall₂_same]
    exact fun m hm => (hmeasures m hm).isOf
  refine (safe_evalCells hkeys rows).bind fun keyRows hkeyRows => ?_
  refine (safe_evalCells hargs rows).bind fun argRows hargRows => ?_
  refine Safe.foldlM (fun groups hgroups row hrow => ?_) hgroups
  obtain ⟨hkeyRow, hargRow⟩ := List.of_mem_zip hrow
  exact (hkeyRows _ hkeyRow).safe.bind fun key hkey =>
    safe_addToGroups hmeasures hkey (hargRows _ hargRow) hgroups

/-- Cells that fit the fields of their columns. -/
def ColumnsFit (columns : List (Field × List Cell)) : Prop :=
  ∀ column ∈ columns, ∀ c ∈ column.2, c.Fits column.1.type

/-- A compiled grouping key and its field. -/
def KeyOf (f : Field) (k : Expr × AnyCompiled s) : Prop :=
  AnyCompiled.IsOf f.type k.2 ∧ f = ⟨k.1.groupName, f.type, true⟩

theorem KeyOf.field_eq {f : Field} {k : Expr × AnyCompiled s} (h : KeyOf f k) :
    f = ⟨k.1.groupName, k.2.2.declared, true⟩ := by
  obtain ⟨⟨hk, hsound⟩, hf⟩ := h
  rw [hsound.declared, hk]
  exact hf

theorem fields_keyColumns_of_keyOf {fields : Schema} {keys : List (Expr × AnyCompiled s)}
    (hkeys : List.Forall₂ KeyOf fields keys) (groups : List Group) :
    (keyColumns keys groups).map (·.1) = fields := by
  rw [fields_keyColumns, ← List.forall₂_eq_eq_eq, List.forall₂_map_left_iff]
  exact hkeys.flip.imp fun _ _ hk => (KeyOf.field_eq hk).symm

theorem columnsFit_keyColumns {fields : Schema} {keys : List (Expr × AnyCompiled s)}
    (hkeys : List.Forall₂ KeyOf fields keys) {groups : List Group}
    (hgroups : ∀ g ∈ groups, g.Fits (fields.map (·.type)) measures) :
    ColumnsFit (keyColumns keys groups) := by
  intro column hcolumn c hc
  obtain ⟨⟨k, i⟩, hki, rfl⟩ := List.mem_map.mp hcolumn
  obtain ⟨g, hg, rfl⟩ := List.mem_map.mp hc
  obtain ⟨f, hf, hfk⟩ := exists_getElem?_of_forall₂ hkeys.flip (List.mem_zipIdx_iff_getElem?.mp hki)
  have htype : (fields.map (·.type))[i]? = some f.type := by rw [List.getElem?_map, hf]; rfl
  obtain ⟨c, hc, hfits⟩ := exists_getElem?_of_forall₂ (hgroups g hg).key htype
  have hdeclared : k.2.2.declared = f.type :=
    congrArg Field.type (KeyOf.field_eq (k := k) hfk).symm
  dsimp only
  rw [hc, Option.getD_some, hdeclared]
  exact hfits

theorem columnsFit_measureColumns (hmeasures : ∀ m ∈ measures, m.Sound) {groups : List Group}
    (hgroups : ∀ g ∈ groups, g.Fits types measures) :
    ColumnsFit (measureColumns measures groups) := by
  intro column hcolumn c hc
  obtain ⟨⟨m, i⟩, hmi, rfl⟩ := List.mem_map.mp hcolumn
  obtain ⟨g, hg, rfl⟩ := List.mem_map.mp hc
  have hi := List.mem_zipIdx_iff_getElem?.mp hmi
  have hm := hmeasures m (List.mem_of_getElem? hi)
  obtain ⟨a, ha, hgathers⟩ := exists_getElem?_of_forall₂ (hgroups g hg).gathered hi
  dsimp only
  rw [ha, Option.map_some, Option.getD_some]
  exact hm.fits_result hgathers

end Grouping

theorem Batch.safe_check {s : Schema} (site : BatchSite) (b : Batch s) :
    Safe (fun _ => True) (b.check site) := by
  unfold Batch.check
  split
  · rfl
  · split
    · rfl
    · trivial

theorem Batch.safe_ofCells (count : Nat) {columns : List (Field × List Cell)}
    (h : ColumnsFit columns) : Safe (fun _ => True) (Batch.ofCells count columns) := by
  induction columns with
  | nil => trivial
  | cons column rest ih =>
      obtain ⟨hcells, hrest⟩ := List.forall_mem_cons.mp h
      exact (Cell.safe_build hcells).bind fun _ _ => (ih hrest).bind fun _ _ => trivial

theorem safe_groupsToRelation {columns : List (Field × List Cell)} (h : ColumnsFit columns)
    (groups : List Group) :
    Safe (fun r => r.schema = columns.map (·.1)) (groupsToRelation columns groups) := by
  unfold groupsToRelation
  split
  · rfl
  · exact (Batch.safe_ofCells _ h).bind fun b _ => (b.safe_check _).bind fun _ _ => rfl

theorem Aggregate.HasType.safe_compileMeasure {s : Schema} {a : Named Aggregate} {f : Field}
    (h : a.value.HasType s f.type) (hf : f = ⟨a.name, f.type, true⟩) (bindings : ScalarBindings) :
    Safe (fun m : Measure s => m.Sound ∧ m.field = f) (compileMeasure s bindings a) := by
  obtain ⟨⟨fn, e⟩, name⟩ := a
  obtain ⟨fname, t, nullable⟩ := f
  cases hf
  dsimp only at h
  cases h with
  | count he => exact (he.safe_compile bindings).bind fun c hc => ⟨⟨hc.2, nofun⟩, rfl⟩
  | avg he => exact (he.safe_compile bindings).bind fun c hc => ⟨⟨hc.2, nofun⟩, rfl⟩
  | sum ht he =>
      refine (he.safe_compile bindings).bind fun c hc => ⟨⟨hc.2, fun _ => hc.1 ▸ ht⟩, ?_⟩
      exact congrArg (Field.mk name · true) (hc.2.declared.trans hc.1)
  | min he | max he =>
      refine (he.safe_compile bindings).bind fun c hc => ⟨⟨hc.2, nofun⟩, ?_⟩
      exact congrArg (Field.mk name · true) (hc.2.declared.trans hc.1)

/-- Aggregation of typed rows is safe, and gives rows of the typed schema. -/
theorem safe_aggregateRelation {input : Relation} {keyFields fields : Schema} {keys : List Expr}
    {aggregates : List (Named Aggregate)}
    (hkeys : List.Forall₂ (fun k f => k.HasType input.schema f.type ∧
      f = ⟨k.groupName, f.type, true⟩) keys keyFields)
    (haggregates : List.Forall₂ (fun a f => a.value.HasType input.schema f.type ∧
      f = ⟨a.name, f.type, true⟩) aggregates fields) (bindings : ScalarBindings) :
    Safe (fun r => r.schema = keyFields ++ fields)
      (aggregateRelation input keys aggregates bindings) := by
  refine (Safe.mapM₂ (R := KeyOf) hkeys fun k f hk => ?_).bind fun keys hkeys => ?_
  · exact (hk.1.safe_compile bindings).bind fun c hc => ⟨hc, hk.2⟩
  refine (Safe.mapM₂ (R := fun f (m : Measure input.schema) => m.Sound ∧ m.field = f) haggregates
    fun a f ha => ha.1.safe_compileMeasure ha.2 bindings).bind fun measures hmeasures => ?_
  have hsound : ∀ m ∈ measures, m.Sound := fun m hm => by
    obtain ⟨f, -, h, -⟩ := forall_right_of_forall₂ hmeasures m hm
    exact h
  have hfields : measures.map Measure.field = fields := by
    have heq : List.Forall₂ Eq fields (measures.map Measure.field) := by
      rw [List.forall₂_map_right_iff]
      exact hmeasures.imp fun _ _ hm => hm.2.symm
    rw [List.forall₂_eq_eq_eq] at heq
    exact heq.symm
  have hcompiled : List.Forall₂ (fun t e => AnyCompiled.IsOf t e) (keyFields.map (·.type))
      (keys.map (·.2)) := by
    rw [List.forall₂_map_left_iff, List.forall₂_map_right_iff]
    exact hkeys.imp fun _ _ hk => hk.1
  refine (Safe.foldlM (P := fun groups => ∀ g ∈ groups, g.Fits (keyFields.map (·.type)) measures)
    (fun groups hgroups rows _ => safe_addBatch hsound hcompiled hgroups rows)
    (by simp)).bind fun groups hgroups => ?_
  refine (safe_groupsToRelation ?_ groups).mono fun r hr => ?_
  · exact List.forall_mem_append.mpr ⟨columnsFit_keyColumns hkeys hgroups,
      columnsFit_measureColumns hsound hgroups⟩
  · rw [hr, List.map_append, fields_keyColumns_of_keyOf hkeys, fields_measureColumns, hfields]

end RelScript
