import RelScript.Execution.Operators
import RelScript.Proofs.Outcome

/-!
Functions that treat rows one by one. Such a function fails on all rows whatsoever, or has a result
for each row on its own and fails if one row has none. Compiled expressions, checks, projections and
the cells of grouped rows are of this kind, so it does not matter how their rows are cut.
-/

namespace RelScript

variable {α β γ δ : Type}

section Options

theorem toOption_bind (x : Outcome α) (f : α → Outcome β) :
    (x >>= f).toOption = x.toOption.bind fun a => (f a).toOption := by
  cases x <;> rfl

theorem toOption_map (x : Outcome α) (f : α → β) : (x.map f).toOption = x.toOption.map f := by
  cases x <;> rfl

theorem toOption_mapError {ε ε' : Type} (x : Except ε α) (f : ε → ε') :
    (x.mapError f).toOption = x.toOption := by
  cases x <;> rfl

theorem toOption_mapM {ε : Type} (f : α → Except ε β) (items : List α) :
    (items.mapM f).toOption = items.mapM fun a => (f a).toOption := by
  induction items with
  | nil => rfl
  | cons a items ih =>
      rw [List.mapM_cons, List.mapM_cons, ← ih]
      cases f a with
      | error e => rfl
      | ok b => cases items.mapM f <;> rfl

theorem length_of_mapM_eq_some {f : α → Option β} {items : List α} {results : List β}
    (h : items.mapM f = some results) : results.length = items.length := by
  induction items generalizing results with
  | nil =>
      cases h
      rfl
  | cons a items ih =>
      simp only [List.mapM_cons, Option.bind_eq_bind, Option.pure_def, Option.bind_eq_some_iff,
        Option.some.injEq] at h
      obtain ⟨b, -, rest, hrest, rfl⟩ := h
      simp [ih hrest]

theorem mapM_some (f : α → β) (items : List α) :
    items.mapM (fun a => some (f a)) = some (items.map f) := by
  induction items with
  | nil => rfl
  | cons a items ih => simp [ih]

theorem mapM_mapM (f : α → Option β) (g : β → Option γ) (items : List α) :
    ((items.mapM f).bind fun results => results.mapM g) =
      items.mapM fun a => (f a).bind g := by
  induction items with
  | nil => rfl
  | cons a items ih =>
      simp only [List.mapM_cons, Option.bind_eq_bind, Option.pure_def, ← ih]
      cases f a with
      | none => rfl
      | some b => cases items.mapM f <;> cases g b <;> simp

theorem mapM_zip (f : α → Option β) (g : α → Option γ) (op : β × γ → Option δ)
    (items : List α) :
    ((items.mapM f).bind fun bs => (items.mapM g).bind fun cs => (bs.zip cs).mapM op) =
      items.mapM fun a => (f a).bind fun b => (g a).bind fun c => op (b, c) := by
  induction items with
  | nil => rfl
  | cons a items ih =>
      simp only [List.mapM_cons, Option.bind_eq_bind, Option.pure_def, ← ih]
      cases f a with
      | none => rfl
      | some b =>
          cases g a with
          | none => cases items.mapM f <;> rfl
          | some c =>
              cases items.mapM f <;> cases items.mapM g <;> cases op (b, c) <;> simp

theorem mapM_guard (p : α → Bool) (f : α → β) (items : List α) :
    items.mapM (fun a => if p a then none else some (f a)) =
      if items.any p then none else some (items.map f) := by
  induction items with
  | nil => rfl
  | cons a items ih =>
      rw [List.mapM_cons, ih, List.any_cons]
      cases p a <;> cases items.any p <;> rfl

end Options

/-- A function that fails on all rows, or has a result for every row on its own. -/
def Rowwise (f : List α → Outcome (List β)) : Prop :=
  ∃ g : Option (α → Option β), ∀ rows, (f rows).toOption = g.bind fun h => rows.mapM h

/-- A function of two columns of one length that treats their rows one by one. -/
def Rowwise₂ (f : List α → List β → Outcome (List γ)) : Prop :=
  Rowwise fun pairs : List (α × β) => f (pairs.map Prod.fst) (pairs.map Prod.snd)

namespace Rowwise

theorem congr {f f' : List α → Outcome (List β)} (h : Rowwise f)
    (hsame : ∀ rows, (f' rows).toOption = (f rows).toOption) : Rowwise f' := by
  obtain ⟨g, hg⟩ := h
  exact ⟨g, fun rows => (hsame rows).trans (hg rows)⟩

theorem error {f : List α → Outcome (List β)} (h : ∀ rows, (f rows).toOption = none) :
    Rowwise f := ⟨none, h⟩

theorem map (f : α → β) : Rowwise fun rows => .ok (rows.map f) :=
  ⟨some fun a => some (f a), fun rows => (mapM_some f rows).symm⟩

theorem mapM (f : α → Outcome β) : Rowwise fun rows => rows.mapM f :=
  ⟨some fun a => (f a).toOption, fun rows => toOption_mapM f rows⟩

theorem bind {f : List α → Outcome (List β)} {k : List β → Outcome (List γ)} (hf : Rowwise f)
    (hk : Rowwise k) : Rowwise fun rows => f rows >>= k := by
  obtain ⟨g, hg⟩ := hf
  obtain ⟨g', hg'⟩ := hk
  refine ⟨g.bind fun h => g'.map fun h' row => (h row).bind h', fun rows => ?_⟩
  simp only [toOption_bind, hg, hg']
  cases g with
  | none => rfl
  | some h =>
      cases g' with
      | none => simp
      | some h' => exact mapM_mapM h h' rows

theorem bind₂ {f : List α → Outcome (List β)} {f' : List α → Outcome (List γ)}
    {k : List β → List γ → Outcome (List δ)} (hf : Rowwise f) (hf' : Rowwise f')
    (hk : Rowwise₂ k) : Rowwise fun rows => f rows >>= fun l => f' rows >>= k l := by
  obtain ⟨g, hg⟩ := hf
  obtain ⟨g', hg'⟩ := hf'
  obtain ⟨g'', hg''⟩ := hk
  refine ⟨g.bind fun h => g'.bind fun h' => g''.map fun op row =>
    (h row).bind fun b => (h' row).bind fun c => op (b, c), fun rows => ?_⟩
  simp only [toOption_bind, hg, hg']
  cases g with
  | none => rfl
  | some h =>
      cases g' with
      | none => simp
      | some h' =>
          have hcolumns : ((rows.mapM h).bind fun l => (rows.mapM h').bind fun r =>
              (k l r).toOption) =
              (rows.mapM h).bind fun l => (rows.mapM h').bind fun r =>
                g''.bind fun op => (l.zip r).mapM op := by
            cases hl : rows.mapM h with
            | none => rfl
            | some l =>
                cases hr : rows.mapM h' with
                | none => rfl
                | some r =>
                    have hlength : l.length = r.length := by
                      rw [length_of_mapM_eq_some hl, length_of_mapM_eq_some hr]
                    have hpairs := hg'' (l.zip r)
                    dsimp only at hpairs
                    rw [List.map_fst_zip (Nat.le_of_eq hlength),
                      List.map_snd_zip (Nat.le_of_eq hlength.symm)] at hpairs
                    exact hpairs
          refine hcolumns.trans ?_
          cases g'' with
          | none => simp
          | some op => exact mapM_zip h h' op rows

theorem zipWith {f : List α → Outcome (List β)} {f' : List α → Outcome (List γ)}
    (hf : Rowwise f) (hf' : Rowwise f') (op : β → γ → δ) :
    Rowwise fun rows => f rows >>= fun l => f' rows >>= fun r => .ok (List.zipWith op l r) := by
  refine hf.bind₂ hf' ((map fun p : β × γ => op p.1 p.2).congr fun pairs => ?_)
  show some (List.zipWith op (pairs.map Prod.fst) (pairs.map Prod.snd)) = some _
  rw [List.zipWith_map, List.zipWith_self]

theorem length {f : List α → Outcome (List β)} (h : Rowwise f) {rows : List α} {out : List β}
    (hout : f rows = .ok out) : out.length = rows.length := by
  obtain ⟨g, hg⟩ := h
  have hrows := hg rows
  rw [hout] at hrows
  cases g with
  | none => cases hrows
  | some h => exact length_of_mapM_eq_some hrows.symm

theorem of_rows {f : List α → Outcome (List β)} (h : Rowwise f) {rows : List α} {out : List β}
    (hnil : rows = [] → ∃ none, f [] = .ok none)
    (hrows : List.Forall₂ (fun a b => f [a] = .ok [b]) rows out) : f rows = .ok out := by
  obtain ⟨g, hg⟩ := h
  obtain ⟨rows', out', hout'⟩ : ∃ rows' out', f rows' = .ok out' := by
    cases hrows with
    | nil => exact ⟨[], hnil rfl⟩
    | cons hfirst _ => exact ⟨_, _, hfirst⟩
  cases g with
  | none =>
      have hnone := hg rows'
      rw [hout'] at hnone
      cases hnone
  | some g =>
      have hsingle : ∀ a b, f [a] = .ok [b] → g a = some b := by
        intro a b hab
        have hrow := hg [a]
        rw [hab] at hrow
        cases hga : g a with
        | none => simp [hga, Except.toOption] at hrow
        | some c => simpa [hga, Except.toOption, eq_comm] using hrow
      apply toOption_eq_some.mp
      rw [hg]
      show rows.mapM g = some out
      clear hnil
      induction hrows with
      | nil => rfl
      | cons hfirst _ ih =>
          rw [List.mapM_cons, hsingle _ _ hfirst, ih]
          rfl

theorem exists_batches {f : List α → Outcome (List β)} (h : Rowwise f) {batches : List (List α)}
    (hnil : [] ∈ batches → ∃ none, f [] = .ok none)
    (hrows : ∀ a ∈ batches.flatten, ∃ b, f [a] = .ok [b]) :
    ∃ outs, batches.mapM f = .ok outs ∧
      List.Forall₂ (fun a b => f [a] = .ok [b]) batches.flatten outs.flatten := by
  obtain ⟨outs, houts⟩ : ∃ outs, List.Forall₂ (fun rows out => f rows = .ok out ∧
      List.Forall₂ (fun a b => f [a] = .ok [b]) rows out) batches outs := by
    apply exists_forall₂
    intro rows hmem
    obtain ⟨out, hout⟩ := exists_forall₂ fun a ha =>
      hrows a (List.mem_flatten.mpr ⟨rows, hmem, ha⟩)
    exact ⟨out, h.of_rows (fun hempty => hnil (hempty ▸ hmem)) hout, hout⟩
  exact ⟨outs, mapM_eq_ok.mpr (houts.imp fun _ _ hout => hout.1),
    List.rel_flatten (houts.imp fun _ _ hout => hout.2)⟩

end Rowwise

section Values

theorem Column.rowwise_convert {a : DataType} (b : DataType) (f : CastFault → Error) :
    Rowwise fun c : Column a => (c.convert b).mapError f := by
  by_cases hab : a = b
  · subst hab
    refine (Rowwise.map id).congr fun c => ?_
    rw [toOption_mapError, Column.convert, dif_pos rfl, List.map_id]
    rfl
  · cases hconversion : conversion? a b with
    | none =>
        refine Rowwise.error fun c => ?_
        rw [toOption_mapError, Column.convert, dif_neg hab, hconversion]
        rfl
    | some g =>
        refine ⟨some fun entry => if (entry.bind (beyondCalendar? a b)).isSome then none
          else some (entry.bind g), fun c => ?_⟩
        rw [toOption_mapError, Column.convert, dif_neg hab, hconversion]
        refine Eq.trans ?_ (mapM_guard _ _ c).symm
        dsimp only
        cases hbeyond : c.findSome? (·.bind (beyondCalendar? a b)) with
        | none =>
            have hall : c.any (fun entry => (entry.bind (beyondCalendar? a b)).isSome) = false := by
              rw [List.any_eq_false]
              intro entry hentry
              rw [List.findSome?_eq_none_iff.mp hbeyond entry hentry]
              exact Bool.false_ne_true
            rw [hall]
            rfl
        | some n =>
            obtain ⟨entry, hentry, hn⟩ := List.exists_of_findSome?_eq_some hbeyond
            have hany : c.any (fun entry => (entry.bind (beyondCalendar? a b)).isSome) = true :=
              List.any_eq_true.mpr ⟨entry, hentry, by rw [hn]; rfl⟩
            rw [hany]
            rfl

theorem Column.rowwise_cast {a : DataType} (b : DataType) :
    Rowwise fun c : Column a => c.cast b := by
  by_cases htext : (a.isUntyped && !b.isUntyped) = true
  · have htwice := (Column.rowwise_convert (a := a) .utf8 (Error.execution <| .castToText ·)).bind
      (Column.rowwise_convert b (Error.execution <| .cast ·))
    refine htwice.congr fun c => ?_
    rw [Column.cast, if_pos htext]
  · refine (Column.rowwise_convert b (Error.execution <| .cast ·)).congr fun c => ?_
    rw [Column.cast, if_neg htext]

theorem Column.rowwise_expect {t : DataType} (u : DataType) (fault : ExecutionFault) :
    Rowwise fun c : Column t => c.expect u fault := by
  by_cases htu : t = u
  · subst htu
    refine (Rowwise.map id).congr fun c => ?_
    rw [Column.expect, Column.as?, dif_pos rfl, List.map_id]
  · refine Rowwise.error fun c => ?_
    rw [Column.expect, Column.as?, dif_neg htu]
    rfl

theorem Column.rowwise₂_expect {a b : DataType} (u v : DataType) (fault fault' : ExecutionFault)
    (op : u.Entry → v.Entry → γ) : Rowwise₂ fun (l : Column a) (r : Column b) =>
      l.expect u fault >>= fun l => r.expect v fault' >>= fun r => .ok (List.zipWith op l r) :=
  ((Rowwise.map Prod.fst).bind (Column.rowwise_expect u fault)).zipWith
    ((Rowwise.map Prod.snd).bind (Column.rowwise_expect v fault')) op

theorem Column.rowwise₂_expect_left {a b : DataType} (u : DataType) (fault : ExecutionFault)
    (op : u.Entry → b.Entry → γ) : Rowwise₂ fun (l : Column a) (r : Column b) =>
      l.expect u fault >>= fun l => .ok (List.zipWith op l r) :=
  ((Rowwise.map Prod.fst).bind (Column.rowwise_expect u fault)).zipWith (Rowwise.map Prod.snd) op

theorem Arithmetic.rowwise_column (op : Arithmetic) {a b : DataType} :
    Rowwise₂ fun (l : Column a) (r : Column b) => op.column l r := by
  have hdivisors : Rowwise fun c : Column b =>
      (divisors b c).mapError (Error.execution <| .zeroDivisor ·) := by
    have hzero : ∀ c : Column b, (divisors b c).toOption =
        (Column.convert ([some (Whole.zero .int64)] : Column .int64) b).toOption.map
          fun zero => c.map fun entry => if zero.contains entry then none else entry := by
      intro c
      rw [divisors]
      generalize Column.convert ([some (Whole.zero .int64)] : Column .int64) b = zero
      cases zero <;> rfl
    cases hconvert : Column.convert ([some (Whole.zero .int64)] : Column .int64) b with
    | error f =>
        refine Rowwise.error fun c => ?_
        rw [toOption_mapError, hzero, hconvert]
        rfl
    | ok zero =>
        refine (Rowwise.map fun entry : b.Entry =>
          if zero.contains entry then none else entry).congr fun c => ?_
        rw [toOption_mapError, hzero, hconvert]
        rfl
  have hvalues : Rowwise₂ fun (l : Column a) (r : Column b) =>
      (op.onColumns l r).mapError (Error.execution <| .arithmetic ·) := by
    cases hop : op.onValues? a b with
    | none =>
        refine Rowwise.error fun pairs => ?_
        rw [toOption_mapError, onColumns, hop]
        rfl
    | some f =>
        refine ⟨some fun p => (onEntries f p.1 p.2).toOption, fun pairs => ?_⟩
        rw [toOption_mapError, onColumns, hop]
        dsimp only
        rw [List.zip_map', toOption_mapM]
        simp
  cases op with
  | divide => exact (Rowwise.map Prod.fst).bind₂ ((Rowwise.map Prod.snd).bind hdivisors) hvalues
  | _ => exact hvalues

end Values

/-- An expression has a value for every row on its own, or none for any rows. -/
theorem Compiled.rowwise_eval {s : Schema} {t : DataType} (e : Compiled s t) :
    Rowwise fun rows : Batch s => e.eval rows := by
  induction e with
  | column i => exact Rowwise.map fun r : Row s => r.get i
  | missing t => exact Rowwise.map fun _ => none
  | literal v => exact Rowwise.map fun _ => v.entry
  | bound t entry => exact Rowwise.map fun _ => entry
  | cast e t ih => exact ih.bind (Column.rowwise_cast t)
  | not e ih =>
      exact ih.bind ((Column.rowwise_expect .boolean _).bind (Rowwise.map (Option.map Bool.not)))
  | junction j l r ihl ihr =>
      exact ihl.bind₂ ihr (Column.rowwise₂_expect .boolean .boolean _ _ j.holds)
  | @compare a b c l r ihl ihr =>
      exact ihl.bind₂ ihr (Column.rowwise₂_expect_left b _ (c.holds b))
  | arith op l r ihl ihr => exact ihl.bind₂ ihr op.rowwise_column
  | concat l r ihl ihr =>
      exact ihl.bind₂ ihr (Column.rowwise₂_expect .utf8 .utf8 _ _ concatEntries)

section Batches

variable {s : Schema}

/-- Whether a row has no missing values where they are not allowed. -/
def Row.isComplete (r : Row s) : Bool :=
  (List.finRange s.length).all fun i =>
    (s.get i).nullable || decide ((s.get i).type = .null) || (r.get i).isSome

theorem Column.not_missing {t : DataType} {c : Column t} :
    ¬ 0 < c.missing ↔ t = .null ∨ ∀ entry ∈ c, entry.isSome := by
  unfold Column.missing
  by_cases ht : t = .null
  · simp [ht]
  · simp only [ht, if_false, false_or, Nat.not_lt, Nat.le_zero, List.length_eq_zero_iff,
      List.filter_eq_nil_iff, Option.isNone_iff_eq_none, Option.isSome_iff_ne_none, ne_eq]

theorem Batch.violation?_eq_none {b : Batch s} :
    b.violation? = none ↔ ∀ r ∈ b, r.isComplete = true := by
  have hcolumn : ∀ i, (!(s.get i).nullable && decide (0 < (b.column i).missing)) = false ↔
      ∀ r ∈ b, ((s.get i).nullable || decide ((s.get i).type = .null) ||
        (r.get i).isSome) = true := by
    intro i
    rw [Bool.and_eq_false_iff, decide_eq_false_iff_not, Column.not_missing]
    cases hnullable : (s.get i).nullable with
    | true => simp
    | false => simp [Batch.column, forall_or_left]
  rw [violation?, Option.map_eq_none_iff, List.find?_eq_none]
  simp only [Bool.not_eq_true, Row.isComplete, List.all_eq_true]
  constructor
  · intro h r hr i hi
    exact (hcolumn i).mp (h i hi) r hr
  · intro h i hi
    exact (hcolumn i).mpr fun r hr => h r hr i hi

theorem Batch.toOption_check (site : BatchSite) (b : Batch s) :
    (b.check site).toOption =
      if s.isEmpty then none else if b.any (!·.isComplete) then none else some b := by
  unfold Batch.check
  by_cases hs : s.isEmpty = true
  · rw [if_pos hs, if_pos hs]
    rfl
  · rw [if_neg hs, if_neg hs]
    cases hviolation : b.violation? with
    | none =>
        have hnone : b.any (!·.isComplete) = false := by
          rw [List.any_eq_false]
          intro r hr
          simp [violation?_eq_none.mp hviolation r hr]
        rw [hnone]
        rfl
    | some name =>
        have hsome : b.any (!·.isComplete) = true := by
          rw [← Bool.not_eq_false]
          intro hnone
          rw [List.any_eq_false] at hnone
          have hcomplete : b.violation? = none := by
            rw [violation?_eq_none]
            intro r hr
            simpa using hnone r hr
          rw [hcomplete] at hviolation
          cases hviolation
        rw [hsome]
        rfl

theorem Batch.rowwise_check (site : BatchSite) : Rowwise fun b : Batch s => b.check site := by
  by_cases hs : s.isEmpty = true
  · refine Rowwise.error fun b => ?_
    rw [Batch.toOption_check, if_pos hs]
  · refine ⟨some fun r => if !r.isComplete then none else some r, fun b => ?_⟩
    rw [Batch.toOption_check, if_neg hs]
    refine Eq.trans ?_ (mapM_guard _ _ b).symm
    rw [List.map_id']

theorem rowwise_scanColumns (index : Nat) (declared : Schema) :
    Rowwise fun rows : Batch s => scanColumns rows index declared := by
  induction declared generalizing index with
  | nil =>
      refine (Rowwise.map fun _ : Row s => Row.nil).congr fun rows => ?_
      rw [scanColumns, Batch.blank, List.map_const']
  | cons f rest ih =>
      have hcolumn : Rowwise fun rows : Batch s => scanColumn rows index f.type := by
        unfold scanColumn
        split
        · rename_i h
          exact (Rowwise.map fun r : Row s => r.get ⟨index, h⟩).bind (Column.rowwise_cast f.type)
        · exact Rowwise.map fun _ => none
      exact hcolumn.zipWith (ih (index + 1)) Row.cons

/-- Output columns of their declared types, once the order in which they fail is left aside. -/
theorem toOption_projectColumns_cons {rows : Batch s} {index : Nat} {c : OutputColumn s}
    {rest : List (OutputColumn s)} (fault : BatchFault → Error) :
    (projectColumns rows index (c :: rest) >>= (·.mapError fault)).toOption =
      (c.value.2.eval rows >>= (·.expect c.field.type .predicateType) >>= fun l =>
        projectColumns rows (index + 1) rest >>= (·.mapError fault) >>= fun r =>
          (.ok (List.zipWith Row.cons l r) : Outcome _)).toOption := by
  rw [projectColumns]
  generalize projectColumns rows (index + 1) rest = others
  cases c.value.2.eval rows with
  | error e => rfl
  | ok column =>
      dsimp only [Bind.bind, Except.bind]
      cases htyped : column.as? c.field.type with
      | none =>
          rw [Column.expect, htyped]
          cases others <;> rfl
      | some typed =>
          rw [Column.expect, htyped]
          cases others with
          | error e => rfl
          | ok b => cases b <;> rfl

theorem rowwise_projectSlice (columns : List (OutputColumn s)) :
    Rowwise fun rows : Batch s => projectSlice columns rows := by
  have hcolumns : ∀ (columns : List (OutputColumn s)) (index : Nat), Rowwise fun rows : Batch s =>
      projectColumns rows index columns >>= fun b =>
        b.mapError (Error.execution <| .batch .projection ·) := by
    intro columns
    induction columns with
    | nil =>
        intro index
        refine (Rowwise.map fun _ : Row s => Row.nil).congr fun rows => ?_
        rw [projectColumns, Batch.blank, List.map_const']
        rfl
    | cons c rest ih =>
        intro index
        have htyped := c.value.2.rowwise_eval.bind
          (Column.rowwise_expect c.field.type .predicateType)
        exact (htyped.zipWith (ih (index + 1)) Row.cons).congr fun rows =>
          toOption_projectColumns_cons _
  refine ((hcolumns columns 0).bind (Batch.rowwise_check .projection)).congr fun rows => ?_
  rw [projectSlice, bind_assoc]

theorem rowwise_evalCells (es : List (AnyCompiled s)) :
    Rowwise fun rows : Batch s => evalCells es rows := by
  induction es with
  | nil =>
      refine (Rowwise.map fun _ : Row s => ([] : List (Outcome Cell))).congr fun rows => ?_
      rw [List.map_const']
      rfl
  | cons e es ih =>
      have hcells := e.2.rowwise_eval.bind (Rowwise.map Cell.read)
      refine (hcells.zipWith ih List.cons).congr fun rows => ?_
      simp only [evalCells, List.mapM_cons]
      cases e.2.eval rows with
      | error f => rfl
      | ok column =>
          cases es.mapM fun e => e.2.eval rows >>= fun c => pure (c.map Cell.read) <;> rfl

theorem rowwise_encodeBatch : Rowwise fun b : Batch s => encodeBatch b := by
  have hcolumns : ∀ (indices : List (Fin s.length)) (positions : List Nat),
      indices.length = positions.length → Rowwise fun b : Batch s =>
        (indices.map fun i => (b.column i).map Cell.read).mapM
          (fun c => c.mapM id >>= Cell.build .binary) >>= fun columns =>
            (.ok (untypedBatch b.length positions columns) : Outcome _) := by
    intro indices
    induction indices with
    | nil =>
        intro positions hlength
        obtain rfl := List.length_eq_zero_iff.mp hlength.symm
        refine (Rowwise.map fun _ : Row s => Row.nil).congr fun b => ?_
        rw [List.map_const']
        rfl
    | cons i indices ih =>
        intro positions hlength
        cases positions with
        | nil => cases hlength
        | cons p positions =>
            have hcolumn : Rowwise fun b : Batch s =>
                ((b.column i).map Cell.read).mapM id >>= Cell.build .binary := by
              have hread := ((Rowwise.map fun r : Row s => Cell.read (r.get i)).bind
                (Rowwise.mapM id)).bind (Rowwise.mapM (Cell.narrow .binary))
              refine hread.congr fun b => ?_
              rw [Batch.column, List.map_map]
              rfl
            have hrow := hcolumn.zipWith (ih positions (Nat.succ.inj hlength))
              (Row.cons (f := positionalField p))
            refine hrow.congr fun b => ?_
            simp only [List.map_cons, List.mapM_cons]
            generalize ((Batch.column b i).map Cell.read).mapM id >>= Cell.build .binary = first
            generalize (indices.map fun i => (Batch.column b i).map Cell.read).mapM
              (fun c : List (Outcome Cell) => c.mapM id >>= Cell.build .binary) = others
            cases first with
            | error e => rfl
            | ok c => cases others <;> rfl
  refine (hcolumns (List.finRange s.length) (List.range s.length) (by simp)).congr fun b => ?_
  rfl

end Batches

end RelScript
