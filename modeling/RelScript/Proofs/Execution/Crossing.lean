import RelScript.Proofs.Analysis.Crossing
import RelScript.Proofs.Execution.KnownRows
import RelScript.Proofs.Value.Casting

/-!
Queries that read one row, and the same queries over rows that have this row behind them. What is
bound once for all rows has the value that it has as a column, so projections give the same rows,
and filters keep the same ones.
-/

namespace RelScript

section Rows

variable {s t : Schema}

theorem Row.getElem?_entries (r : Row s) (i : Fin s.length) :
    r.entries[i.val]? = some ⟨(s.get i).type, r.get i⟩ := by
  induction r with
  | nil => exact i.elim0
  | cons entry rest ih =>
      obtain ⟨i, hi⟩ := i
      cases i with
      | zero => rfl
      | succ i => exact ih ⟨i, Nat.lt_of_succ_lt_succ hi⟩

theorem Row.length_entries (r : Row s) : r.entries.length = s.length := by
  induction r with
  | nil => rfl
  | cons entry rest ih => exact congrArg Nat.succ ih

theorem Row.entries_append (r : Row s) (row : Row t) :
    (r.append row).entries = r.entries ++ row.entries := by
  induction r with
  | nil => rfl
  | cons entry rest ih => exact congrArg (_ :: ·) ih

theorem Row.isComplete_cons {f : Field} (entry : f.type.Entry) (r : Row s) :
    (Row.cons entry r).isComplete =
      ((f.nullable || decide (f.type = .null) || entry.isSome) && r.isComplete) := by
  simp only [isComplete, List.length_cons, List.finRange_succ, List.all_cons, List.all_map]
  rfl

theorem Row.isComplete_append (r : Row s) (row : Row t) :
    (r.append row).isComplete = (r.isComplete && row.isComplete) := by
  induction r with
  | nil => rfl
  | cons entry rest ih =>
      rw [isComplete_cons, Bool.and_assoc, ← ih]
      exact isComplete_cons entry _

end Rows

theorem Placeholder.value_of_entry {p : Placeholder} {s : Schema} {r : Row s}
    {entry : p.type.Entry} (h : r.entries[p.index]? = some ⟨p.type, entry⟩) :
    p.value (.row s r) = .ok entry := by
  rw [value, h]
  dsimp only
  rw [Column.cast_self]
  rfl

/-- Two compiled expressions, over some columns and over these columns with one row behind every
row. They have one type, and the same values. -/
inductive AnyCompiled.Extends {s t : Schema} (row : Row t) :
    AnyCompiled s → AnyCompiled (s ++ t) → Prop
  | intro {u : DataType} {e : Compiled s u} {e' : Compiled (s ++ t) u}
    (declared : e'.declared = e.declared)
    (eval : ∀ rows : Batch s, e'.eval (rows.map (·.append row)) = e.eval rows) :
    Extends row ⟨u, e⟩ ⟨u, e'⟩

section Expressions

variable {s t : Schema} {row : Row t}

theorem AnyCompiled.Extends.of_entries {u u' : DataType} {e : Compiled s u}
    {e' : Compiled (s ++ t) u'} {pick : Row s → u.Entry} {pick' : Row (s ++ t) → u'.Entry}
    (htype : u' = u) (heval : ∀ rows, e.eval rows = .ok (rows.map pick))
    (heval' : ∀ rows, e'.eval rows = .ok (rows.map pick')) (hdeclared : e.declared = u)
    (hdeclared' : e'.declared = u')
    (hsame : ∀ r, (⟨u', pick' (r.append row)⟩ : (v : DataType) × v.Entry) = ⟨u, pick r⟩) :
    Extends row ⟨u, e⟩ ⟨u', e'⟩ := by
  subst htype
  refine .intro (hdeclared'.trans hdeclared.symm) fun rows => ?_
  rw [heval, heval', List.map_map]
  exact congrArg Except.ok (List.map_congr_left fun r _ => eq_of_heq (Sigma.mk.inj (hsame r)).2)

theorem extends_compileColumn {i : Nat} (hi : i < s.length) :
    AnyCompiled.Extends row (compileColumn s i) (compileColumn (s ++ t) i) := by
  have hi' : i < (s ++ t).length := by
    rw [List.length_append]
    omega
  rw [compileColumn, compileColumn, dif_pos hi, dif_pos hi']
  refine .of_entries ?_ (fun _ => rfl) (fun _ => rfl) rfl rfl fun r => ?_
  · simp [List.getElem_append_left, hi]
  · have hleft := r.getElem?_entries ⟨i, hi⟩
    have hboth := (r.append row).getElem?_entries ⟨i, hi'⟩
    rw [Row.entries_append, List.getElem?_append_left (by rw [Row.length_entries]; exact hi),
      hleft] at hboth
    exact (Option.some.inj hboth).symm

theorem extends_bound {i : Nat} (hi : i < t.length) {u : DataType} {entry : u.Entry}
    (hentry : row.entries[i]? = some ⟨u, entry⟩) :
    AnyCompiled.Extends row (s := s) ⟨u, .bound u entry⟩
      (compileColumn (s ++ t) (s.length + i)) := by
  have hi' : s.length + i < (s ++ t).length := by
    rw [List.length_append]
    omega
  have hfound : ∀ r : Row s, some
      (⟨((s ++ t).get ⟨s.length + i, hi'⟩).type, (r.append row).get ⟨s.length + i, hi'⟩⟩ :
        (v : DataType) × v.Entry) = some ⟨u, entry⟩ := by
    intro r
    rw [← (r.append row).getElem?_entries ⟨s.length + i, hi'⟩, Row.entries_append,
      List.getElem?_append_right (by rw [Row.length_entries]; exact Nat.le_add_right _ _),
      Row.length_entries, Nat.add_sub_cancel_left, hentry]
  have htype : ((s ++ t).get ⟨s.length + i, hi'⟩).type = u := by
    have hbehind := row.getElem?_entries ⟨i, hi⟩
    rw [hentry] at hbehind
    rw [(Sigma.mk.inj (Option.some.inj hbehind)).1]
    simp [List.getElem_append_right]
  rw [compileColumn, dif_pos hi']
  exact .of_entries htype (fun _ => rfl) (fun _ => rfl) rfl rfl fun r =>
    Option.some.inj (hfound r)

theorem Expr.Crosses.compile_alike {scalar : String} {id : SideInputId} {known : Schema}
    {e e' : Expr} (h : Expr.Crosses s.length scalar id known e e') (hknown : known.Describes t)
    {b : ScalarBindings}
    (hb : ∀ p ∈ e.placeholders, b.lookup p.sideInput = some (.row t row)) (b' : ScalarBindings) :
    Alike (AnyCompiled.Extends row) (e.compile s b) (e'.compile (s ++ t) b') := by
  induction h with
  | column name name' hi => exact extends_compileColumn hi
  | @field name i f hf htyped =>
      -- Here the field is bound once for all rows, there it stands behind each of them.
      obtain ⟨g, hg, htype⟩ := exists_getElem?_of_forall₂ hknown hf
      obtain ⟨hi, rfl⟩ := List.getElem?_eq_some_iff.mp hg
      obtain ⟨entry, hentry⟩ : ∃ entry : f.type.Entry, row.entries[i]? = some ⟨f.type, entry⟩ := by
        rw [← htype htyped]
        exact ⟨_, row.getElem?_entries ⟨i, hi⟩⟩
      have hvalue := Placeholder.value_of_entry (p := ⟨id, scalar, i, f.type, true⟩) hentry
      rw [compile, compile, hb _ (List.mem_singleton.mpr rfl)]
      dsimp only
      rw [hvalue]
      exact extends_bound hi hentry
  | literal v => exact .intro rfl fun rows => congrArg Except.ok (List.map_map ..)
  | cast target _ ih =>
      rw [placeholders_cast] at hb
      refine (ih hb).bind fun c c' hc => ?_
      obtain ⟨hdeclared, heval⟩ := hc
      refine .intro rfl fun rows => ?_
      rw [Compiled.eval, Compiled.eval, heval]
  | not _ ih =>
      rw [placeholders_not] at hb
      refine (ih hb).bind fun c c' hc => ?_
      obtain ⟨hdeclared, heval⟩ := hc
      refine .intro rfl fun rows => ?_
      rw [Compiled.eval, Compiled.eval, heval]
  | junction j _ _ ihl ihr =>
      rw [placeholders_junction, List.forall_mem_append] at hb
      refine (ihl hb.1).bind fun l l' hl => (ihr hb.2).bind fun r r' hr => ?_
      obtain ⟨-, hl⟩ := hl
      obtain ⟨-, hr⟩ := hr
      refine .intro rfl fun rows => ?_
      rw [Compiled.eval, Compiled.eval, hl, hr]
  | binary op _ _ ihl ihr =>
      rw [placeholders_binary, List.forall_mem_append] at hb
      refine (ihl hb.1).bind fun l l' hl => (ihr hb.2).bind fun r r' hr => ?_
      obtain ⟨hldeclared, hl⟩ := hl
      obtain ⟨hrdeclared, hr⟩ := hr
      cases op with
      | compare op =>
          refine .intro rfl fun rows => ?_
          rw [Compiled.eval, Compiled.eval, hl, hr]
      | concat =>
          refine .intro rfl fun rows => ?_
          rw [Compiled.eval, Compiled.eval, hl, hr]
      | arith op =>
          dsimp only
          rw [hldeclared, hrdeclared]
          split
          · refine .intro hldeclared fun rows => ?_
            rw [Compiled.eval, Compiled.eval, hl, hr]
          · trivial

end Expressions

section Steps

variable {s t : Schema} {row : Row t} {scalar : String} {id : SideInputId} {known : Schema}
  {b : ScalarBindings}

theorem filterSlice_crossed {e e' : Expr} (h : Expr.Crosses s.length scalar id known e e')
    (hknown : known.Describes t)
    (hb : ∀ p ∈ e.placeholders, b.lookup p.sideInput = some (.row t row)) (b' : ScalarBindings)
    (rows : Batch s) :
    Alike (fun kept kept' => kept' = kept.map (·.append row)) (filterSlice e b rows)
      (filterSlice e' b' (rows.map (·.append row))) := by
  refine (h.compile_alike hknown hb b').bind fun c c' hc => ?_
  obtain ⟨-, heval⟩ := hc
  dsimp only
  rw [heval]
  refine (Alike.refl _).bind ?_
  rintro mask _ rfl
  refine (Alike.refl _).bind ?_
  rintro holds _ rfl
  show ((List.zip (rows.map (·.append row)) holds).filter fun r => holdsTrue r.2).map (·.1) = _
  rw [List.zip_map_left, List.filter_map, List.map_map, List.map_map]
  rfl

/-- A batch with one more column in front, which has to have the type that it is declared with. -/
def TypedBatch.consColumn (name : String) (declared : DataType) (index : Nat) {u : DataType}
    (column : Column u) (b : Except BatchFault TypedBatch) : Except BatchFault TypedBatch :=
  match column.as? declared with
  | some column =>
    b.map fun b => ⟨⟨name, declared, true⟩ :: b.schema,
      Batch.consColumn (f := ⟨name, declared, true⟩) column b.rows⟩
  | none => .error (.columnType declared u index)

theorem projectColumns_cons (rows : Batch s) (index : Nat) (c : OutputColumn s)
    (rest : List (OutputColumn s)) :
    (projectColumns rows index (c :: rest)).map (·.map (TypedBatch.mk _)) =
      (c.value.2.eval rows >>= fun column =>
        (projectColumns rows (index + 1) rest).map (·.map (TypedBatch.mk _)) >>= fun b =>
          .ok (TypedBatch.consColumn c.name c.value.2.declared index column b)) := by
  rw [projectColumns]
  cases c.value.2.eval rows with
  | error e => rfl
  | ok column =>
      cases projectColumns rows (index + 1) rest with
      | error e => rfl
      | ok b =>
          dsimp only [Bind.bind, Except.bind, Except.map]
          unfold TypedBatch.consColumn OutputColumn.field
          dsimp only
          cases column.as? c.value.2.declared with
          | none => rfl
          | some column => cases b <;> rfl

/-- Output columns of one name, of which one extends the other. -/
def OutputColumn.Extends (row : Row t) (c : OutputColumn s) (c' : OutputColumn (s ++ t)) : Prop :=
  AnyCompiled.Extends row c.value c'.value ∧ c'.name = c.name

theorem fields_of_extends {columns : List (OutputColumn s)}
    {columns' : List (OutputColumn (s ++ t))}
    (h : List.Forall₂ (OutputColumn.Extends row) columns columns') :
    columns'.map OutputColumn.field = columns.map OutputColumn.field := by
  rw [← List.forall₂_eq_eq_eq, List.forall₂_map_left_iff, List.forall₂_map_right_iff]
  refine h.flip.imp fun c' c hc => ?_
  obtain ⟨e, name⟩ := c
  obtain ⟨e', name'⟩ := c'
  obtain ⟨⟨hdeclared, -⟩, rfl⟩ := hc
  exact congrArg (Field.mk _ · true) hdeclared

theorem projectSlice_crossed {columns : List (OutputColumn s)}
    {columns' : List (OutputColumn (s ++ t))}
    (h : List.Forall₂ (OutputColumn.Extends row) columns columns') (rows : Batch s) :
    (projectSlice columns' (rows.map (·.append row))).map (TypedBatch.mk _) =
      (projectSlice columns rows).map (TypedBatch.mk _) := by
  have hcolumns : ∀ index,
      (projectColumns (rows.map (·.append row)) index columns').map (·.map (TypedBatch.mk _)) =
        (projectColumns rows index columns).map (·.map (TypedBatch.mk _)) := by
    induction h with
    | nil =>
        intro index
        rw [projectColumns, projectColumns, List.length_map]
        rfl
    | @cons c c' rest rest' hc _ ih =>
        intro index
        obtain ⟨e, name⟩ := c
        obtain ⟨e', name'⟩ := c'
        obtain ⟨⟨hdeclared, heval⟩, rfl⟩ := hc
        rw [projectColumns_cons, projectColumns_cons, ih]
        dsimp only
        rw [heval, hdeclared]
  have hchecked : ∀ {s : Schema} (columns : List (OutputColumn s)) (rows : Batch s),
      (projectSlice columns rows).map (TypedBatch.mk _) =
        ((projectColumns rows 0 columns).map (·.map (TypedBatch.mk _)) >>= fun b =>
          b.mapError (Error.execution <| .batch .projection ·) >>= fun b =>
            (b.rows.check .projection).map (TypedBatch.mk _)) := by
    intro s columns rows
    rw [projectSlice]
    cases projectColumns rows 0 columns with
    | error e => rfl
    | ok b => cases b <;> rfl
  rw [hchecked, hchecked, hcolumns]

theorem rowKeys_nil (b : ScalarBindings) {s : Schema} (rows : Batch s) :
    rowKeys b [] rows = .ok (List.replicate rows.length []) := by
  have hkeys : (transposeCells rows.length ([] : List (List (Outcome Cell)))).mapM
      (·.mapM id) = (.ok (List.replicate rows.length []) : Outcome (List (List Cell))) := by
    refine mapM_eq_ok.mpr ?_
    induction rows with
    | nil => exact .nil
    | cons r rest ih => exact .cons rfl ih
  exact hkeys

theorem matchRows_single {s : Schema} (rows : Batch s) (row : Row t) :
    matchRows ((List.replicate rows.length []).zip rows) ([[]].zip [row]) =
      rows.map fun r => (r, row) := by
  induction rows with
  | nil => rfl
  | cons r rest ih =>
      rw [List.length_cons, List.replicate_succ, List.zip_cons_cons, List.map_cons, ← ih]
      rfl

/-- The join without keys with a single row puts this row behind every row. -/
theorem joinRelations_single {left right : Relation} (hright : right.contents = ⟨t, [row]⟩)
    (hleft : ∀ r ∈ left.rows, r.isComplete = true) (hrow : row.isComplete = true) (ht : t ≠ [])
    (b : ScalarBindings) : ∃ joined, joinRelations left right [] b = .ok joined ∧
      joined.contents = ⟨left.schema ++ t, left.rows.map (·.append row)⟩ := by
  obtain ⟨u, batches⟩ := right
  obtain ⟨rfl, hrows⟩ := TypedBatch.mk.injEq .. ▸ hright
  have hone : Relation.rows ⟨u, batches⟩ = [row] := eq_of_heq hrows
  have hcomplete : (left.rows.map (·.append row)).any (!·.isComplete) = false := by
    rw [List.any_eq_false, List.forall_mem_map]
    intro r hr
    rw [Row.isComplete_append, hleft r hr, hrow]
    exact Bool.false_ne_true
  have hjoined : joinRelations left ⟨u, batches⟩ [] b =
      if (left.rows.map fun r => (r, row)).isEmpty then .ok ⟨left.schema ++ u, []⟩
      else (Batch.check .join (left.rows.map (·.append row))).map fun checked =>
        ⟨left.schema ++ u, [checked]⟩ := by
    rw [joinRelations, List.map_nil, List.map_nil, rowKeys_nil, rowKeys_nil]
    dsimp only [Bind.bind, Except.bind]
    rw [hone, List.length_singleton, List.replicate_one, matchRows_single, List.map_map]
    split
    · rfl
    · dsimp only [Function.comp_def]
      cases Batch.check .join (left.rows.map (·.append row)) <;> rfl
  rw [hjoined]
  split
  · rename_i hempty
    refine ⟨_, rfl, ?_⟩
    rw [List.isEmpty_iff, List.map_eq_nil_iff] at hempty
    rw [hempty]
    rfl
  · have hcheck := Batch.toOption_check .join (left.rows.map (·.append row))
    rw [if_neg (by simp [ht]), hcomplete, if_neg Bool.false_ne_true] at hcheck
    cases hresult : Batch.check .join (left.rows.map (·.append row)) with
    | error e =>
        rw [hresult] at hcheck
        cases hcheck
    | ok checked =>
        rw [hresult] at hcheck
        cases hcheck
        exact ⟨_, rfl, congrArg (TypedBatch.mk _) (List.flatten_singleton ..)⟩

end Steps

namespace Run.Alike

variable {α β γ δ : Type} {c c' : Catalog} {R : α → β → Prop}

theorem then_right {S : α → δ → Prop} {step : Run α} {step' : Run β} {next : β → Run δ}
    (h : Run.Alike c c' R step step')
    (hnext : ∀ a b, R a b → ∀ w, w.catalog = c' → ∃ d, (next b w).1 = .ok d ∧ S a d ∧
      (next b w).2.catalog = c') : Run.Alike c c' S step (step' >>= next) := by
  intro w w' hw hw'
  obtain ⟨hresults, hcatalog, hcatalog'⟩ := h w w' hw hw'
  rw [run_bind]
  cases hstep : (step w).1 with
  | ok a =>
      rw [hstep] at hresults
      obtain ⟨b, hb, hab⟩ := hresults.ok_left
      obtain ⟨d, hd, hS, hafter⟩ := hnext a b hab _ hcatalog'
      rw [hb]
      dsimp only
      rw [hd]
      exact ⟨hS, hcatalog, hafter⟩
  | error e =>
      rw [hstep] at hresults
      obtain ⟨f, hf⟩ := hresults.error_left
      rw [hf]
      exact ⟨trivial, hcatalog, hcatalog'⟩

theorem runParts_map {f : α → γ} {step : List α → Outcome (List β)}
    {step' : List γ → Outcome (List δ)} (hstep : Splits step) (hstep' : Splits step')
    {S : List β → List δ → Prop} (hnil : S [] [])
    (hsame : ∀ rows, RelScript.Alike S (step rows) (step' (rows.map f)))
    {batches : List (List α)} {batches' : List (List γ)}
    (hrows : batches'.flatten = batches.flatten.map f) {ctx ctx' : RunContext}
    (b b' : ScalarBindings) :
    Run.Alike c c' (fun outputs outputs' => S outputs.flatten outputs'.flatten)
      (runParts ctx b step batches) (runParts ctx' b' step' batches') := by
  intro w w' hw hw'
  have hleft := hstep.toOption_runParts ctx b batches w
  have hright := hstep'.toOption_runParts ctx' b' batches' w'
  have hcatalog := run_runParts ctx b step batches w
  have hcatalog' := run_runParts ctx' b' step' batches' w'
  obtain ⟨v, hrun, hv⟩ := hcatalog
  obtain ⟨v', hrun', hv'⟩ := hcatalog'
  refine ⟨?_, by rw [hrun]; exact hv.trans hw, by rw [hrun']; exact hv'.trans hw'⟩
  have hoptions : ∀ (x : Outcome (List (List β))) (y : Outcome (List (List δ)))
      (p : Outcome (List β)) (q : Outcome (List δ)), x.toOption.map List.flatten = p.toOption →
        y.toOption.map List.flatten = q.toOption → RelScript.Alike S p q →
          RelScript.Alike (fun a b => S a.flatten b.flatten) x y := by
    intro x y p q hx hy hpq
    cases x <;> cases p <;> cases hx <;> cases y <;> cases q <;> cases hy <;> exact hpq
  rw [hrows] at hright
  by_cases hempty : batches.flatten = []
  · rw [if_pos hempty] at hleft
    rw [if_pos (List.map_eq_nil_iff.mpr hempty)] at hright
    exact hoptions _ _ (.ok []) (.ok []) hleft hright hnil
  · rw [if_neg hempty] at hleft
    rw [if_neg (mt List.map_eq_nil_iff.mp hempty)] at hright
    exact hoptions _ _ _ _ hleft hright (hsame _)

end Run.Alike

namespace RowQuery

/-- The operator of a query over an input. -/
def operator : RowQuery → Operator → Operator
  | project columns, input => .project columns input
  | filter predicate, input | split _ predicate, input => .filter predicate input

theorem lower_node (q : RowQuery) (p : Plan) (size : Nat) :
    (q.node p).lower size = (p.lower size).map q.operator := by
  cases q <;> (rw [node, Plan.lower]; cases p.lower size <;> rfl)

/-- What a query gives over rows with one more row behind each of them, by what it gives over the
rows themselves: the same for a projection, and for a filter the same rows, with the one row behind
each of them. -/
def Answers (q : RowQuery) {t : Schema} (row : Row t) (r r' : Relation) : Prop :=
  match q with
  | project _ => r'.contents = r.contents
  | filter _ | split _ _ => r'.contents = ⟨r.schema ++ t, r.rows.map (·.append row)⟩

theorem answers_of_analyzed {scope : RelationScope} {columns : Resolver} {f : Expr → Expr}
    {q : RowQuery} {found : RowQuery × Resolver}
    (h : scope.analyzeQuery columns (q.mapExprs f) = .ok found) {t : Schema} (row : Row t) :
    found.1.Answers row = q.Answers row := by
  cases q with
  | project | filter | split =>
      obtain ⟨analyzed, -, hfound⟩ := bind_eq_ok.mp h
      cases hfound
      rfl

end RowQuery

section Runs

variable {s t : Schema} {row : Row t} {c c' : Catalog} {ctx ctx' : RunContext}
  {b b' : ScalarBindings} {i i' : Operator}

/-- A relation of known columns, and the same rows with one row behind each of them. -/
def Relation.Extends (known : Schema) (row : Row t) (r r' : Relation) : Prop :=
  known.Describes r.schema ∧ r'.contents = ⟨r.schema ++ t, r.rows.map (·.append row)⟩

theorem Relation.Extends.exists_batches {r r' : Relation} (h : Relation.Extends s row r r') :
    s.length = List.length r.schema ∧ ∃ batches, r' = ⟨r.schema ++ t, batches⟩ ∧
      batches.flatten = r.rows.map (·.append row) := by
  obtain ⟨hdescribes, hcontents⟩ := h
  obtain ⟨schema, batches⟩ := r'
  obtain ⟨rfl, hrows⟩ := TypedBatch.mk.injEq .. ▸ hcontents
  exact ⟨hdescribes.length_eq, batches, rfl, eq_of_heq hrows⟩

theorem hashJoin_extends {k : Operator}
    (hinput : Run.Alike c c' (fun r r' => r' = r ∧ r.Meets (some s)) (i.execute ctx b)
      (i'.execute ctx' b'))
    (hsingle : ∀ w, w.catalog = c' → ∃ r, (k.execute ctx' b' w).1 = .ok r ∧
      r.contents = ⟨t, [row]⟩ ∧ (k.execute ctx' b' w).2.catalog = c')
    (hrow : row.isComplete = true) (ht : t ≠ []) :
    Run.Alike c c' (Relation.Extends s row) (i.execute ctx b)
      ((Operator.hashJoin i' k []).execute ctx' b') := by
  refine hinput.then_right fun l l' hl w hw => ?_
  obtain ⟨rfl, hmeets⟩ := hl
  obtain ⟨hdescribes, hcomplete⟩ := hmeets s rfl
  obtain ⟨r, hr, hcontents, hafter⟩ := hsingle w hw
  obtain ⟨joined, hjoined, hextends⟩ := joinRelations_single hcontents hcomplete hrow ht b'
  refine ⟨joined, ?_, ⟨hdescribes, hextends⟩, ?_⟩
  · rw [run_bind, hr]
    dsimp only
    rw [hjoined]
    rfl
  · rw [run_bind, hr]
    dsimp only
    rw [hjoined]
    exact hafter

theorem filter_extends {scalar : String} {id : SideInputId} {known : Schema} {e e' : Expr}
    (h : Expr.Crosses s.length scalar id known e e') (hknown : known.Describes t)
    (hb : ∀ p ∈ e.placeholders, b.lookup p.sideInput = some (.row t row))
    (hinput : Run.Alike c c' (Relation.Extends s row) (i.execute ctx b) (i'.execute ctx' b')) :
    Run.Alike c c' (fun r r' => r'.contents = ⟨r.schema ++ t, r.rows.map (·.append row)⟩)
      ((Operator.filter e i).execute ctx b) ((Operator.filter e' i').execute ctx' b') := by
  refine hinput.bind fun r r' hr => ?_
  obtain ⟨hlength, batches', rfl, hrows⟩ := hr.exists_batches
  rw [hlength] at h
  refine (Run.Alike.runParts_map (splits_filterSlice e b) (splits_filterSlice e' b')
    (S := fun kept kept' => kept' = kept.map (·.append row)) rfl
    (filterSlice_crossed h hknown hb b') hrows b b').bind fun batches batches' hkept => ?_
  exact Run.Alike.finish (congrArg (TypedBatch.mk _) hkept)

theorem compileOutputs_extends {scalar : String} {id : SideInputId} {known : Schema}
    {columns columns' : List (Named Expr)}
    (h : List.Forall₂ (fun o o' => Expr.Crosses s.length scalar id known o.value o'.value ∧
      o'.name = o.name) columns columns') (hknown : known.Describes t)
    (hb : ∀ o ∈ columns, ∀ p ∈ o.value.placeholders,
      b.lookup p.sideInput = some (.row t row)) (b' : ScalarBindings) :
    Alike (List.Forall₂ (OutputColumn.Extends row)) (columns.mapM (compileOutput s b))
      (columns'.mapM (compileOutput (s ++ t) b')) := by
  induction h with
  | nil => exact List.Forall₂.nil
  | cons ho _ ih =>
      obtain ⟨hfirst, hrest⟩ := List.forall_mem_cons.mp hb
      rw [List.mapM_cons, List.mapM_cons]
      refine ((ho.1.compile_alike hknown hfirst b').bind fun e e' he => ?_).bind
        fun o o' ho' => (ih hrest).bind fun os os' hos => List.Forall₂.cons ho' hos
      exact ⟨he, ho.2⟩

theorem projectSlice_extends {compiled : List (OutputColumn s)}
    {compiled' : List (OutputColumn (s ++ t))}
    (h : List.Forall₂ (OutputColumn.Extends row) compiled compiled') (rows : Batch s) :
    Alike (fun out out' => (⟨_, out'⟩ : TypedBatch) = ⟨_, out⟩) (projectSlice compiled rows)
      (projectSlice compiled' (rows.map (·.append row))) := by
  have hbatches := projectSlice_crossed h rows
  revert hbatches
  generalize projectSlice compiled rows = x
  generalize projectSlice compiled' (rows.map (·.append row)) = y
  intro hbatches
  cases x <;> cases y
  · trivial
  · cases hbatches
  · cases hbatches
  · exact Except.ok.inj hbatches

theorem project_extends {scalar : String} {id : SideInputId} {known : Schema}
    {columns columns' : List (Named Expr)}
    (h : List.Forall₂ (fun o o' => Expr.Crosses s.length scalar id known o.value o'.value ∧
      o'.name = o.name) columns columns') (hknown : known.Describes t)
    (hb : ∀ o ∈ columns, ∀ p ∈ o.value.placeholders,
      b.lookup p.sideInput = some (.row t row))
    (hinput : Run.Alike c c' (Relation.Extends s row) (i.execute ctx b) (i'.execute ctx' b')) :
    Run.Alike c c' (fun r r' => r'.contents = r.contents)
      ((Operator.project columns i).execute ctx b)
      ((Operator.project columns' i').execute ctx' b') := by
  refine hinput.bind fun r r' hr => ?_
  obtain ⟨hlength, batches', rfl, hrows⟩ := hr.exists_batches
  rw [hlength] at h
  have hcompiled := compileOutputs_extends h hknown hb b'
  refine (Run.Alike.ofOutcome hcompiled).bind fun compiled compiled' hextends => ?_
  have hfields := fields_of_extends hextends
  have hnone : ∀ {fields fields' : Schema}, fields' = fields →
      (⟨fields', []⟩ : TypedBatch) = ⟨fields, []⟩ := by
    rintro fields _ rfl
    rfl
  refine (Run.Alike.runParts_map (rowwise_projectSlice compiled).splits
    (rowwise_projectSlice compiled').splits
    (S := fun out out' => (⟨_, out'⟩ : TypedBatch) = ⟨_, out⟩) (hnone hfields)
    (projectSlice_extends hextends) hrows b b').bind fun batches batches' hsame => ?_
  exact Run.Alike.finish hsame

/-- A query that reads the row from a side input answers as the same query over the join does. -/
theorem RowQuery.Crosses.execute_alike {scalar : String} {id : SideInputId} {known : Schema}
    {q q' : RowQuery}
    (h : RowQuery.Crosses s.length scalar id known q q') (hknown : known.Describes t)
    (hb : ∀ e ∈ q.exprs, ∀ p ∈ e.placeholders, b.lookup p.sideInput = some (.row t row))
    (hinput : Run.Alike c c' (Relation.Extends s row) (i.execute ctx b) (i'.execute ctx' b')) :
    Run.Alike c c' (q.Answers row) ((q.operator i).execute ctx b)
      ((q'.operator i').execute ctx' b') := by
  cases h with
  | project hcolumns =>
      exact project_extends hcolumns hknown (fun o ho => hb _ (List.mem_map_of_mem ho)) hinput
  | filter he => exact filter_extends he hknown (hb _ (List.mem_singleton.mpr rfl)) hinput
  | split branch he => exact filter_extends he hknown (hb _ (List.mem_singleton.mpr rfl)) hinput

end Runs

end RelScript
