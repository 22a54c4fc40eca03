import RelScript.Proofs.Session.Crossing
import RelScript.Proofs.Unit.Failures
import RelScript.Proofs.Value.UntypedCast

/-!
Casts of the fields of a scalar without a schema, next to casts of the columns of its relation. A
field is raw bytes by the time that it is cast, and a column is what the relation holds. The two
come to the same exactly for the cells that come to the same by way of raw bytes.
-/

namespace RelScript

section Casts

variable {s : Schema} {target : DataType}

/-- The cell of a row at a position. Past the end of the row there are missing raw bytes. -/
def Row.cellAt (row : Row s) (n : Nat) : (t : DataType) × t.Entry :=
  row.entries[n]?.getD ⟨.binary, none⟩

/-- A column of an undeclared input, cast to a type. -/
def Expr.columnCast (n : Nat) (target : DataType) : Expr :=
  .cast (.columnRef ("$" ++ toString n) n) target

/-- A field of a scalar without a schema, cast to a type. -/
def Expr.fieldCast (id : SideInputId) (aliasName : String) (n : Nat) (target : DataType) : Expr :=
  .cast (.placeholder ⟨id, aliasName, n, .binary, false⟩) target

theorem RelationScope.analyzeExpr_columnCast (scope : RelationScope) (n : Nat)
    (target : DataType) :
    scope.analyzeExpr .unknown (.cast (.position n) target) = .ok (.columnCast n target, target) :=
  rfl

theorem ScalarScope.bindExpr_fieldCast {σ : Type} {scope : ScalarScope σ} {aliasName : String}
    {id : SideInputId} {st st' : σ} (hschema : scope.schema aliasName = .ok none)
    (hid : scope.sideInput aliasName st = .ok (id, st')) (n : Nat) (target : DataType) :
    scope.bindExpr (.cast (.scalarRef aliasName (.position n)) target) st =
      .ok ((.fieldCast id aliasName n target, [id]), st') := by
  have hplaceholder : scope.placeholder aliasName (.position n) st =
      .ok (⟨id, aliasName, n, .binary, false⟩, st') := by
    rw [placeholder, stateBind_lift_of_ok hschema]
    exact stateBind_eq_ok.mpr ⟨_, _, rfl, stateBind_eq_ok.mpr ⟨_, _, hid, rfl⟩⟩
  have hbound : scope.bindExpr (.scalarRef aliasName (.position n)) st =
      .ok ((.placeholder ⟨id, aliasName, n, .binary, false⟩, [id]), st') :=
    stateBind_eq_ok.mpr ⟨_, _, hplaceholder, rfl⟩
  exact stateBind_eq_ok.mpr ⟨_, _, hbound, rfl⟩

theorem eval_cast_column (row : Row s) (n : Nat) :
    (Compiled.cast (compileColumn s n).2 target).eval [row] =
      Column.cast [(row.cellAt n).2] target := by
  rw [Row.cellAt, compileColumn]
  by_cases h : n < s.length
  · rw [dif_pos h, row.getElem?_entries ⟨n, h⟩]
    rfl
  · rw [dif_neg h, List.getElem?_eq_none (by rw [row.length_entries]; omega)]
    rfl

/-- A cast column, compiled for output. -/
abbrev OutputColumn.ofCast (s : Schema) (n : Nat) (target : DataType) (name : String) :
    OutputColumn s :=
  ⟨⟨target, .cast (compileColumn s n).2 target⟩, name⟩

theorem compileOutput_columnCast (b : ScalarBindings) (n : Nat) (name : String) :
    [⟨.columnCast n target, name⟩].mapM (compileOutput s b) =
      .ok [OutputColumn.ofCast s n target name] := rfl

theorem exists_of_cast {t : DataType} {entry : t.Entry} {c : Column target}
    (h : Column.cast [entry] target = .ok c) : ∃ v, c = [v] :=
  List.length_eq_one_iff.mp ((Column.rowwise_cast target).length h)

theorem alike_projectSlice (row : Row s) (n : Nat) (target : DataType) (name : String) :
    Alike (fun (rows : Batch [⟨name, target, true⟩]) c => ∃ v, c = [v] ∧ rows = [.cons v .nil])
      (projectSlice [OutputColumn.ofCast s n target name] [row])
      (Column.cast [(row.cellAt n).2] target) := by
  rw [projectSlice, projectColumns, ← eval_cast_column]
  cases hcast : (Compiled.cast (compileColumn s n).2 target).eval [row] with
  | error e => trivial
  | ok c =>
      rw [eval_cast_column] at hcast
      obtain ⟨v, rfl⟩ := exists_of_cast hcast
      have htyped : Column.as? [v] (OutputColumn.ofCast s n target name).field.type = some [v] :=
        dif_pos rfl
      have hcheck : Batch.check (s := [⟨name, target, true⟩]) .projection [.cons v .nil] =
          .ok [.cons v .nil] :=
        Batch.check_of_nullable (by simp) (List.forall_mem_singleton.mpr rfl) _
      dsimp only [Bind.bind, Except.bind]
      rw [htyped]
      show Alike _ (Batch.check (s := [⟨name, target, true⟩]) .projection [.cons v .nil]) _
      rw [hcheck]
      exact ⟨v, rfl, rfl⟩

theorem Operator.execute_project {input : Operator} {ctx : RunContext} {b : ScalarBindings}
    {w : EngineState} {r : Relation} (hr : (input.execute ctx b w).1 = .ok r)
    {columns : List (Named Expr)} {compiled : List (OutputColumn r.schema)}
    (hcompiled : columns.mapM (compileOutput r.schema b) = .ok compiled) :
    ((project columns input).execute ctx b w).1 =
      (runParts ctx b (projectSlice compiled) r.batches (input.execute ctx b w).2).1.map
        fun batches => ⟨_, batches⟩ := by
  rw [execute, run_bind, hr]
  dsimp only
  rw [hcompiled]
  show ((runParts ctx b (projectSlice compiled) r.batches >>= _) _).1 = _
  rw [run_bind]
  cases (runParts ctx b (projectSlice compiled) r.batches (input.execute ctx b w).2).1 <;> rfl

theorem alike_project {input : Operator} {ctx : RunContext} {b : ScalarBindings} {w : EngineState}
    {r : Relation} (hr : (input.execute ctx b w).1 = .ok r) {row : Row s}
    (hcontents : r.contents = ⟨s, [row]⟩) (n : Nat) (target : DataType) (name : String) :
    Alike (fun (out : Relation) c => ∃ v, c = [v] ∧
        out.contents = ⟨[⟨name, target, true⟩], [.cons v .nil]⟩)
      ((Operator.project [⟨.columnCast n target, name⟩] input).execute ctx b w).1
      (Column.cast [(row.cellAt n).2] target) := by
  have hsame : Relation.contents ⟨s, [[row]]⟩ = r.contents := hcontents.symm
  obtain ⟨batches, rfl, hrows⟩ := Relation.exists_of_contents hsame
  have hflatten : batches.flatten = [row] := hrows.symm
  have hparts := (rowwise_projectSlice
    [OutputColumn.ofCast s n target name]).splits.toOption_runParts ctx b batches
      (input.execute ctx b w).2
  rw [hflatten, if_neg (List.cons_ne_nil row [])] at hparts
  rw [Operator.execute_project hr (compileOutput_columnCast b n name)]
  have hslice := alike_projectSlice row n target name
  cases hrow : projectSlice [OutputColumn.ofCast s n target name] [row] with
  | error e =>
      rw [hrow] at hparts hslice
      obtain ⟨f, hf⟩ := hslice.error_left
      rw [hf]
      cases hrun : (runParts ctx b (projectSlice [OutputColumn.ofCast s n target name]) batches
        (input.execute ctx b w).2).1 with
      | error e => trivial
      | ok out =>
          rw [hrun] at hparts
          cases hparts
  | ok rows =>
      rw [hrow] at hparts hslice
      obtain ⟨c, hc, v, rfl, rfl⟩ := hslice.ok_left
      obtain ⟨out, hout, hrows⟩ := Option.map_eq_some_iff.mp hparts
      rw [toOption_eq_some.mp hout, hc]
      exact ⟨v, rfl, congrArg (TypedBatch.mk _) hrows⟩

/-- A field of a bound row, cast for the rows of a reader. -/
theorem alike_fieldCast {b : ScalarBindings} {id : SideInputId} {row : Row s}
    (hb : b.lookup id = some (.row s row)) (htarget : target.isCastTarget = true)
    (aliasName : String) (n : Nat) (t : Schema) (rows : Batch t) :
    Alike (fun (values : (t : DataType) × Column t) c =>
        ∃ v, c = [v] ∧ values = ⟨target, rows.map fun _ => v⟩)
      ((Expr.fieldCast id aliasName n target).values t b rows)
      (Column.cast [(row.cellAt n).2] .binary >>= fun c => Column.cast c target) := by
  obtain ⟨f, hf⟩ := exists_cast_binary htarget
  have hvalue : (Placeholder.value ⟨id, aliasName, n, .binary, false⟩ (.row s row)) =
      (Column.cast [(row.cellAt n).2] .binary).map fun c => c.head?.join := by
    rw [Placeholder.value, Row.cellAt]
    cases row.entries[n]? with
    | none =>
        show Except.ok none = Except.map _ (Column.cast (a := .binary) [none] .binary)
        rw [Column.cast_self]
        rfl
    | some cell => rfl
  rw [Expr.values, Expr.fieldCast, Expr.compile, Expr.compile, hb]
  dsimp only
  rw [hvalue]
  cases hbytes : Column.cast [(row.cellAt n).2] .binary with
  | error e => trivial
  | ok c =>
      obtain ⟨e, rfl⟩ := exists_of_cast hbytes
      have hback : Column.cast (a := .binary) [e] target = .ok [f e] := hf .short [e]
      have hvalues : Column.cast (a := .binary) (rows.map fun _ => e) target =
          .ok (rows.map fun _ => f e) := (hf .short _).trans (congrArg _ (List.map_map ..))
      show Alike _ (Column.cast (a := .binary) (rows.map fun _ => e) target >>= fun c =>
        .ok (⟨target, c⟩ : (t : DataType) × Column t)) (Column.cast (a := .binary) [e] target)
      rw [hvalues, hback]
      exact ⟨f e, rfl, rfl⟩

end Casts

namespace PhysicalUnit

/-- The slots as a reader of a side input finds them: in the end, or when a later side input
begins. -/
def SlotsAfter (u : PhysicalUnit) (settings : RunSettings) (w : EngineState) (id : SideInputId)
    (slots : List Slot) : Prop :=
  slots = u.finalSlots settings w ∨ ∃ k, id < k ∧ slots = (u.begun settings w k).1

variable {u : PhysicalUnit} {settings : RunSettings} {w : EngineState}

/-- The cast column of a side input's relation, as a projection gives it. -/
def projected (u : PhysicalUnit) (settings : RunSettings) (w : EngineState) (p : SideInputPlan)
    (n : Nat) (target : DataType) (name : String) : Outcome Relation :=
  ((Operator.project [⟨.columnCast n target, name⟩] p.plan).execute
    (settings.context (u.begun settings w p.id).1) [] (u.begun settings w p.id).2).1

/-- The bindings are those of a reader of the side input, at the broadcast that binds it or at one
below. -/
def BindsFor (u : PhysicalUnit) (settings : RunSettings) (w : EngineState) (id : SideInputId)
    (b : ScalarBindings) : Prop :=
  ∃ slots, u.SlotsAfter settings w id slots ∧ ∃ ids before,
    (id ∈ ids ∨ (settings.context slots).Offers before id) ∧
      (settings.context slots).bindSideInputs ids before = .ok b

/-- For every row of a reader, the cast field is the one value of the cast column; or both fail. -/
def FieldAsColumn (u : PhysicalUnit) (settings : RunSettings) (w : EngineState) (p : SideInputPlan)
    (n : Nat) (target : DataType) (b : ScalarBindings) {t : Schema} (rows : Batch t)
    (name : String) : Prop :=
  Alike (fun values (out : Relation) => ∃ v, values = ⟨target, rows.map fun _ => v⟩ ∧
      out.contents = ⟨[⟨name, target, true⟩], [.cons v .nil]⟩)
    ((Expr.fieldCast p.id p.aliasName n target).values t b rows)
    (u.projected settings w p n target name)

/-- A field of a scalar without a schema, and the column of its relation, cast to one type. Binding
and analysis leave the field to be cast where a reader reads it, and the column where the relation
is projected. The two agree exactly if the cell comes to the same by way of raw bytes. -/
structure ComparesCasts (u : PhysicalUnit) (settings : RunSettings) (w : EngineState)
    (p : SideInputPlan) {s : Schema} (row : Row s) (n : Nat) (target : DataType) : Prop where
  column : ∀ scope : RelationScope,
    scope.analyzeExpr .unknown (.cast (.position n) target) = .ok (.columnCast n target, target)
  field : ∀ {σ : Type} (scope : ScalarScope σ) (st st' : σ),
    scope.schema p.aliasName = .ok none → scope.sideInput p.aliasName st = .ok (p.id, st') →
      scope.bindExpr (.cast (.scalarRef p.aliasName (.position n)) target) st =
        .ok ((.fieldCast p.id p.aliasName n target, [p.id]), st')
  agrees : CastsAlike (row.cellAt n) target → ∀ b, u.BindsFor settings w p.id b →
    ∀ (t : Schema) (rows : Batch t) name, u.FieldAsColumn settings w p n target b rows name
  differs : ¬ CastsAlike (row.cellAt n) target → ∀ b, u.BindsFor settings w p.id b →
    ∀ (t : Schema) (rows : Batch t) name, rows ≠ [] →
      ¬ u.FieldAsColumn settings w p n target b rows name
  types : ∀ t : DataType, t.isReadable = true →
    ((∀ entry, CastsAlike ⟨t, entry⟩ target) ↔ t.castsByBytes target = true)

theorem Ordered.read_row (h : u.Ordered) {p : SideInputPlan} (hp : p ∈ u.sideInputs) {r : Relation}
    (hrows : u.sideInputRows settings w p = .ok r) {s : Schema} {row : Row s}
    (hcontents : r.contents = ⟨s, [row]⟩)
    (hbinds : freezeRow p.aliasName settings.rowLimit row = .ok row) {slots : List Slot}
    (hslots : u.SlotsAfter settings w p.id slots) :
    (settings.context slots).read p.id = .ok (.row s row) := by
  have hfinal : (settings.context (u.finalSlots settings w)).read p.id = .ok (.row s row) := by
    apply toOption_eq_some.mp
    rw [RunContext.read, RunContext.slot?, RunSettings.context, h.find?_finalSlots hp]
    dsimp only
    rw [toOption_resolve_materialize]
    rw [sideInputRows] at hrows
    rw [hrows]
    exact (offered_single hbinds hcontents).2
  rcases hslots with rfl | ⟨k, hk, rfl⟩
  · exact hfinal
  · rw [h.read_begun hk, hfinal]

theorem BindsFor.lookup {id : SideInputId} {b : ScalarBindings} {x : ScalarBinding}
    (hb : u.BindsFor settings w id b)
    (hread : ∀ slots, u.SlotsAfter settings w id slots →
      (settings.context slots).read id = .ok x) : b.lookup id = some x := by
  obtain ⟨slots, hslots, ids, before, hid, hb⟩ := hb
  obtain ⟨y, hy, hlookup⟩ := RunContext.offers_of_bindSideInputs hb hid
  rw [hread slots hslots] at hy
  cases hy
  exact hlookup

theorem Ordered.comparesCasts (h : u.Ordered) {p : SideInputPlan} (hp : p ∈ u.sideInputs)
    {r : Relation} (hrows : u.sideInputRows settings w p = .ok r) {s : Schema} {row : Row s}
    (hcontents : r.contents = ⟨s, [row]⟩)
    (hbinds : freezeRow p.aliasName settings.rowLimit row = .ok row) (n : Nat)
    {target : DataType} (htarget : target.isCastTarget = true) :
    u.ComparesCasts settings w p row n target := by
  -- The field stands for the cast by way of raw bytes, and the column for the cast of the cell.
  have hfield : ∀ b, u.BindsFor settings w p.id b → ∀ (t : Schema) (rows : Batch t), _ :=
    fun b hb => alike_fieldCast
      (hb.lookup fun slots hslots => h.read_row hp hrows hcontents hbinds hslots) htarget
      p.aliasName n
  have hcolumn := alike_project hrows hcontents n target
  constructor
  · exact fun scope => scope.analyzeExpr_columnCast n target
  · exact fun _ _ _ hschema hid => ScalarScope.bindExpr_fieldCast hschema hid n target
  · intro hsame b hb t rows name
    have hvalue : Alike (fun values c => ∃ v, c = [v] ∧ values = ⟨target, rows.map fun _ => v⟩)
        ((Expr.fieldCast p.id p.aliasName n target).values t b rows)
        (Column.cast [(row.cellAt n).2] target) := by
      refine (hfield b hb t rows).trans hsame.symm ?_
      rintro values c _ hc rfl
      exact hc
    refine hvalue.trans (hcolumn name).flip ?_
    rintro values c out ⟨v, rfl, rfl⟩ ⟨v', hv, hout⟩
    cases hv
    exact ⟨v, rfl, hout⟩
  · intro hdiffers b hb t rows name hne halike
    have hvalue : Alike (fun c values => ∃ v, c = [v] ∧ values = ⟨target, rows.map fun _ => v⟩)
        (Column.cast [(row.cellAt n).2] target)
        ((Expr.fieldCast p.id p.aliasName n target).values t b rows) := by
      refine (hcolumn name).flip.trans halike.flip ?_
      rintro c out values ⟨v, rfl, hout⟩ ⟨v', rfl, hout'⟩
      have hrow : [Row.cons v .nil] = [Row.cons v' .nil] :=
        eq_of_heq (TypedBatch.mk.inj (hout.symm.trans hout')).2
      cases hrow
      exact ⟨v, rfl, rfl⟩
    refine hdiffers (hvalue.trans (hfield b hb t rows) ?_)
    rintro c values c' ⟨v, rfl, rfl⟩ ⟨v', rfl, hvalues⟩
    obtain ⟨first, rest, rfl⟩ := List.exists_cons_of_ne_nil hne
    exact congrArg ([·]) (List.head_eq_of_cons_eq (eq_of_heq (Sigma.mk.inj hvalues).2))
  · exact fun _ ht => castsAlike_iff ht htarget

end PhysicalUnit

/-- In every accepted unit, a field of a scalar of one row that binds is cast as the column of its
relation, if the cell comes to the same by way of raw bytes, and only then. -/
theorem Script.compile_comparesCasts {script : Script} {statements : List Statement}
    {u : CompiledUnit} (h : script.compile statements = .ok u) {batchSize : Nat}
    {phys : PhysicalUnit} (hphys : u.lower batchSize = .ok phys) {settings : RunSettings}
    {w : EngineState} {p : SideInputPlan} (hp : p ∈ phys.sideInputs) {r : Relation}
    (hrows : phys.sideInputRows settings w p = .ok r) {s : Schema} {row : Row s}
    (hcontents : r.contents = ⟨s, [row]⟩)
    (hbinds : freezeRow p.aliasName settings.rowLimit row = .ok row) (n : Nat)
    {target : DataType} (htarget : target.isCastTarget = true) :
    phys.ComparesCasts settings w p row n target :=
  (Script.ordered_of_lower h hphys).comparesCasts hp hrows hcontents hbinds n htarget

/-- The one row of a table of one cell of text. -/
def textRow : Row (positionalSchema 1) := .cons (some ⟨#[55]⟩) .nil

theorem nestedScalars_compareCasts :
    ∃ u, nestedScalars.compile [⟨"top", .collect⟩] = .ok u ∧ u.lower 8192 = .ok nestedUnit ∧
      pairInput ∈ nestedUnit.sideInputs ∧
      nestedUnit.sideInputRows ⟨"q", 8192, 1, 64⟩ oneCell pairInput =
        .ok ⟨positionalSchema 1, [[textRow]]⟩ ∧
      freezeRow pairInput.aliasName 64 textRow = .ok textRow ∧
      nestedUnit.ComparesCasts ⟨"q", 8192, 1, 64⟩ oneCell pairInput textRow 0 .int64 := by
  obtain ⟨u, hcompile, hlower⟩ := nestedUnit_lowered
  have hp : pairInput ∈ nestedUnit.sideInputs := List.mem_cons_self
  have hrows : nestedUnit.sideInputRows ⟨"q", 8192, 1, 64⟩ oneCell pairInput =
      .ok ⟨positionalSchema 1, [[textRow]]⟩ := by
    cbv
  have hbinds : freezeRow pairInput.aliasName 64 textRow = .ok textRow := by
    cbv
  exact ⟨u, hcompile, hlower, hp, hrows, hbinds,
    Script.compile_comparesCasts hcompile hlower hp hrows rfl hbinds 0 rfl⟩

/-- The one row of a table of one integer. -/
def integerRow : Row [⟨"x", .int64, true⟩] := .cons (some ⟨5, by decide⟩) .nil

/-- A table of one integer. -/
def oneInteger : EngineState := ⟨[("t", ⟨[⟨"x", .int64, true⟩], [[integerRow]]⟩)], []⟩

/-- An integer that is read again as an integer: the column is the integer, and the field is
missing. -/
theorem nestedScalars_casts_differ :
    ∃ u b, nestedScalars.compile [⟨"top", .collect⟩] = .ok u ∧ u.lower 8192 = .ok nestedUnit ∧
      (RunSettings.context ⟨"q", 8192, 1, 64⟩
        (nestedUnit.finalSlots ⟨"q", 8192, 1, 64⟩ oneInteger)).bindSideInputs [0] [] = .ok b ∧
      (∀ (t : Schema) (rows : Batch t), (Expr.fieldCast 0 "pair" 0 .int64).values t b rows =
        .ok ⟨.int64, rows.map fun _ => none⟩) ∧
      ∃ out, nestedUnit.projected ⟨"q", 8192, 1, 64⟩ oneInteger pairInput 0 .int64 "v" = .ok out ∧
        out.contents = ⟨[⟨"v", .int64, true⟩], [.cons (some ⟨5, by decide⟩) .nil]⟩ := by
  obtain ⟨u, hcompile, hlower⟩ := nestedUnit_lowered
  have hrows : nestedUnit.sideInputRows ⟨"q", 8192, 1, 64⟩ oneInteger pairInput =
      .ok ⟨[⟨"x", .int64, true⟩], [[integerRow]]⟩ := by
    cbv
  have hread := (Script.ordered_of_lower hcompile hlower).read_row List.mem_cons_self hrows rfl
    rfl (Or.inl rfl)
  obtain ⟨b, hb⟩ := RunContext.exists_bindSideInputs
    (List.forall_mem_singleton.mpr ⟨_, hread⟩) []
  obtain ⟨x, hx, hlookup⟩ := RunContext.offers_of_bindSideInputs hb (Or.inl List.mem_cons_self)
  rw [hread] at hx
  cases hx
  refine ⟨u, b, hcompile, hlower, hb, fun t rows => ?_, ?_⟩
  · have htarget : DataType.int64.isCastTarget = true := rfl
    have hfield := alike_fieldCast hlookup htarget "pair" 0 t rows
    have hbytes : (Column.cast [(integerRow.cellAt 0).2] .binary >>= fun c =>
        Column.cast c .int64) = .ok [none] := rfl
    rw [hbytes] at hfield
    obtain ⟨values, hvalues⟩ := hfield.exists_ok_iff.mpr ⟨_, rfl⟩
    rw [hvalues] at hfield
    obtain ⟨v, hv, rfl⟩ := hfield
    cases hv
    exact hvalues
  · have hcolumn := alike_project hrows rfl 0 .int64 "v"
    have hcast : Column.cast [(integerRow.cellAt 0).2] .int64 = .ok [(integerRow.cellAt 0).2] :=
      Column.cast_self _
    rw [hcast] at hcolumn
    obtain ⟨out, hout⟩ := hcolumn.exists_ok_iff.mpr ⟨_, rfl⟩
    rw [hout] at hcolumn
    obtain ⟨v, hv, hcontents⟩ := hcolumn
    cases hv
    exact ⟨out, hout, hcontents⟩

end RelScript
