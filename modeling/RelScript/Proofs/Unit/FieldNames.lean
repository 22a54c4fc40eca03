import RelScript.Proofs.Analysis.Columns
import RelScript.Proofs.Script.ScalarAsking
import RelScript.Proofs.Unit.Numbering
import RelScript.Proofs.Unit.Scoping

/-!
The name of a field, as a scalar and as a column. A scalar reference takes the first field that has
the name, a column reference the only one; so the two find the same field as long as the relation
has no two fields of the name, and where it has two, only the column reference is refused.
-/

namespace RelScript

namespace Resolver

theorem candidates_of_unqualified {name : String} (h : Unqualified name) (a : String)
    (fields : Schema) :
    candidates [⟨a, fields⟩] name =
      (fields.zipIdx.filter fun f => f.1.name = name).map fun f => (f.2, f.1.type) := by
  have hrefers : ∀ f : Field, refersTo name (a, f) = decide (f.name = name) := by
    intro f
    simp [refersTo, columnName_of_unqualified h]
  rw [candidates_eq, columns, List.flatMap_singleton, List.zipIdx_map, List.filter_map,
    List.map_map]
  simp [Function.comp_def, hrefers]

theorem length_candidates {name : String} (h : Unqualified name) (a : String) (fields : Schema) :
    (candidates [⟨a, fields⟩] name).length = (fields.map (·.name)).count name := by
  have hfields : ∀ (fields : Schema) (k : Nat),
      ((fields.zipIdx k).filter fun f => f.1.name = name).length =
        (fields.map (·.name)).count name := by
    intro fields
    induction fields with
    | nil => exact fun _ => rfl
    | cons f fields ih =>
        intro k
        rw [List.zipIdx_cons, List.map_cons, List.count_cons, List.filter_cons, ← ih (k + 1)]
        by_cases hf : f.name = name <;> simp [hf]
  rw [candidates_of_unqualified h, List.length_map, hfields]

end Resolver

/-- A scalar reference takes the first of the columns that the name refers to. -/
theorem FieldSelector.resolve_name_eq_ok_iff {n : String} (h : Unqualified n) {a : String}
    {fields : Schema} {found : Nat × DataType} :
    (FieldSelector.name n).resolve a (some fields) = .ok found ↔
      (Resolver.candidates [⟨a, fields⟩] n).head? = some found := by
  rw [Resolver.candidates_of_unqualified h, List.head?_map, List.head?_filter, resolve,
    Schema.indexOf?, List.findIdx?_eq_fst_find?_zipIdx]
  cases hfound : fields.zipIdx.find? fun f => decide (f.1.name = n) with
  | none => simp
  | some f =>
      have hf := List.mem_zipIdx_iff_getElem?.mp (List.mem_of_find?_eq_some hfound)
      simp [RelationSchema.fieldType?, hf, eq_comm]

namespace Compilation

/-- In the definition of `consumer`, the scalar reference to the field `n` of the alias is bound to
the field at the index, with that type. -/
def ScalarNames (c : Compilation) (consumer : String) (r : Registry) (a n : String) (index : Nat)
    (type : DataType) : Prop :=
  ∃ p ids r', (scalarScope c.compiled consumer).bindExpr (.scalarRef a (.name n)) r =
    .ok ((.placeholder p, ids), r') ∧ p.index = index ∧ p.type = type

/-- Over the alias as a relation, the column reference `n` becomes the column at the index, with
that type. -/
def ColumnNames (script : Script) (c : Compilation) (a n : String) (index : Nat)
    (type : DataType) : Prop :=
  ∃ p columns, (relationScope script c.compiled).analyzePlan (.relation a) = .ok (p, columns) ∧
    (relationScope script c.compiled).analyzeExpr columns (.column n) =
      .ok (.columnRef n index, type)

variable {script : Script} {c : Compilation} {a n : String} {x : CompiledAlias} {fields : Schema}
  {index : Nat} {type : DataType}

theorem scalarNames_iff (hx : c.get? a = some x) {consumer : String} {r : Registry} :
    c.ScalarNames consumer r a n index type ↔
      (FieldSelector.name n).resolve a x.schema = .ok (index, type) := by
  constructor
  · rintro ⟨p, ids, r', h, rfl, rfl⟩
    rw [ScalarScope.bindExpr] at h
    obtain ⟨q, t, hq, h⟩ := stateBind_eq_ok.mp h
    cases h
    obtain ⟨schema, i, u, id, hschema, hfield, -, rfl⟩ := ScalarScope.placeholder_eq_ok.mp hq
    rw [scalarScope_schema, find_eq_ok.mpr hx] at hschema
    cases hschema
    exact hfield
  · intro h
    rw [ScalarNames, ScalarScope.bindExpr]
    exact ⟨_, _, _, stateBind_eq_ok.mpr ⟨_, _, placeholder_run consumer hx h r, rfl⟩, rfl, rfl⟩

theorem columnNames_iff (hx : c.get? a = some x) :
    ColumnNames script c a n index type ↔
      (Resolver.ofRelation a x.schema).resolve n = .ok (index, type) := by
  have hrelation : (relationScope script c.compiled).analyzePlan (.relation a) =
      .ok (x.plan, .ofRelation a x.schema) := by
    have hfind := find_eq_ok.mpr hx
    rw [RelationScope.analyzePlan]
    exact bind_eq_ok.mpr ⟨x.plan, congrArg (Except.map _) hfind,
      bind_eq_ok.mpr ⟨x.schema, congrArg (Except.map _) hfind, rfl⟩⟩
  rw [ColumnNames, hrelation]
  constructor
  · rintro ⟨p, columns, hcolumns, h⟩
    cases hcolumns
    rw [RelationScope.analyzeExpr] at h
    split at h
    · rename_i i t hresolve
      cases h
      exact hresolve
    · split at h <;> cases h
  · intro h
    refine ⟨_, _, rfl, ?_⟩
    rw [RelationScope.analyzeExpr, h]

/-- A field that a name means as a column it means as a scalar, too. The converse holds for all
fields if and only if the relation has no two fields of the name. -/
theorem names_agree_iff (script : Script) (hx : c.get? a = some x)
    (hfields : x.schema = some fields) (hn : Unqualified n) (consumer : String) (r : Registry) :
    (∀ i t, ColumnNames script c a n i t → c.ScalarNames consumer r a n i t) ∧
      ((∀ i t, c.ScalarNames consumer r a n i t ↔ ColumnNames script c a n i t) ↔
        (fields.map (·.name)).count n ≤ 1) := by
  simp only [scalarNames_iff hx, columnNames_iff hx, hfields, Resolver.ofRelation,
    FieldSelector.resolve_name_eq_ok_iff hn, Resolver.resolve_eq_ok_iff,
    ← Resolver.length_candidates hn a]
  cases Resolver.candidates [⟨a, fields⟩] n with
  | nil => simp
  | cons found rest =>
      cases rest with
      | nil => simp
      | cons next rest => simpa using ⟨found.1, found.2, rfl⟩

theorem names_agree_amount :
    (∀ i t, ColumnNames bestOrders ordersRead "best" "amount" i t →
        ordersRead.ScalarNames "top" [] "best" "amount" i t) ∧
      ∀ i t, ordersRead.ScalarNames "top" [] "best" "amount" i t ↔
        ColumnNames bestOrders ordersRead "best" "amount" i t := by
  have hname : Unqualified "amount" := by
    unfold Unqualified
    decide
  obtain ⟨hcolumn, hagree⟩ :=
    names_agree_iff (c := ordersRead) (a := "best") bestOrders rfl rfl hname "top" []
  exact ⟨hcolumn, hagree.mpr (by decide)⟩

end Compilation

/-- A relation joined with itself, whose field one alias reads as a scalar and one as a column. -/
def selfJoin : Script :=
  ⟨[("rows", .load "t" (some [⟨"x", .int64, true⟩])),
    ("pair", .join (.relation "rows") (.relation "rows") [(.position 0, .position 0)]),
    ("scalar", .project [⟨.scalarRef "pair" (.name "x"), "x"⟩] (.relation "rows")),
    ("column", .project [⟨.column "x", "x"⟩] (.relation "pair"))]⟩

namespace Compilation

/-- The join compiled. -/
def pairRead : Compilation :=
  ⟨[], [("pair", ⟨.join (.load "t" (some [⟨"x", .int64, true⟩]))
      (.load "t" (some [⟨"x", .int64, true⟩])) [(.columnRef "x" 0, .columnRef "x" 0)],
      some [⟨"x", .int64, true⟩, ⟨"x", .int64, true⟩]⟩),
    ("rows", ⟨.load "t" (some [⟨"x", .int64, true⟩]), some [⟨"x", .int64, true⟩]⟩)]⟩

end Compilation

/-- The name of both fields is refused as a column and accepted as a scalar, for the first field. -/
theorem selfJoin_names_differ :
    (Compilation.compileStatements selfJoin .empty [⟨"pair", .collect⟩]).toOption.map (·.2) =
        some Compilation.pairRead ∧
      Compilation.pairRead.ScalarNames "scalar" [] "pair" "x" 0 .int64 ∧
      (¬ ∃ i t, Compilation.ColumnNames selfJoin .pairRead "pair" "x" i t) ∧
      (∃ u, selfJoin.compile [⟨"scalar", .collect⟩] = .ok u) ∧
        selfJoin.compile [⟨"column", .collect⟩] = .error (.planning (.ambiguousColumn "x")) := by
  have hscalar : (selfJoin.compile [⟨"scalar", .collect⟩]).toOption.isSome = true := by cbv
  refine ⟨by cbv, ?_, ?_, ?_, by cbv⟩
  · exact (Compilation.scalarNames_iff rfl).mpr (by cbv)
  · rintro ⟨i, t, h⟩
    have hresolve : (Resolver.ofRelation "pair" _).resolve "x" = .ok (i, t) :=
      (Compilation.columnNames_iff (c := .pairRead) (a := "pair") rfl).mp h
    have hambiguous : (Resolver.ofRelation "pair"
        (some [⟨"x", .int64, true⟩, ⟨"x", .int64, true⟩])).resolve "x" =
          .error (.planning (.ambiguousColumn "x")) := by
      cbv
    cases hambiguous.symm.trans hresolve
  · obtain ⟨u, hu⟩ := Option.isSome_iff_exists.mp hscalar
    exact ⟨u, toOption_eq_some.mp hu⟩

end RelScript
