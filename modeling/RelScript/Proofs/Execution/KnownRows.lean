import RelScript.Proofs.Execution.GroupColumns
import RelScript.Proofs.Execution.Recut
import RelScript.Proofs.Execution.TypedValues

/-!
What the schema of a plan says of its rows, whatever the catalog holds. A plan over undeclared
sources may give columns of other types than analysis found, but only where it found raw bytes; and
no row of a known schema misses a value that it may not miss.
-/

namespace RelScript

/-- Actual columns that a known schema describes: one for each of its fields, and of the type of the
field unless that is raw bytes. -/
def Schema.Describes (known actual : Schema) : Prop :=
  List.Forall₂ (fun f g => f.type.isUntyped = false → g.type = f.type) known actual

theorem Schema.Describes.refl (s : Schema) : s.Describes s :=
  List.forall₂_same.mpr fun _ _ _ => rfl

/-- If the schema is known, it describes the columns, and every row is complete. -/
def Relation.Meets (schema : RelationSchema) (r : Relation) : Prop :=
  ∀ s, schema = some s → s.Describes r.schema ∧ ∀ row ∈ r.rows, row.isComplete = true

/-- From every state, a value of the step has the property. -/
def Run.Yields {α : Type} (P : α → Prop) (step : Run α) : Prop :=
  ∀ w a, (step w).1 = .ok a → P a

namespace Run.Yields

variable {α β : Type} {P : α → Prop} {Q : β → Prop}

theorem pure {a : α} (h : P a) : Run.Yields P (Pure.pure a : Run α) := by
  rintro w _ ⟨⟩
  exact h

theorem any (step : Run α) : Run.Yields (fun _ => True) step := fun _ _ _ => trivial

theorem ofOutcome {x : Outcome α} (h : ∀ a, x = .ok a → P a) : Run.Yields P (ofOutcome x) := by
  intro w a ha
  rw [run_ofOutcome] at ha
  exact h a ha

theorem bind {step : Run α} {next : α → Run β} (h : Run.Yields P step)
    (hnext : ∀ a, P a → Run.Yields Q (next a)) : Run.Yields Q (step >>= next) := by
  intro w b hb
  rw [run_bind] at hb
  cases hstep : (step w).1 with
  | ok a =>
      rw [hstep] at hb
      exact hnext a (h w a hstep) _ b hb
  | error e =>
      rw [hstep] at hb
      cases hb

theorem finish {ctx : RunContext} {o : Operator} {R : Relation → Prop} {r : Relation} (h : R r) :
    Run.Yields R (Operator.execute.finish ctx o r) :=
  (any _).bind fun _ _ => pure h

theorem runParts {step : List α → Outcome (List β)} (hstep : Splits step) (ctx : RunContext)
    (b : ScalarBindings) (batches : List (List α)) :
    Run.Yields (fun outputs => outputs.flatten = [] ∨ step batches.flatten = .ok outputs.flatten)
      (runParts ctx b step batches) := by
  intro w outputs houtputs
  have hall := hstep.toOption_runParts ctx b batches w
  rw [houtputs] at hall
  split at hall
  · exact Or.inl (Option.some.inj hall)
  · refine Or.inr ?_
    cases hrows : step batches.flatten with
    | error e =>
        rw [hrows] at hall
        cases hall
    | ok out =>
        rw [hrows] at hall
        exact congrArg Except.ok (Option.some.inj hall).symm

end Run.Yields

section Rows

variable {s : Schema}

theorem Row.isComplete_of_nullable (h : ∀ f ∈ s, f.nullable = true) (r : Row s) :
    r.isComplete = true := by
  refine List.all_eq_true.mpr fun i _ => ?_
  rw [h _ (List.get_mem s i)]
  rfl

theorem Batch.check_of_nullable {site : BatchSite} (hs : s ≠ []) (h : ∀ f ∈ s, f.nullable = true)
    (b : Batch s) : b.check site = .ok b := by
  have hcomplete : b.any (!·.isComplete) = false := by
    rw [List.any_eq_false]
    intro r _
    rw [r.isComplete_of_nullable h]
    exact Bool.false_ne_true
  have hcolumns : s.isEmpty = false := List.isEmpty_eq_false_iff.mpr hs
  apply toOption_eq_some.mp
  rw [Batch.toOption_check, hcolumns, hcomplete]
  rfl

theorem isComplete_of_check {site : BatchSite} {b b' : Batch s} (h : b.check site = .ok b') :
    ∀ r ∈ b', r.isComplete = true := by
  have hall := b.toOption_check site
  rw [h] at hall
  intro r hr
  split at hall
  · cases hall
  · split at hall
    · cases hall
    · rename_i hnone
      cases hall
      rw [Bool.not_eq_true, List.any_eq_false] at hnone
      simpa using hnone r hr

theorem subset_of_filterSlice {predicate : Expr} {b : ScalarBindings} {rows kept : Batch s}
    (h : filterSlice predicate b rows = .ok kept) : kept ⊆ rows := by
  obtain ⟨e, -, h⟩ := bind_eq_ok.mp h
  obtain ⟨mask, -, h⟩ := bind_eq_ok.mp h
  obtain ⟨column, -, h⟩ := bind_eq_ok.mp h
  cases h
  intro r hr
  obtain ⟨⟨r', holds⟩, hpair, rfl⟩ := List.mem_map.mp hr
  exact (List.of_mem_zip (List.mem_filter.mp hpair).1).1

end Rows

/-- A compiled expression of the type and declared with it, unless the type is raw bytes. -/
def AnyCompiled.Keeps {s : Schema} (t : DataType) (c : AnyCompiled s) : Prop :=
  t.isUntyped = false → c.1 = t ∧ c.2.declared = t

theorem keeps_compileColumn {known actual : Schema} (h : known.Describes actual) {i : Nat}
    {f : Field} (hf : known[i]? = some f) :
    AnyCompiled.Keeps f.type (compileColumn actual i) := by
  intro htyped
  obtain ⟨g, hg, htype⟩ := exists_getElem?_of_forall₂ h hf
  obtain ⟨hi, rfl⟩ := List.getElem?_eq_some_iff.mp hg
  rw [compileColumn, dif_pos hi]
  exact ⟨htype htyped, htype htyped⟩

theorem Expr.keeps_castTo {s : Schema} {b : ScalarBindings} {e : Expr} {a t : DataType}
    (h : ∀ c, e.compile s b = .ok c → AnyCompiled.Keeps a c) {c : AnyCompiled s}
    (hc : (TypedExpr.castTo (e, a) t).compile s b = .ok c) : AnyCompiled.Keeps t c := by
  unfold TypedExpr.castTo at hc
  split at hc
  · rename_i hat
    dsimp only at hat hc
    exact hat ▸ h c hc
  · obtain ⟨⟨u, e'⟩, -, hc⟩ := bind_eq_ok.mp hc
    cases hc
    exact fun _ => ⟨rfl, rfl⟩

namespace RelationScope

variable {input : Resolver} {actual : Schema} {b : ScalarBindings}

theorem Analyzes.keeps {e e' : Expr} {t : DataType} (h : Analyzes input e e' t)
    (hinput : ∀ s, input.schema = some s → s.Describes actual) {c : AnyCompiled actual}
    (hc : e'.compile actual b = .ok c) : AnyCompiled.Keeps t c := by
  induction h generalizing c with
  | column hi =>
      obtain ⟨s, f, hs, hf, rfl⟩ := Resolver.getElem?_of_resolve hi
      cases hc
      exact keeps_compileColumn (hinput s hs) hf
  | position hi | columnRef hi =>
      cases hc
      rcases Resolver.getElem?_of_position hi with ⟨-, rfl⟩ | ⟨s, f, hs, hf, rfl⟩
      · rintro ⟨⟩
      · exact keeps_compileColumn (hinput s hs) hf
  | literal v =>
      cases hc
      exact fun _ => ⟨rfl, rfl⟩
  | placeholder p =>
      rw [Expr.compile] at hc
      split at hc
      · obtain ⟨entry, -, hc⟩ := bind_eq_ok.mp hc
        cases hc
        exact fun _ => ⟨rfl, rfl⟩
      · cases hc
  | cast t _ _ | not _ _ =>
      obtain ⟨⟨u, x⟩, -, hc⟩ := bind_eq_ok.mp hc
      cases hc
      exact fun _ => ⟨rfl, rfl⟩
  | junction j _ _ _ _ | compare op _ _ _ _ _ _ _ | concat _ _ _ _ _ _ _ _ =>
      obtain ⟨⟨u, x⟩, -, hc⟩ := bind_eq_ok.mp hc
      obtain ⟨⟨v, y⟩, -, hc⟩ := bind_eq_ok.mp hc
      cases hc
      exact fun _ => ⟨rfl, rfl⟩
  | arith op _ _ _ _ ht ihl ihr =>
      -- Arithmetic keeps what its left operand declares; the casts make that the analyzed type.
      intro htyped
      obtain ⟨⟨u, x⟩, hl, hright⟩ := bind_eq_ok.mp hc
      obtain ⟨⟨v, y⟩, hr, hchecked⟩ := bind_eq_ok.mp hright
      obtain ⟨hltype, hldeclared⟩ := Expr.keeps_castTo (fun _ => ihl) hl htyped
      obtain ⟨hrtype, -⟩ := Expr.keeps_castTo (fun _ => ihr) hr htyped
      dsimp only at hltype hrtype hldeclared hchecked
      clear hc hright
      subst hltype hrtype
      split at hchecked
      · cases hchecked
        exact ⟨Compiled.resultType_of_isNumeric op (isNumeric_of_arithmeticType? ht), hldeclared⟩
      · cases hchecked

theorem AnalyzesAggregate.keeps {a a' : Aggregate} {t : DataType}
    (h : AnalyzesAggregate input a a' t)
    (hinput : ∀ s, input.schema = some s → s.Describes actual) {name : String}
    {m : Measure actual} (hm : compileMeasure actual b ⟨a', name⟩ = .ok m) :
    t.isUntyped = false → m.type = t := by
  intro htyped
  obtain ⟨c, hc, hm⟩ := bind_eq_ok.mp hm
  cases hm
  cases h with
  | count _ => rfl
  | average _ _ => rfl
  | @gather fn e e' u _ hcount havg he ht =>
      have hdeclared := (Expr.keeps_castTo (fun _ => he.keeps hinput) hc htyped).2
      cases fn with
      | count => exact absurd rfl hcount
      | avg => exact absurd rfl havg
      | sum | min | max => exact hdeclared

end RelationScope

section Steps

variable {input : Resolver} {b : ScalarBindings}

theorem meets_scanTable {size : Nat} {source : String} {schema : RelationSchema}
    {table r : Relation} (h : scanTable size source schema table = .ok r) : r.Meets schema := by
  rintro s rfl
  obtain ⟨batches, hbatches, h⟩ := bind_eq_ok.mp h
  cases h
  refine ⟨Schema.Describes.refl s, fun row hrow => ?_⟩
  obtain ⟨batch, hbatch, hrow⟩ := List.mem_flatten.mp hrow
  obtain ⟨rows, -, hcheck⟩ := forall_right_of_forall₂ (mapM_eq_ok.mp hbatches) batch hbatch
  obtain ⟨columns, -, hcheck⟩ := bind_eq_ok.mp hcheck
  exact isComplete_of_check hcheck row hrow

theorem meets_of_columns {known : Schema} {child : Relation}
    {compiled : List (OutputColumn child.schema)}
    (h : known.Describes (compiled.map OutputColumn.field))
    (batches : List (Batch (compiled.map OutputColumn.field))) :
    Relation.Meets (some known) ⟨_, batches⟩ := by
  rintro s ⟨⟩
  refine ⟨h, fun row _ => row.isComplete_of_nullable fun f hf => ?_⟩
  obtain ⟨c, -, rfl⟩ := List.mem_map.mp hf
  rfl

theorem describes_of_columns {actual : Schema}
    (hinput : ∀ s, input.schema = some s → s.Describes actual) {outputs : List (Named Expr)}
    {results : List (Named Expr × Field)}
    (h : List.Forall₂ (RelationScope.AnalyzesColumn input) outputs results)
    {compiled : List (OutputColumn actual)}
    (hcompiled : (results.map (·.1)).mapM (compileOutput actual b) = .ok compiled) :
    Schema.Describes (results.map (·.2)) (compiled.map OutputColumn.field) := by
  rw [List.mapM_map] at hcompiled
  rw [Schema.Describes, List.forall₂_map_left_iff, List.forall₂_map_right_iff]
  refine ((List.forall₂_and_left _ _).mpr ⟨fun r hr => ?_, mapM_eq_ok.mp hcompiled⟩).imp
    (R := fun r c => (∃ o, RelationScope.AnalyzesColumn input o r) ∧
      compileOutput actual b r.1 = .ok c) ?_
  · obtain ⟨o, -, ho⟩ := forall_right_of_forall₂ h r hr
    exact ⟨o, ho⟩
  · rintro r c ⟨⟨o, ho, -⟩, hc⟩ htyped
    obtain ⟨e, he, hc⟩ := bind_eq_ok.mp hc
    cases hc
    exact (ho.keeps hinput he htyped).2

theorem meets_groupsToRelation {known : Schema} {columns : List (Field × List Cell)}
    (hknown : known.Describes (columns.map (·.1))) (hnullable : ∀ c ∈ columns, c.1.nullable = true)
    {groups : List Group} {r : Relation} (h : groupsToRelation columns groups = .ok r) :
    r.Meets (some known) := by
  have hcomplete : ∀ row : Row (columns.map (·.1)), row.isComplete = true := fun row =>
    row.isComplete_of_nullable fun f hf => by
      obtain ⟨c, hc, rfl⟩ := List.mem_map.mp hf
      exact hnullable c hc
  rintro s ⟨⟩
  unfold groupsToRelation at h
  split at h
  · cases h
    exact ⟨hknown, fun row _ => hcomplete row⟩
  · obtain ⟨batch, -, h⟩ := bind_eq_ok.mp h
    obtain ⟨checked, -, h⟩ := bind_eq_ok.mp h
    cases h
    exact ⟨hknown, fun row _ => hcomplete row⟩

theorem meets_aggregateRelation {child : Relation}
    (hinput : ∀ s, input.schema = some s → s.Describes child.schema) {keys : List Expr}
    {aggregates : List (Named Aggregate)} {ks : List (Expr × Field)}
    {gs : List (Named Aggregate × Field)}
    (hkeys : List.Forall₂ (RelationScope.AnalyzesKey input) keys ks)
    (haggregates : List.Forall₂ (RelationScope.AnalyzesMeasure input) aggregates gs)
    {r : Relation}
    (h : aggregateRelation child (ks.map (·.1)) (gs.map (·.1)) b = .ok r) :
    r.Meets (some (ks.map (·.2) ++ gs.map (·.2))) := by
  obtain ⟨compiled, hcompiled, h⟩ := bind_eq_ok.mp h
  obtain ⟨measures, hmeasures, h⟩ := bind_eq_ok.mp h
  obtain ⟨groups, -, h⟩ := bind_eq_ok.mp h
  rw [List.mapM_map] at hcompiled hmeasures
  have hkeyFields : Schema.Describes (ks.map (·.2))
      (compiled.map fun k => ⟨k.1.groupName, k.2.2.declared, true⟩) := by
    rw [Schema.Describes, List.forall₂_map_left_iff, List.forall₂_map_right_iff]
    refine List.Forall₂.imp (fun k c hkc htyped => ?_)
      ((List.forall₂_and_left _ _).mpr ⟨forall_right_of_forall₂ hkeys, mapM_eq_ok.mp hcompiled⟩)
    obtain ⟨⟨key, -, hkey, -⟩, hc⟩ := hkc
    obtain ⟨e, he, hc⟩ := bind_eq_ok.mp hc
    cases hc
    exact (hkey.keeps hinput he htyped).2
  have hmeasureFields : Schema.Describes (gs.map (·.2)) (measures.map Measure.field) := by
    rw [Schema.Describes, List.forall₂_map_left_iff, List.forall₂_map_right_iff]
    refine List.Forall₂.imp (fun g m hgm htyped => ?_)
      ((List.forall₂_and_left _ _).mpr
        ⟨forall_right_of_forall₂ haggregates, mapM_eq_ok.mp hmeasures⟩)
    obtain ⟨⟨a, -, ha, -⟩, hm⟩ := hgm
    exact ha.keeps hinput hm htyped
  refine meets_groupsToRelation ?_ (nullable_columns compiled measures groups) h
  rw [List.map_append, fields_keyColumns, fields_measureColumns]
  exact List.rel_append hkeyFields hmeasureFields

theorem meets_joinRelations {left right : Relation} {known known' : RelationSchema}
    (hleft : left.Meets known) (hright : right.Meets known') {on : List (Expr × Expr)}
    {r : Relation} (h : joinRelations left right on b = .ok r) :
    r.Meets (known.bind fun s => known'.map (s ++ ·)) := by
  intro s hs
  obtain ⟨l, rfl, hs⟩ := Option.bind_eq_some_iff.mp hs
  obtain ⟨q, rfl, rfl⟩ := Option.map_eq_some_iff.mp hs
  have hdescribes : Schema.Describes (l ++ q) (left.schema ++ right.schema) :=
    List.rel_append (hleft l rfl).1 (hright q rfl).1
  obtain ⟨leftKeys, -, h⟩ := bind_eq_ok.mp h
  obtain ⟨rightKeys, -, h⟩ := bind_eq_ok.mp h
  dsimp only at h
  split at h
  · cases h
    exact ⟨hdescribes, by simp [Relation.rows]⟩
  · obtain ⟨checked, hchecked, h⟩ := bind_eq_ok.mp h
    cases h
    refine ⟨hdescribes, fun row hrow => isComplete_of_check hchecked row ?_⟩
    simpa [Relation.rows] using hrow

end Steps

section Operators

variable {ctx : RunContext} {b : ScalarBindings} {i : Operator} {known : RelationSchema}

theorem Operator.scan_yields_meets (source : String) (schema : RelationSchema) (size : Nat) :
    Run.Yields (Relation.Meets schema) ((scan source schema size).execute ctx b) := by
  refine (Run.Yields.any _).bind fun w _ => ?_
  refine (Run.Yields.any _).bind fun table _ => ?_
  refine (Run.Yields.ofOutcome fun r hr => meets_scanTable hr).bind fun r hr => ?_
  exact Run.Yields.finish hr

theorem Operator.filter_yields_meets (h : Run.Yields (Relation.Meets known) (i.execute ctx b))
    (e : Expr) : Run.Yields (Relation.Meets known) ((filter e i).execute ctx b) := by
  refine h.bind fun child hchild => ?_
  refine (Run.Yields.runParts (splits_filterSlice e b) ctx b child.batches).bind
    fun batches hbatches => ?_
  refine Run.Yields.finish fun s hs => ⟨(hchild s hs).1, fun row hrow => ?_⟩
  rcases hbatches with hnone | hkept
  · rw [show Relation.rows ⟨child.schema, batches⟩ = [] from hnone] at hrow
    cases hrow
  · exact (hchild s hs).2 row (subset_of_filterSlice hkept hrow)

theorem Operator.limit_yields_meets (h : Run.Yields (Relation.Meets known) (i.execute ctx b))
    (count : Nat) : Run.Yields (Relation.Meets known) ((limit count i).execute ctx b) := by
  refine h.bind fun child hchild => ?_
  refine Run.Yields.finish fun s hs => ⟨(hchild s hs).1, fun row hrow => ?_⟩
  have htaken : Relation.rows ⟨child.schema, limitBatches count child.batches⟩ =
      child.rows.take count := flatten_limitBatches count child.batches
  rw [htaken] at hrow
  exact (hchild s hs).2 row (List.mem_of_mem_take hrow)

theorem Operator.store_yields_meets (h : Run.Yields (Relation.Meets known) (i.execute ctx b))
    (target : String) : Run.Yields (Relation.Meets known) ((store target i).execute ctx b) := by
  refine h.bind fun child hchild => ?_
  refine (Run.Yields.any _).bind fun w _ => ?_
  refine (Run.Yields.any _).bind fun written _ => ?_
  refine (Run.Yields.any _).bind fun _ _ => ?_
  exact Run.Yields.finish hchild

end Operators

/-- A plan of a known schema gives rows that meet it, whatever its scalars are bound to and whatever
the catalog holds. -/
theorem RelationScope.AnalyzesPlan.yields_meets {scope : RelationScope} {p p' : Plan}
    {columns : Resolver} (h : AnalyzesPlan scope p p' columns) {ctx : RunContext}
    (hscope : ∀ a q schema, scope.compiled a = .ok q → scope.schema a = .ok schema →
      ∀ size o, q.lower size = .ok o → ∀ b, Run.Yields (Relation.Meets schema) (o.execute ctx b))
    {size : Nat} {o : Operator} (ho : p'.lower size = .ok o) (b : ScalarBindings) :
    Run.Yields (Relation.Meets columns.schema) (o.execute ctx b) := by
  -- General in the bindings, since the operators below a broadcast run with more of them.
  induction h generalizing o b with
  | load source schema =>
      cases ho
      have hcolumns : (sourceColumns schema).schema = schema := by
        cases schema with
        | none => rfl
        | some s => exact Resolver.schema_anonymous s
      rw [hcolumns]
      exact Operator.scan_yields_meets source schema size
  | relation hq hschema =>
      rw [Resolver.schema_ofRelation]
      exact hscope _ _ _ hq hschema size o ho b
  | filter _ _ ih | split branch _ _ ih =>
      obtain ⟨i, hi, ho⟩ := bind_eq_ok.mp ho
      cases ho
      exact Operator.filter_yields_meets (ih hi b) _
  | project _ hresults ih =>
      obtain ⟨i, hi, ho⟩ := bind_eq_ok.mp ho
      cases ho
      rw [Resolver.schema_anonymous]
      refine (ih hi b).bind fun child hchild => ?_
      refine (Run.Yields.ofOutcome fun compiled hcompiled =>
        describes_of_columns (fun s hs => (hchild s hs).1) hresults hcompiled).bind
          fun compiled hdescribes => ?_
      refine (Run.Yields.any _).bind fun batches _ => ?_
      exact Run.Yields.finish (meets_of_columns hdescribes batches)
  | aggregate _ hks hgs ih =>
      obtain ⟨i, hi, ho⟩ := bind_eq_ok.mp ho
      cases ho
      rw [Resolver.schema_anonymous]
      refine (ih hi b).bind fun child hchild => ?_
      refine (Run.Yields.ofOutcome fun r hr =>
        meets_aggregateRelation (fun s hs => (hchild s hs).1) hks hgs hr).bind fun r hr => ?_
      exact Run.Yields.finish hr
  | @join l l' r r' lcolumns rcolumns on on' _ _ _ ihl ihr =>
      obtain ⟨i, hi, ho⟩ := bind_eq_ok.mp ho
      obtain ⟨j, hj, ho⟩ := bind_eq_ok.mp ho
      cases ho
      have hschema : (lcolumns.join rcolumns).schema =
          lcolumns.schema.bind fun s => rcolumns.schema.map (s ++ ·) := by
        rw [Resolver.schema_join]
        cases lcolumns.schema <;> cases rcolumns.schema <;> rfl
      rw [hschema]
      refine (ihl hi b).bind fun left hleft => ?_
      refine (ihr hj b).bind fun right hright => ?_
      refine (Run.Yields.ofOutcome fun joined hjoined =>
        meets_joinRelations hleft hright hjoined).bind fun joined hjoined => ?_
      exact Run.Yields.finish hjoined
  | limit count _ ih =>
      obtain ⟨i, hi, ho⟩ := bind_eq_ok.mp ho
      cases ho
      exact Operator.limit_yields_meets (ih hi b) count
  | store target _ ih =>
      obtain ⟨i, hi, ho⟩ := bind_eq_ok.mp ho
      cases ho
      exact Operator.store_yields_meets (ih hi b) target
  | sideInputs ids _ ih =>
      obtain ⟨i, hi, ho⟩ := bind_eq_ok.mp ho
      cases ho
      refine (Run.Yields.any _).bind fun bound _ => ?_
      refine (ih hi bound).bind fun r hr => ?_
      exact Run.Yields.finish hr

end RelScript
