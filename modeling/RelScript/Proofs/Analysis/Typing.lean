import RelScript.Physical.Basic
import RelScript.Proofs.Analysis.OutputSchema
import RelScript.Proofs.Plan.Traversal

/-!
Types of expressions and schemas of operator trees, by rules that check every operand. What analysis
makes of a plan over declared sources lowers to a typed operator tree.
-/

namespace RelScript

/-- An expression over the rows of a schema, and the type of its values. -/
inductive Expr.HasType (s : Schema) : Expr → DataType → Prop
  | columnRef {name : String} {i : Nat} {f : Field} :
    s[i]? = some f → HasType s (.columnRef name i) f.type
  | literal (v : Literal) : HasType s (.literal v) v.type
  | placeholder (p : Placeholder) : HasType s (.placeholder p) p.type
  | cast {e : Expr} {a : DataType} (t : DataType) : HasType s e a → HasType s (.cast e t) t
  | junction {l r : Expr} (j : Junction) :
    HasType s l .boolean → HasType s r .boolean → HasType s (.junction j l r) .boolean
  | not {e : Expr} : HasType s e .boolean → HasType s (.not e) .boolean
  | compare {l r : Expr} {t : DataType} (c : Comparison) :
    HasType s l t → HasType s r t → HasType s (.binary l (.compare c) r) .boolean
  | arith {l r : Expr} {t : DataType} (op : Arithmetic) :
    t.isNumeric = true → HasType s l t → HasType s r t → HasType s (.binary l (.arith op) r) t
  | concat {l r : Expr} :
    HasType s l .utf8 → HasType s r .utf8 → HasType s (.binary l .concat r) .utf8

/-- An aggregate over the rows of a schema, and the type of its results. Only numbers are summed. -/
inductive Aggregate.HasType (s : Schema) : Aggregate → DataType → Prop
  | count {e : Expr} {t : DataType} : e.HasType s t → HasType s ⟨.count, e⟩ .int64
  | avg {e : Expr} : e.HasType s .float64 → HasType s ⟨.avg, e⟩ .float64
  | sum {e : Expr} {t : DataType} :
    t = .int64 ∨ t = .float64 → e.HasType s t → HasType s ⟨.sum, e⟩ t
  | min {e : Expr} {t : DataType} : e.HasType s t → HasType s ⟨.min, e⟩ t
  | max {e : Expr} {t : DataType} : e.HasType s t → HasType s ⟨.max, e⟩ t

/-- An operator tree over declared sources, and the schema of its rows. -/
inductive Operator.Typed : Operator → Schema → Prop
  | scan (source : String) (s : Schema) (batchSize : Nat) :
      Typed (.scan source (some s) batchSize) s
  | filter {o : Operator} {s : Schema} {e : Expr} :
    Typed o s → e.HasType s .boolean → Typed (.filter e o) s
  | project {o : Operator} {s fields : Schema} {columns : List (Named Expr)} :
    Typed o s → List.Forall₂ (fun c f => c.value.HasType s f.type ∧ f = ⟨c.name, f.type, true⟩)
      columns fields → Typed (.project columns o) fields
  | hashAggregate {o : Operator} {s keyFields fields : Schema} {keys : List Expr}
    {aggregates : List (Named Aggregate)} :
    Typed o s →
      List.Forall₂ (fun k f => k.HasType s f.type ∧ f = ⟨k.groupName, f.type, true⟩)
        keys keyFields →
      List.Forall₂ (fun a f => a.value.HasType s f.type ∧ f = ⟨a.name, f.type, true⟩)
        aggregates fields → Typed (.hashAggregate keys aggregates o) (keyFields ++ fields)
  | hashJoin {l r : Operator} {s t : Schema} {on : List (Expr × Expr)} :
    Typed l s → Typed r t → (∀ k ∈ on, ∃ a, k.1.HasType s a ∧ k.2.HasType t a) →
      Typed (.hashJoin l r on) (s ++ t)
  | limit {o : Operator} {s : Schema} (count : Nat) : Typed o s → Typed (.limit count o) s
  | store {o : Operator} {s : Schema} (target : String) : Typed o s → Typed (.store target o) s
  | broadcast {o : Operator} {s : Schema} (ids : List SideInputId) :
    Typed o s → Typed (.broadcast ids o) s

theorem Expr.HasType.castTo {s : Schema} {e : Expr} {a : DataType} (h : e.HasType s a)
    (t : DataType) : (TypedExpr.castTo (e, a) t).HasType s t := by
  unfold TypedExpr.castTo
  split
  · rename_i hat
    dsimp only at hat
    exact hat ▸ h
  · exact .cast t h

theorem isNumeric_of_wider? {a b t : DataType} (h : a.wider? b = some t) :
    t.isNumeric = true := by
  have hrank : ∀ {u : DataType} {r : Nat}, u.numericRank? = some r → u.isNumeric = true := by
    intro u r hu
    cases u with
    | integer | float => rfl
    | _ => cases hu
  unfold DataType.wider? at h
  split at h
  · rename_i ha hb
    split at h
    · cases h
      exact hrank ha
    · cases h
      exact hrank hb
  · cases h

theorem isNumeric_of_arithmeticType? {a b t : DataType} (h : arithmeticType? a b = some t) :
    t.isNumeric = true := by
  unfold arithmeticType? at h
  split at h
  · split at h
    · cases h
      rfl
    · split at h
      · rename_i hb
        cases h
        exact hb
      · cases h
  · split at h
    · split at h
      · rename_i ha
        cases h
        exact ha
      · cases h
    · exact isNumeric_of_wider? h

theorem accumulatorType?_eq_some {fn : AggregateFn} {a t : DataType}
    (h : accumulatorType? fn a = some t) :
    t = .int64 ∨ t = .float64 ∨ (fn = .min ∨ fn = .max) ∧ t = .utf8 := by
  unfold accumulatorType? at h
  split at h
  · cases h
    exact Or.inr (Or.inl rfl)
  split at h
  · cases h
    exact Or.inl rfl
  split at h
  · cases h
    exact Or.inr (Or.inl rfl)
  split at h
  · rename_i hfn
    cases h
    refine Or.inr (Or.inr ⟨?_, rfl⟩)
    simpa using (Bool.and_eq_true_iff.mp hfn).1
  · cases h

namespace RelationScope

theorem Analyzes.hasType {input : Resolver} {e e' : Expr} {t : DataType}
    (h : Analyzes input e e' t) {s : Schema} (hs : input.schema = some s) : e'.HasType s t := by
  induction h with
  | column hi =>
      obtain ⟨s', f, hs', hf, rfl⟩ := Resolver.getElem?_of_resolve hi
      rw [hs] at hs'
      cases hs'
      exact .columnRef hf
  | position hi | columnRef hi =>
      rcases Resolver.getElem?_of_position hi with ⟨hnone, -⟩ | ⟨s', f, hs', hf, rfl⟩
      · rw [hs] at hnone
        cases hnone
      · rw [hs] at hs'
        cases hs'
        exact .columnRef hf
  | literal v => exact .literal v
  | placeholder p => exact .placeholder p
  | cast t _ ih => exact .cast t ih
  | junction j _ _ ihl ihr => exact .junction j ihl ihr
  | not _ ih => exact .not ih
  | compare c _ _ _ _ _ ihl ihr => exact .compare c (ihl.castTo _) (ihr.castTo _)
  | arith op _ _ _ _ ht ihl ihr =>
      exact .arith op (isNumeric_of_arithmeticType? ht) (ihl.castTo _) (ihr.castTo _)
  | concat _ _ _ _ _ _ ihl ihr => exact .concat (ihl.castTo _) (ihr.castTo _)

theorem AnalyzesAggregate.hasType {input : Resolver} {a a' : Aggregate} {t : DataType}
    (h : AnalyzesAggregate input a a' t) {s : Schema} (hs : input.schema = some s) :
    a'.HasType s t := by
  cases h with
  | count he => exact .count (he.hasType hs)
  | average he _ => exact .avg (((he.hasType hs).castTo _).castTo _)
  | @gather fn e e' b _ hcount havg he ht =>
      have harg := (he.hasType hs).castTo t
      cases fn with
      | count => exact absurd rfl hcount
      | avg => exact absurd rfl havg
      | sum =>
          refine .sum ?_ harg
          rcases accumulatorType?_eq_some ht with h | h | ⟨hfn, -⟩
          · exact Or.inl h
          · exact Or.inr h
          · rcases hfn with hfn | hfn <;> cases hfn
      | min => exact .min harg
      | max => exact .max harg

/-- What analysis makes of a plan over declared sources lowers to a typed operator tree, if that is
so for the aliases that the plan reads. -/
theorem AnalyzesPlan.typed {scope : RelationScope} {p p' : Plan} {columns : Resolver}
    (h : AnalyzesPlan scope p p' columns) (batchSize : Nat)
    (hloads : ∀ source schema, Plan.Access.load source schema ∈ p.accesses → schema.isSome)
    (hcompiled : ∀ a q schema, scope.compiled a = .ok q → scope.schema a = .ok schema →
      ∃ o s, q.lower batchSize = .ok o ∧ schema = some s ∧ o.Typed s) :
    ∃ o s, p'.lower batchSize = .ok o ∧ columns.schema = some s ∧ o.Typed s := by
  have hchild : ∀ {n c : Plan}, c ∈ n.children →
      (∀ source schema, Plan.Access.load source schema ∈ n.accesses → schema.isSome) →
        ∀ source schema, Plan.Access.load source schema ∈ c.accesses → schema.isSome :=
    fun hc hn source schema hs => hn source schema (Plan.accesses_subset_of_child hc hs)
  induction h with
  | load source schema =>
      obtain ⟨s, rfl⟩ := Option.isSome_iff_exists.mp
        (hloads source schema (List.mem_singleton.mpr rfl))
      exact ⟨_, s, rfl, Resolver.schema_anonymous s, .scan source s batchSize⟩
  | relation hq hs =>
      obtain ⟨o, s, ho, rfl, hotyped⟩ := hcompiled _ _ _ hq hs
      exact ⟨o, s, ho, Resolver.schema_ofRelation _ _, hotyped⟩
  | filter _ he ih | split branch _ he ih =>
      obtain ⟨o, s, ho, hs, hotyped⟩ := ih (hchild (List.mem_singleton.mpr rfl) hloads)
      exact ⟨_, s, bind_eq_ok.mpr ⟨o, ho, rfl⟩, hs, .filter hotyped (he.hasType hs)⟩
  | project _ hresults ih =>
      obtain ⟨o, s, ho, hs, hotyped⟩ := ih (hchild (List.mem_singleton.mpr rfl) hloads)
      refine ⟨_, _, bind_eq_ok.mpr ⟨o, ho, rfl⟩, Resolver.schema_anonymous _, .project hotyped ?_⟩
      rw [List.forall₂_map_left_iff, List.forall₂_map_right_iff, List.forall₂_same]
      intro r hr
      obtain ⟨c, -, he, hname, hfield, hnullable⟩ := forall_right_of_forall₂ hresults r hr
      refine ⟨he.hasType hs, ?_⟩
      rw [hname, ← hfield, ← hnullable]
  | aggregate _ hks hgs ih =>
      obtain ⟨o, s, ho, hs, hotyped⟩ := ih (hchild (List.mem_singleton.mpr rfl) hloads)
      refine ⟨_, _, bind_eq_ok.mpr ⟨o, ho, rfl⟩, Resolver.schema_anonymous _,
        .hashAggregate hotyped ?_ ?_⟩
      · rw [List.forall₂_map_left_iff, List.forall₂_map_right_iff, List.forall₂_same]
        intro r hr
        obtain ⟨k, -, he, hname, hnullable⟩ := forall_right_of_forall₂ hks r hr
        refine ⟨he.hasType hs, ?_⟩
        rw [← hname, ← hnullable]
      · rw [List.forall₂_map_left_iff, List.forall₂_map_right_iff, List.forall₂_same]
        intro r hr
        obtain ⟨a, -, hg, hname, hfield, hnullable⟩ := forall_right_of_forall₂ hgs r hr
        refine ⟨hg.hasType hs, ?_⟩
        rw [hname, ← hfield, ← hnullable]
  | join _ _ hon ihl ihr =>
      obtain ⟨l, s, hl, hs, hltyped⟩ := ihl (hchild List.mem_cons_self hloads)
      obtain ⟨r, t, hr, ht, hrtyped⟩ :=
        ihr (hchild (List.mem_cons_of_mem _ List.mem_cons_self) hloads)
      refine ⟨_, s ++ t, bind_eq_ok.mpr ⟨l, hl, bind_eq_ok.mpr ⟨r, hr, rfl⟩⟩, ?_,
        .hashJoin hltyped hrtyped fun k hk => ?_⟩
      · rw [Resolver.schema_join, hs, ht]
      -- Both keys are cast to their common type.
      · obtain ⟨k₀, -, l', r', a, b, u, hl', hr', -, -, -, rfl⟩ := forall_right_of_forall₂ hon k hk
        exact ⟨u, (hl'.hasType hs).castTo u, (hr'.hasType ht).castTo u⟩
  | limit count _ ih =>
      obtain ⟨o, s, ho, hs, hotyped⟩ := ih (hchild (List.mem_singleton.mpr rfl) hloads)
      exact ⟨_, s, bind_eq_ok.mpr ⟨o, ho, rfl⟩, hs, .limit count hotyped⟩
  | store target _ ih =>
      obtain ⟨o, s, ho, hs, hotyped⟩ := ih (hchild (List.mem_singleton.mpr rfl) hloads)
      exact ⟨_, s, bind_eq_ok.mpr ⟨o, ho, rfl⟩, hs, .store target hotyped⟩
  | sideInputs ids _ ih =>
      obtain ⟨o, s, ho, hs, hotyped⟩ := ih (hchild (List.mem_singleton.mpr rfl) hloads)
      exact ⟨_, s, bind_eq_ok.mpr ⟨o, ho, rfl⟩, hs, .broadcast ids hotyped⟩

end RelationScope

end RelScript
