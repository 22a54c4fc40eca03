import RelScript.Proofs.Analysis.Reanalysis
import RelScript.Script.ScalarBinding

/-!
What analysis makes of an expression is determined by the fields of the input and by the positions
of the columns that the expression reads. To which relations the fields belong, and what these are
called, matters for nothing but the positions.
-/

namespace RelScript

/-- The positions of the columns that an analyzed expression reads, in order. -/
def Expr.columnIndices : Expr → List Nat
  | columnRef _ i => [i]
  | binary l _ r | junction _ l r => l.columnIndices ++ r.columnIndices
  | cast e _ | not e => e.columnIndices
  | column _ | position _ | literal _ | scalarRef _ _ | relationRef _ | placeholder _ => []

theorem Expr.columnIndices_castTo (e : Expr) (a t : DataType) :
    (TypedExpr.castTo (e, a) t).columnIndices = e.columnIndices := by
  unfold TypedExpr.castTo
  split <;> rfl

/-- The positions of the columns that an analyzed plan reads, those of the inputs of a node before
its own. -/
def Plan.columnIndices : Plan → List Nat
  | load _ _ | relation _ => []
  | project columns input =>
    input.columnIndices ++ columns.flatMap fun c => c.value.columnIndices
  | filter predicate input | split _ predicate input =>
    input.columnIndices ++ predicate.columnIndices
  | aggregate keys aggregates input =>
    input.columnIndices ++ (keys.flatMap Expr.columnIndices ++
      aggregates.flatMap fun g => g.value.arg.columnIndices)
  | join left right on =>
    left.columnIndices ++ (right.columnIndices ++
      on.flatMap fun k => k.1.columnIndices ++ k.2.columnIndices)
  | limit _ input | store _ input | sideInputs _ input => input.columnIndices

@[simp] theorem Plan.columnIndices_wrap (node : Plan) (used : List SideInputId) :
    (ScalarScope.wrap node used).columnIndices = node.columnIndices := by
  cases used <;> rfl

namespace RelationScope

variable {l r : Resolver} (hschema : l.schema = r.schema)
include hschema

theorem Analyzes.determined {e e₁ e₂ : Expr} {t₁ t₂ : DataType} (h₁ : Analyzes l e e₁ t₁)
    (h₂ : Analyzes r e e₂ t₂) {rest₁ rest₂ : List Nat}
    (h : e₁.columnIndices ++ rest₁ = e₂.columnIndices ++ rest₂) :
    e₁ = e₂ ∧ t₁ = t₂ ∧ rest₁ = rest₂ := by
  -- Analysis adds casts, which hold no positions: they follow from the types of the operands.
  induction h₁ generalizing e₂ t₂ rest₁ rest₂ with
  | column hi =>
      cases h₂ with
      | column hj =>
          obtain ⟨rfl, rfl⟩ := List.cons.inj h
          obtain ⟨s, f, hs, hf, rfl⟩ := Resolver.getElem?_of_resolve hi
          obtain ⟨s', f', hs', hf', rfl⟩ := Resolver.getElem?_of_resolve hj
          cases hs.symm.trans (hschema.trans hs')
          cases hf.symm.trans hf'
          exact ⟨rfl, rfl, rfl⟩
  | position hi | columnRef hi =>
      cases h₂
      rename_i hj
      obtain ⟨-, rfl⟩ := List.cons.inj h
      cases hi.symm.trans ((Resolver.position_congr hschema.symm _).symm.trans hj)
      exact ⟨rfl, rfl, rfl⟩
  | literal v | placeholder p =>
      cases h₂
      exact ⟨rfl, rfl, h⟩
  | cast t _ ih =>
      cases h₂ with
      | cast _ he =>
          obtain ⟨rfl, -, rfl⟩ := ih he h
          exact ⟨rfl, rfl, rfl⟩
  | not _ ih =>
      cases h₂ with
      | not he =>
          obtain ⟨rfl, -, rfl⟩ := ih he h
          exact ⟨rfl, rfl, rfl⟩
  | junction j _ _ ihl ihr =>
      cases h₂ with
      | junction _ hl hr =>
          simp only [Expr.columnIndices, List.append_assoc] at h
          obtain ⟨rfl, -, h⟩ := ihl hl h
          obtain ⟨rfl, -, rfl⟩ := ihr hr h
          exact ⟨rfl, rfl, rfl⟩
  | compare c _ _ _ _ ht ihl ihr =>
      cases h₂ with
      | compare _ hl hr _ _ ht' =>
          simp only [Expr.columnIndices, Expr.columnIndices_castTo, List.append_assoc] at h
          obtain ⟨rfl, rfl, h⟩ := ihl hl h
          obtain ⟨rfl, rfl, rfl⟩ := ihr hr h
          cases ht.symm.trans ht'
          exact ⟨rfl, rfl, rfl⟩
  | arith op _ _ _ _ ht ihl ihr =>
      cases h₂ with
      | arith _ hl hr _ _ ht' =>
          simp only [Expr.columnIndices, Expr.columnIndices_castTo, List.append_assoc] at h
          obtain ⟨rfl, rfl, h⟩ := ihl hl h
          obtain ⟨rfl, rfl, rfl⟩ := ihr hr h
          cases ht.symm.trans ht'
          exact ⟨rfl, rfl, rfl⟩
  | concat _ _ _ _ _ _ ihl ihr =>
      cases h₂ with
      | concat hl hr =>
          simp only [Expr.columnIndices, Expr.columnIndices_castTo, List.append_assoc] at h
          obtain ⟨rfl, rfl, h⟩ := ihl hl h
          obtain ⟨rfl, rfl, rfl⟩ := ihr hr h
          exact ⟨rfl, rfl, rfl⟩

theorem AnalyzesAggregate.determined {a a₁ a₂ : Aggregate} {t₁ t₂ : DataType}
    (h₁ : AnalyzesAggregate l a a₁ t₁) (h₂ : AnalyzesAggregate r a a₂ t₂)
    {rest₁ rest₂ : List Nat}
    (h : a₁.arg.columnIndices ++ rest₁ = a₂.arg.columnIndices ++ rest₂) :
    a₁ = a₂ ∧ t₁ = t₂ ∧ rest₁ = rest₂ := by
  cases h₁ with
  | count he =>
      cases h₂ with
      | count he' =>
          obtain ⟨rfl, -, rfl⟩ := he.determined hschema he' h
          exact ⟨rfl, rfl, rfl⟩
      | gather hcount => exact absurd rfl hcount
  | average he hu =>
      cases h₂ with
      | average he' hu' =>
          simp only [Expr.columnIndices_castTo] at h
          obtain ⟨rfl, rfl, rfl⟩ := he.determined hschema he' h
          cases hu.symm.trans hu'
          exact ⟨rfl, rfl, rfl⟩
      | gather _ havg => exact absurd rfl havg
  | gather hcount havg he hu =>
      cases h₂ with
      | count => exact absurd rfl hcount
      | average => exact absurd rfl havg
      | gather _ _ he' hu' =>
          simp only [Expr.columnIndices_castTo] at h
          obtain ⟨rfl, rfl, rfl⟩ := he.determined hschema he' h
          cases hu.symm.trans hu'
          exact ⟨rfl, rfl, rfl⟩

theorem decodes_column :
    Decodes (AnalyzesColumn l) (AnalyzesColumn r) fun c => c.1.value.columnIndices := by
  rintro c ⟨⟨e, n⟩, ⟨m, t, b⟩⟩ ⟨⟨e', n'⟩, ⟨m', t', b'⟩⟩ rest rest' ⟨he, hn, hm, hb⟩
    ⟨he', hn', hm', hb'⟩ h
  dsimp only at *
  obtain ⟨rfl, rfl, rfl⟩ := he.determined hschema he' h
  subst hn hm hb hn' hm' hb'
  exact ⟨rfl, rfl⟩

theorem decodes_key : Decodes (AnalyzesKey l) (AnalyzesKey r) fun k => k.1.columnIndices := by
  rintro k ⟨e, ⟨m, t, b⟩⟩ ⟨e', ⟨m', t', b'⟩⟩ rest rest' ⟨he, hm, hb⟩ ⟨he', hm', hb'⟩ h
  dsimp only at *
  obtain ⟨rfl, rfl, rfl⟩ := he.determined hschema he' h
  subst hm hb hm' hb'
  exact ⟨rfl, rfl⟩

theorem decodes_measure :
    Decodes (AnalyzesMeasure l) (AnalyzesMeasure r) fun g => g.1.value.arg.columnIndices := by
  rintro g ⟨⟨a, n⟩, ⟨m, t, b⟩⟩ ⟨⟨a', n'⟩, ⟨m', t', b'⟩⟩ rest rest' ⟨ha, hn, hm, hb⟩
    ⟨ha', hn', hm', hb'⟩ h
  dsimp only at *
  obtain ⟨rfl, rfl, rfl⟩ := ha.determined hschema ha' h
  subst hn hm hb hn' hm' hb'
  exact ⟨rfl, rfl⟩

theorem decodes_keys {l' r' : Resolver} (hschema' : l'.schema = r'.schema) :
    Decodes (AnalyzesKeys l l') (AnalyzesKeys r r') fun k =>
      k.1.columnIndices ++ k.2.columnIndices := by
  rintro k k₁ k₂ rest rest' ⟨e, f, a, b, t, he, hf, -, -, ht, rfl⟩
    ⟨e', f', a', b', t', he', hf', -, -, ht', rfl⟩ h
  simp only [Expr.columnIndices_castTo, List.append_assoc] at h
  obtain ⟨rfl, rfl, h⟩ := he.determined hschema he' h
  obtain ⟨rfl, rfl, rfl⟩ := hf.determined hschema' hf' h
  cases ht.symm.trans ht'
  exact ⟨rfl, rfl⟩

end RelationScope

end RelScript
