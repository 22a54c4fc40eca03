import RelScript.Proofs.Analysis.Reanalysis
import RelScript.Proofs.Execution.IntegerGroups
import RelScript.Proofs.Value.Casting

/-!
Comparisons and aggregates of integers, from analysis to their results. Two integer types are
compared in the one that comes later in the widening order, or in the first one if they share their
place. That type need not have all values of the other one: signed and unsigned types of one width
share a place, and an unsigned type may be the wider of two. A value that the common type does not
have is taken as a missing one. So is an unsigned integer past the signed range in an aggregate.
-/

namespace RelScript

namespace IntKind

/-- The type in which values of two integer types are compared. -/
def common (j k : IntKind) : IntKind := if k.rank ≤ j.rank then j else k

/-- Whether a type has all values of another. -/
def Includes (t k : IntKind) : Prop := t.least ≤ k.least ∧ k.greatest ≤ t.greatest

instance (t k : IntKind) : Decidable (t.Includes k) := inferInstanceAs (Decidable (_ ∧ _))

theorem includes_iff {t k : IntKind} : t.Includes k ↔ ∀ n : Whole k, t.Holds n.val := by
  constructor
  · rintro ⟨hleast, hgreatest⟩ ⟨n, hn⟩
    exact ⟨hleast.trans hn.1, hn.2.trans hgreatest⟩
  · intro h
    have hleast : k.Holds k.least := by cases k <;> decide
    have hgreatest : k.Holds k.greatest := by cases k <;> decide
    exact ⟨(h ⟨_, hleast⟩).1, (h ⟨_, hgreatest⟩).2⟩

/-- The common type has all values of both types if their signs agree, or if it is a signed type
that is wider than the other one. -/
theorem common_includes_iff (j k : IntKind) :
    (j.common k).Includes j ∧ (j.common k).Includes k ↔
      j.signed = k.signed ∨ (j.common k).signed = true ∧ j.rank ≠ k.rank := by
  cases j <;> cases k <;> decide

theorem int64_includes_iff (k : IntKind) : int64.Includes k ↔ k ≠ .uint64 := by
  cases k <;> decide

theorem common_comm {j k : IntKind} (h : j.rank ≠ k.rank) : j.common k = k.common j := by
  unfold common
  split <;> split
  · omega
  · rfl
  · rfl
  · omega

theorem common_of_rank_eq {j k : IntKind} (h : j.rank = k.rank) : j.common k = j :=
  if_pos h.ge

end IntKind

theorem comparisonType?_integer (j k : IntKind) :
    comparisonType? (.integer j) (.integer k) = some (.integer (j.common k)) := by
  rw [IntKind.common, apply_ite DataType.integer]
  rfl

namespace Comparison

/-- The relation of integers that a comparison stands for. -/
def Relates : Comparison → Int → Int → Prop
  | eq, m, n => m = n
  | notEq, m, n => m ≠ n
  | lt, m, n => m < n
  | ltEq, m, n => m ≤ n
  | gt, m, n => n < m
  | gtEq, m, n => n ≤ m

instance : (c : Comparison) → (m n : Int) → Decidable (c.Relates m n)
  | eq, m, n => inferInstanceAs (Decidable (m = n))
  | notEq, m, n => inferInstanceAs (Decidable (m ≠ n))
  | lt, m, n => inferInstanceAs (Decidable (m < n))
  | ltEq, m, n => inferInstanceAs (Decidable (m ≤ n))
  | gt, m, n => inferInstanceAs (Decidable (n < m))
  | gtEq, m, n => inferInstanceAs (Decidable (n ≤ m))

/-- The comparison with its operands exchanged. -/
def flip : Comparison → Comparison
  | eq => eq
  | notEq => notEq
  | lt => gt
  | ltEq => gtEq
  | gt => lt
  | gtEq => ltEq

theorem relates_flip (c : Comparison) (m n : Int) : c.flip.Relates n m ↔ c.Relates m n := by
  cases c
  · exact eq_comm
  · exact ne_comm
  all_goals exact Iff.rfl

theorem accepts_compare (c : Comparison) (m n : Int) :
    c.accepts (compare m n) = decide (c.Relates m n) := by
  rw [Bool.eq_iff_iff, decide_eq_true_iff]
  cases c with
  | eq => exact beq_iff_eq.trans compare_eq_iff_eq
  | notEq => exact bne_iff_ne.trans (not_congr compare_eq_iff_eq)
  | lt => exact beq_iff_eq.trans compare_lt_iff_lt
  | ltEq => exact bne_iff_ne.trans ((not_congr compare_gt_iff_gt).trans not_lt)
  | gt => exact beq_iff_eq.trans compare_gt_iff_gt
  | gtEq => exact bne_iff_ne.trans ((not_congr compare_lt_iff_lt).trans not_lt)

/-- A comparison of two integers in a type: known if the type has both of them. -/
def promoted (c : Comparison) (t : IntKind) {j k : IntKind} :
    Option (Whole j) → Option (Whole k) → Option Bool
  | some m, some n =>
    if t.Holds m.val ∧ t.Holds n.val then some (decide (c.Relates m.val n.val)) else none
  | _, _ => none

theorem promoted_eq_some_iff (c : Comparison) (t : IntKind) {j k : IntKind} (m : Whole j)
    (n : Whole k) : c.promoted t (some m) (some n) = some (decide (c.Relates m.val n.val)) ↔
      t.Holds m.val ∧ t.Holds n.val := by
  rw [promoted]
  split
  · rename_i h
    exact iff_of_true rfl h
  · rename_i h
    exact iff_of_false (by simp) h

/-- Exchanging the operands makes a difference only between types that share their place, if one of
them has the integer of the other and not the other way around. -/
theorem flip_promoted_iff (c : Comparison) {j k : IntKind} (m : Whole j) (n : Whole k) :
    c.flip.promoted (k.common j) (some n) (some m) = c.promoted (j.common k) (some m) (some n) ↔
      (j.rank = k.rank → (j.Holds n.val ↔ k.Holds m.val)) := by
  have hsame : decide (c.flip.Relates n.val m.val) = decide (c.Relates m.val n.val) :=
    decide_eq_decide.mpr (c.relates_flip m.val n.val)
  rw [promoted, promoted, hsame]
  by_cases hrank : j.rank = k.rank
  · rw [IntKind.common_of_rank_eq hrank, IntKind.common_of_rank_eq hrank.symm]
    have hm := m.property
    have hn := n.property
    by_cases hjn : j.Holds n.val <;> by_cases hkm : k.Holds m.val <;> simp [hm, hn, hjn, hkm, hrank]
  · rw [IntKind.common_comm hrank]
    exact iff_of_true (if_congr and_comm rfl rfl) fun h => absurd h hrank

theorem holds_ofInt? (c : Comparison) (t : IntKind) {j k : IntKind} (m : Option (Whole j))
    (n : Option (Whole k)) :
    c.holds (.integer t) (m.bind fun m => Whole.ofInt? t m.val)
      (n.bind fun n => Whole.ofInt? t n.val) = c.promoted t m n := by
  cases m with
  | none => rfl
  | some m =>
      cases n with
      | none =>
          show c.holds (.integer t) (Whole.ofInt? t m.val) none = none
          cases Whole.ofInt? t m.val <;> rfl
      | some n =>
          rw [promoted, ← c.accepts_compare]
          show c.holds (.integer t) (Whole.ofInt? t m.val) (Whole.ofInt? t n.val) = _
          by_cases hm : t.Holds m.val
          · rw [Whole.ofInt?_of_holds hm]
            by_cases hn : t.Holds n.val
            · rw [Whole.ofInt?_of_holds hn, if_pos ⟨hm, hn⟩]
              rfl
            · rw [Whole.ofInt?, dif_neg hn, if_neg fun h => hn h.2]
              rfl
          · rw [Whole.ofInt?, dif_neg hm, if_neg fun h => hm h.1]
            rfl

end Comparison

/-- The integers of a column in another type, which need not have all of them. -/
def Column.promote {k : IntKind} (t : IntKind) (c : Column (.integer k)) : Column (.integer t) :=
  c.map (·.bind fun n => Whole.ofInt? t n.val)

theorem Column.promote_self {k : IntKind} (c : Column (.integer k)) : c.promote k = c := by
  have hentry : ∀ n : Option (Whole k), n.bind (fun n => Whole.ofInt? k n.val) = n := by
    intro n
    cases n with
    | none => rfl
    | some n => exact n.ofInt?_val
  exact (List.map_congr_left fun n _ => hentry n).trans (List.map_id c)

theorem Column.cast_integer {k : IntKind} (c : Column (.integer k)) (t : IntKind) :
    c.cast (.integer t) = .ok (c.promote t) := by
  by_cases h : k = t
  · subst h
    rw [cast_self, promote_self]
  · exact cast_of_conversion rfl (by simpa using h) rfl (fun _ => rfl) c

theorem Column.expect_self {t : DataType} (c : Column t) (fault : ExecutionFault) :
    c.expect t fault = .ok c := by
  rw [expect, as?, dif_pos rfl]

theorem Comparison.column_promote (c : Comparison) (t : IntKind) {j k : IntKind}
    (x : Column (.integer j)) (y : Column (.integer k)) :
    c.column (.integer t) (x.promote t) (y.promote t) = List.zipWith (c.promoted t) x y := by
  rw [column, Column.promote, Column.promote, List.zipWith_map]
  congr 1
  funext m n
  exact c.holds_ofInt? t m n

namespace Expr

variable {s : Schema} {b : ScalarBindings} {rows : Batch s} {j k t : IntKind}

/-- Whether the values of an expression are integers of a type, where it has values. -/
def GivesIntegers (e : Expr) (s : Schema) (b : ScalarBindings) (rows : Batch s) (k : IntKind) :
    Prop :=
  ∀ v, e.values s b rows = .ok v → v.1 = .integer k

theorem values_eq_ok {e : Expr} {v : (t : DataType) × Column t} :
    e.values s b rows = .ok v ↔ ∃ c column, e.compile s b = .ok c ∧ c.2.eval rows = .ok column ∧
      v = ⟨c.1, column⟩ := by
  constructor
  · intro h
    obtain ⟨c, hc, h⟩ := bind_eq_ok.mp h
    obtain ⟨column, hcolumn, h⟩ := bind_eq_ok.mp h
    exact ⟨c, column, hc, hcolumn, (pure_eq_ok.mp h).symm⟩
  · rintro ⟨c, column, hc, hcolumn, rfl⟩
    exact bind_eq_ok.mpr ⟨c, hc, bind_eq_ok.mpr ⟨column, hcolumn, rfl⟩⟩

theorem values_castTo {e : Expr} (he : e.GivesIntegers s b rows k)
    {v : (t : DataType) × Column t} :
    (TypedExpr.castTo (e, .integer k) (.integer t)).values s b rows = .ok v ↔
      ∃ x : Column (.integer k), e.values s b rows = .ok ⟨_, x⟩ ∧ v = ⟨_, x.promote t⟩ := by
  by_cases hkt : k = t
  · subst hkt
    have hself : TypedExpr.castTo (e, .integer k) (.integer k) = e := if_pos rfl
    rw [hself]
    constructor
    · intro hv
      obtain ⟨u, x⟩ := v
      obtain rfl : u = .integer k := he _ hv
      exact ⟨x, hv, by rw [Column.promote_self]⟩
    · rintro ⟨x, hx, rfl⟩
      rwa [Column.promote_self]
  · have hcast : TypedExpr.castTo (e, .integer k) (.integer t) = .cast e (.integer t) :=
      if_neg (by simpa using hkt)
    rw [hcast, values_eq_ok]
    constructor
    · rintro ⟨c, column, hc, hcolumn, rfl⟩
      obtain ⟨⟨u, x⟩, hx, hc⟩ := bind_eq_ok.mp hc
      cases hc
      obtain ⟨values, hvalues, hcolumn⟩ := bind_eq_ok.mp hcolumn
      have hv := values_eq_ok.mpr ⟨_, values, hx, hvalues, rfl⟩
      obtain rfl : u = .integer k := he _ hv
      rw [Column.cast_integer] at hcolumn
      cases hcolumn
      exact ⟨values, hv, rfl⟩
    · rintro ⟨x, hx, rfl⟩
      obtain ⟨⟨u, c⟩, column, hc, hcolumn, hsame⟩ := values_eq_ok.mp hx
      cases hsame
      exact ⟨⟨_, .cast c (.integer t)⟩, _, bind_eq_ok.mpr ⟨_, hc, rfl⟩,
        bind_eq_ok.mpr ⟨x, hcolumn, x.cast_integer t⟩, rfl⟩

theorem values_promote {e : Expr} {x : Column (.integer k)}
    (h : e.values s b rows = .ok ⟨_, x⟩) (t : IntKind) :
    (TypedExpr.castTo (e, .integer k) (.integer t)).values s b rows = .ok ⟨_, x.promote t⟩ := by
  have he : e.GivesIntegers s b rows k := by
    intro v hv
    rw [h] at hv
    cases hv
    rfl
  exact (values_castTo he).mpr ⟨x, h, rfl⟩

theorem GivesIntegers.castTo {e : Expr} (he : e.GivesIntegers s b rows k) (t : IntKind) :
    (TypedExpr.castTo (e, .integer k) (.integer t)).GivesIntegers s b rows t := by
  intro v hv
  obtain ⟨x, -, rfl⟩ := (values_castTo he).mp hv
  rfl

theorem values_compare {l r : Expr} (hl : l.GivesIntegers s b rows t)
    (hr : r.GivesIntegers s b rows t) (c : Comparison) {v : (t : DataType) × Column t} :
    (Expr.binary l (.compare c) r).values s b rows = .ok v ↔
      ∃ x y : Column (.integer t), l.values s b rows = .ok ⟨_, x⟩ ∧ r.values s b rows = .ok ⟨_, y⟩ ∧
        v = ⟨.boolean, c.column (.integer t) x y⟩ := by
  rw [values_eq_ok]
  constructor
  · rintro ⟨z, column, hz, hcolumn, rfl⟩
    obtain ⟨⟨u, xe⟩, hx, hz⟩ := bind_eq_ok.mp hz
    obtain ⟨⟨w, ye⟩, hy, hz⟩ := bind_eq_ok.mp hz
    cases hz
    obtain ⟨x, hxvalues, hcolumn⟩ := bind_eq_ok.mp hcolumn
    obtain ⟨y, hyvalues, hcolumn⟩ := bind_eq_ok.mp hcolumn
    have hlv := values_eq_ok.mpr ⟨_, x, hx, hxvalues, rfl⟩
    have hrv := values_eq_ok.mpr ⟨_, y, hy, hyvalues, rfl⟩
    obtain rfl : u = .integer t := hl _ hlv
    obtain rfl : w = .integer t := hr _ hrv
    rw [Column.expect_self] at hcolumn
    cases hcolumn
    exact ⟨x, y, hlv, hrv, rfl⟩
  · rintro ⟨x, y, hx, hy, rfl⟩
    obtain ⟨⟨u, xe⟩, _, hxe, hxvalues, hsame⟩ := values_eq_ok.mp hx
    cases hsame
    obtain ⟨⟨w, ye⟩, _, hye, hyvalues, hsame⟩ := values_eq_ok.mp hy
    cases hsame
    exact ⟨⟨_, .compare c xe ye⟩, _, bind_eq_ok.mpr ⟨_, hxe, bind_eq_ok.mpr ⟨_, hye, rfl⟩⟩,
      bind_eq_ok.mpr ⟨x, hxvalues, bind_eq_ok.mpr ⟨y, hyvalues,
        bind_eq_ok.mpr ⟨x, x.expect_self _, rfl⟩⟩⟩, rfl⟩

end Expr

/-- A comparison of two expressions of integer types, as analysis leaves it. -/
def Expr.promotedComparison (c : Comparison) (l : Expr) (j : IntKind) (r : Expr) (k : IntKind) :
    Expr :=
  .binary (TypedExpr.castTo (l, .integer j) (.integer (j.common k))) (.compare c)
    (TypedExpr.castTo (r, .integer k) (.integer (j.common k)))

namespace RelationScope

variable {scope : RelationScope} {input : Resolver} {l l' r r' : Expr} {j k : IntKind}

theorem Analyzes.givesIntegers {s : Schema} (h : Analyzes input l l' (.integer k))
    (hinput : ∀ known, input.schema = some known → known.Describes s) (b : ScalarBindings)
    (rows : Batch s) : l'.GivesIntegers s b rows k := by
  intro v hv
  obtain ⟨c, column, hc, -, rfl⟩ := Expr.values_eq_ok.mp hv
  exact (h.keeps hinput hc rfl).1

theorem Analyzes.unique {e e' e'' : Expr} {t u : DataType} (h : Analyzes input e e' t)
    (h' : Analyzes input e e'' u) : (e', t) = (e'', u) :=
  Except.ok.inj ((h.analyzeExpr_eq_ok noAliases).symm.trans (h'.analyzeExpr_eq_ok noAliases))

/-- Two expressions of integer types are accepted as operands of a comparison, unless one of them is
a scalar field without a type. Row by row the result is that of the integers, as far as the common
type has them. -/
structure ComparesIntegers (scope : RelationScope) (input : Resolver) (l l' r r' : Expr)
    (j k : IntKind) : Prop where
  analyzed : l'.isUntypedScalar = false → r'.isUntypedScalar = false →
    ∀ c, scope.analyzeExpr input (.binary l (.compare c) r) =
      .ok (.promotedComparison c l' j r' k, .boolean)
  rejected : l'.isUntypedScalar = true ∨ r'.isUntypedScalar = true →
    ∀ c, ∃ e, scope.analyzeExpr input (.binary l (.compare c) r) = .error e
  values : ∀ c s, (∀ known, input.schema = some known → known.Describes s) → ∀ b rows v,
    (Expr.promotedComparison c l' j r' k).values s b rows = .ok v ↔
      ∃ (x : Column (.integer j)) (y : Column (.integer k)), l'.values s b rows = .ok ⟨_, x⟩ ∧
        r'.values s b rows = .ok ⟨_, y⟩ ∧
          v = ⟨.boolean, List.zipWith (c.promoted (j.common k)) x y⟩

theorem Analyzes.comparesIntegers (hl : Analyzes input l l' (.integer j))
    (hr : Analyzes input r r' (.integer k)) : ComparesIntegers scope input l l' r r' j k := by
  constructor
  · intro hul hur c
    exact RelationScope.analyzeExpr_eq_ok.mpr
      (.compare c hl hr hul hur (comparisonType?_integer j k))
  · intro huntyped c
    cases h : scope.analyzeExpr input (.binary l (.compare c) r) with
    | error e => exact ⟨e, rfl⟩
    | ok result =>
        obtain ⟨e, t⟩ := result
        cases RelationScope.analyzeExpr_eq_ok.mp h with
        | compare _ hl' hr' hul hur _ =>
            cases hl.unique hl'
            cases hr.unique hr'
            simp [hul, hur] at huntyped
  · intro c s hinput b rows v
    have hlgives := hl.givesIntegers hinput b rows
    have hrgives := hr.givesIntegers hinput b rows
    rw [Expr.promotedComparison, Expr.values_compare (hlgives.castTo _) (hrgives.castTo _)]
    constructor
    · rintro ⟨x', y', hx', hy', rfl⟩
      obtain ⟨x, hx, hsame⟩ := (Expr.values_castTo hlgives).mp hx'
      cases hsame
      obtain ⟨y, hy, hsame⟩ := (Expr.values_castTo hrgives).mp hy'
      cases hsame
      exact ⟨x, y, hx, hy, congrArg (Sigma.mk DataType.boolean) (c.column_promote _ x y)⟩
    · rintro ⟨x, y, hx, hy, rfl⟩
      exact ⟨_, _, (Expr.values_castTo hlgives).mpr ⟨x, hx, rfl⟩,
        (Expr.values_castTo hrgives).mpr ⟨y, hy, rfl⟩,
        (congrArg (Sigma.mk DataType.boolean) (c.column_promote _ x y)).symm⟩

/-- What accumulators take of an integer: nothing if it is out of their range. -/
def taken : Option (Whole k) → Option Int
  | some n => if IntKind.int64.Holds n.val then some n.val else none
  | none => none

theorem map_val_ofInt? (n : Option (Whole k)) :
    (n.bind fun n => Whole.ofInt? .int64 n.val).map Subtype.val = taken n := by
  cases n with
  | none => rfl
  | some n =>
      show (Whole.ofInt? .int64 n.val).map Subtype.val = ite _ _ _
      by_cases h : IntKind.int64.Holds n.val
      · rw [Whole.ofInt?_of_holds h, if_pos h]
        rfl
      · rw [Whole.ofInt?, dif_neg h, if_neg h]
        rfl

theorem taken_promote (x : Column (.integer k)) :
    List.map (Option.map Subtype.val) (x.promote .int64) = List.map taken x :=
  (List.map_map ..).trans (List.map_congr_left fun n _ => map_val_ofInt? n)

/-- Sums, minima and maxima of an expression of an integer type are accepted. They come to the exact
results for the integers that accumulators have: over all rows, and in groups among any other
aggregates if these succeed. -/
structure GathersIntegers (scope : RelationScope) (input : Resolver) (l l' : Expr) (k : IntKind) :
    Prop where
  analyzed : ∀ fn : AggregateFn, fn.IsIntegral → scope.analyzeAggregate input ⟨fn, l⟩ =
    .ok (⟨fn, TypedExpr.castTo (l', .integer k) .int64⟩, .int64)
  results : ∀ fn : AggregateFn, fn.IsIntegral → ∀ name (r : Relation) b (x : Column (.integer k)),
    l'.values r.schema b r.rows = .ok ⟨_, x⟩ → fn.GathersAs name (List.map taken x)
      (aggregateRelation r [] [⟨⟨fn, TypedExpr.castTo (l', .integer k) .int64⟩, name⟩] b)
  grouped : ∀ fn : AggregateFn, fn.IsIntegral → ∀ (r : Relation) b (x : Column (.integer k)),
    l'.values r.schema b r.rows = .ok ⟨_, x⟩ → ∀ keys (aggregates : List (Named Aggregate)) i name,
      aggregates[i]? = some ⟨⟨fn, TypedExpr.castTo (l', .integer k) .int64⟩, name⟩ →
        ∀ out, aggregateRelation r keys aggregates b = .ok out → ∃ found,
          List.Forall₂ (fun row key => rowKey keys b row = .ok key) r.rows found ∧
            fn.GroupsAs (keys.length + i) found (List.map taken x) out.rows

theorem Analyzes.gathersIntegers (hl : Analyzes input l l' (.integer k)) :
    GathersIntegers scope input l l' k := by
  constructor
  · intro fn hfn
    refine RelationScope.analyzeAggregate_eq_ok.mpr (.gather ?_ ?_ hl rfl)
    · rcases hfn with rfl | rfl | rfl <;> simp
    · rcases hfn with rfl | rfl | rfl <;> simp
  · intro fn hfn name r b x hx
    exact taken_promote x ▸ gathersAs_aggregateRelation (Expr.values_promote hx .int64) hfn name
  · intro fn hfn r b x hx keys aggregates i name hi out hout
    exact taken_promote x ▸ groupsAs_aggregateRelation (Expr.values_promote hx .int64) hfn hi hout

/-- What becomes of integers in comparisons and aggregates. A pair of integers is compared as it is
if the common type has both, and the same way with the operands exchanged; other pairs and the
integers past the signed range are taken as missing. -/
structure PromotesIntegers (scope : RelationScope) (input : Resolver) (l l' r r' : Expr)
    (j k : IntKind) : Prop where
  compares : ComparesIntegers scope input l l' r r' j k
  comparesFlipped : ComparesIntegers scope input r r' l l' k j
  known : ∀ (c : Comparison) (m : Whole j) (n : Whole k),
    c.promoted (j.common k) (some m) (some n) = some (decide (c.Relates m.val n.val)) ↔
      (j.common k).Holds m.val ∧ (j.common k).Holds n.val
  lossless : (∀ (c : Comparison) (m : Whole j) (n : Whole k),
    c.promoted (j.common k) (some m) (some n) = some (decide (c.Relates m.val n.val))) ↔
      j.signed = k.signed ∨ (j.common k).signed = true ∧ j.rank ≠ k.rank
  flips : ∀ (c : Comparison) (m : Whole j) (n : Whole k),
    c.flip.promoted (k.common j) (some n) (some m) = c.promoted (j.common k) (some m) (some n) ↔
      (j.rank = k.rank → (j.Holds n.val ↔ k.Holds m.val))
  gathers : GathersIntegers scope input l l' j
  takesAll : (∀ n : Whole j, taken (some n) = some n.val) ↔ j ≠ .uint64

theorem promotesIntegers (hl : scope.analyzeExpr input l = .ok (l', .integer j))
    (hr : scope.analyzeExpr input r = .ok (r', .integer k)) :
    PromotesIntegers scope input l l' r r' j k where
  compares := (analyzeExpr_eq_ok.mp hl).comparesIntegers (analyzeExpr_eq_ok.mp hr)
  comparesFlipped := (analyzeExpr_eq_ok.mp hr).comparesIntegers (analyzeExpr_eq_ok.mp hl)
  known c m n := c.promoted_eq_some_iff _ m n
  lossless := by
    rw [← IntKind.common_includes_iff, IntKind.includes_iff, IntKind.includes_iff]
    constructor
    · intro h
      exact ⟨fun m => (((Comparison.eq.promoted_eq_some_iff _ m (Whole.zero k))).mp (h _ _ _)).1,
        fun n => ((Comparison.eq.promoted_eq_some_iff _ (Whole.zero j) n).mp (h _ _ _)).2⟩
    · rintro ⟨hj, hk⟩ c m n
      exact (c.promoted_eq_some_iff _ m n).mpr ⟨hj m, hk n⟩
  flips c m n := c.flip_promoted_iff m n
  gathers := (analyzeExpr_eq_ok.mp hl).gathersIntegers
  takesAll := by
    rw [← IntKind.int64_includes_iff, IntKind.includes_iff]
    exact forall_congr' fun n => by simp [taken]

section Bytes

/-- A signed and an unsigned byte. -/
def byteFields : Schema := [⟨"a", .integer .int8, true⟩, ⟨"b", .integer .uint8, true⟩]

theorem promotesIntegers_bytes :
    noAliases.analyzeExpr (.anonymous byteFields) (.column "a") =
        .ok (.columnRef "a" 0, .integer .int8) ∧
      noAliases.analyzeExpr (.anonymous byteFields) (.column "b") =
        .ok (.columnRef "b" 1, .integer .uint8) ∧
      PromotesIntegers noAliases (.anonymous byteFields) (.column "a") (.columnRef "a" 0)
        (.column "b") (.columnRef "b" 1) .int8 .uint8 :=
  ⟨rfl, rfl, promotesIntegers rfl rfl⟩

/-- One and two hundred. -/
def smallAndLarge : Row byteFields :=
  .cons (some ⟨1, by decide⟩ : DataType.Entry (.integer .int8))
    (.cons (some ⟨200, by decide⟩ : DataType.Entry (.integer .uint8)) .nil)

/-- The first unsigned integer past the signed range. -/
def pastSigned : Relation :=
  ⟨[⟨"u", .integer .uint64, true⟩],
    [[.cons (some ⟨9223372036854775808, by decide⟩ : DataType.Entry (.integer .uint64)) .nil]]⟩

/-- A comparison is unknown that holds with its operands exchanged, and an unsigned integer past
the signed range has no maximum. -/
theorem bytes_lose_integers :
    (∃ e e', noAliases.analyzeExpr (.anonymous byteFields)
        (.binary (.column "a") (.compare .lt) (.column "b")) = .ok (e, .boolean) ∧
      noAliases.analyzeExpr (.anonymous byteFields)
        (.binary (.column "b") (.compare .gt) (.column "a")) = .ok (e', .boolean) ∧
      e.values byteFields [] [smallAndLarge] = .ok ⟨.boolean, [none]⟩ ∧
      e'.values byteFields [] [smallAndLarge] = .ok ⟨.boolean, [some true]⟩) ∧
    ∃ a, noAliases.analyzeAggregate (.anonymous pastSigned.schema) ⟨.max, .column "u"⟩ =
        .ok (a, .int64) ∧
      (aggregateRelation pastSigned [] [⟨a, "top"⟩] []).map Relation.contents =
        .ok ⟨[⟨"top", .int64, true⟩], [.cons none .nil]⟩ := by
  refine ⟨⟨_, _, rfl, rfl, ?_, ?_⟩, _, rfl, ?_⟩
  · rfl
  · rfl
  · rfl

end Bytes

end RelationScope

end RelScript
