import Mathlib.Data.List.Nodup
import RelScript.Proofs.Analysis.Reanalysis

/-!
The columns of an input and the texts that refer to them. The fields of the parts of an input stand
one after the other; a text is resolved if and only if it refers to one field alone, and the
position that it is resolved to is the place of that field among all of them.
-/

namespace RelScript

section Texts

/-- A column text without an alias in front of the name. -/
def Unqualified (text : String) : Prop := ¬ [':', ':'] <:+: text.toList

theorem splitQualifier_eq_none_iff {text : List Char} :
    splitQualifier text = none ↔ ¬ [':', ':'] <:+: text := by
  fun_induction splitQualifier text with
  | case1 rest => simpa using List.prefix_append [':', ':'] rest |>.isInfix
  | case2 c rest hcolons ih =>
      rw [Option.map_eq_none_iff, ih, List.infix_cons_iff, not_or]
      refine (and_iff_right ?_).symm
      rintro ⟨tail, htail⟩
      rw [List.cons_append, List.cons_append, List.nil_append, List.cons.injEq] at htail
      exact hcolons tail htail.1.symm htail.2.symm
  | case3 => simp

theorem columnName_of_unqualified {text : String} (h : Unqualified text) :
    columnName text = (none, text) := by
  rw [columnName, splitQualifier_eq_none_iff.mpr h]

theorem splitQualifier_eq_some_iff {text a n : List Char} :
    splitQualifier text = some (a, n) ↔
      text = a ++ ':' :: ':' :: n ∧ ¬ [':', ':'] <:+: a ++ [':'] := by
  fun_induction splitQualifier text generalizing a with
  | case1 rest =>
      rcases a with _ | ⟨c, a⟩
      · have hshort : ¬ [':', ':'] <:+: [':'] := fun h => absurd h.length_le (by decide)
        simp [hshort, eq_comm]
      · have hcolons : ':' :: ':' :: rest = c :: a ++ ':' :: ':' :: n →
            [':', ':'] <:+: c :: a ++ [':'] := by
          rcases a with _ | ⟨d, a⟩
          · rintro ⟨⟩
            exact List.infix_rfl
          · rintro ⟨⟩
            exact (List.prefix_append [':', ':'] (a ++ [':'])).isInfix
        simpa using hcolons
  | case2 c rest hcolons ih =>
      rcases a with _ | ⟨d, a⟩
      · have hne : c :: rest ≠ ':' :: ':' :: n := by
          rintro ⟨⟩
          exact hcolons n rfl rfl
        simp [hne]
      · have hfirst : rest = a ++ ':' :: ':' :: n → c = d → ':' = d → ¬ [':'] <+: a ++ [':'] := by
          rintro rfl rfl rfl ⟨tail, htail⟩
          exact hcolons (tail ++ ':' :: n) rfl (by simpa using congrArg (· ++ ':' :: n) htail.symm)
        simp [ih, List.infix_cons_iff]
        tauto
  | case3 => simp

/-- A column text means the fields of a name in the relations of an alias: it is the name with the
alias in front of it, or the name alone, which does not matter to the alias. The first two colons
of a text divide the alias from the name. -/
inductive RefersTo : (text aliasName name : String) → Prop
  | qualified (aliasName name : String) (h : Unqualified (aliasName ++ ":")) :
      RefersTo (aliasName ++ "::" ++ name) aliasName name
  | plain (aliasName name : String) (h : Unqualified name) : RefersTo name aliasName name

theorem columnName_of_qualified {aliasName : String} (h : Unqualified (aliasName ++ ":"))
    (name : String) : columnName (aliasName ++ "::" ++ name) = (some aliasName, name) := by
  have hsplit : splitQualifier (aliasName ++ "::" ++ name).toList =
      some (aliasName.toList, name.toList) := by
    rw [splitQualifier_eq_some_iff]
    exact ⟨by simp, by simpa [Unqualified] using h⟩
  rw [columnName, hsplit]
  simp

theorem exists_qualified {text : String} (h : ¬ Unqualified text) :
    ∃ aliasName name, text = aliasName ++ "::" ++ name ∧ Unqualified (aliasName ++ ":") := by
  rw [Unqualified, ← splitQualifier_eq_none_iff, ← ne_eq, Option.ne_none_iff_exists'] at h
  obtain ⟨⟨a, n⟩, hsplit⟩ := h
  obtain ⟨htext, hfirst⟩ := splitQualifier_eq_some_iff.mp hsplit
  refine ⟨String.ofList a, String.ofList n, ?_, by simpa [Unqualified] using hfirst⟩
  rw [← String.toList_inj, htext]
  simp

theorem Resolver.refersTo_iff {text a : String} {f : Field} :
    refersTo text (a, f) = true ↔ RefersTo text a f.name := by
  constructor
  · intro h
    by_cases htext : Unqualified text
    · rw [refersTo, columnName_of_unqualified htext] at h
      obtain rfl : f.name = text := by simpa using h
      exact .plain a f.name htext
    · obtain ⟨aliasName, name, rfl, hfirst⟩ := exists_qualified htext
      rw [refersTo, columnName_of_qualified hfirst] at h
      obtain ⟨rfl, rfl⟩ : a = aliasName ∧ f.name = name := by simpa using h
      exact .qualified a f.name hfirst
  · intro h
    cases h with
    | qualified _ _ hfirst => simp [refersTo, columnName_of_qualified hfirst]
    | plain _ _ hname => simp [refersTo, columnName_of_unqualified hname]

end Texts

namespace Resolver

section Places

/-- The relations of an input; an undeclared input has none. -/
def parts : Resolver → List InputPart
  | known parts => parts
  | unknown => []

/-- The number of fields in front of a part. -/
def base (parts : List InputPart) (k : Nat) : Nat := ((parts.take k).flatMap (·.fields)).length

/-- The field `f` is the one at `j` in the part at `k`, whose alias is `a`. -/
def FieldAt (parts : List InputPart) (k j : Nat) (a : String) (f : Field) : Prop :=
  ∃ p, parts[k]? = some p ∧ p.aliasName = a ∧ p.fields[j]? = some f

variable {p : InputPart} {parts : List InputPart} {k j k' j' : Nat} {a a' : String} {f f' : Field}

theorem base_zero : base parts 0 = 0 := rfl

theorem base_cons_succ : base (p :: parts) (k + 1) = p.fields.length + base parts k := by
  simp [base]

theorem fieldAt_cons_zero :
    FieldAt (p :: parts) 0 j a f ↔ p.aliasName = a ∧ p.fields[j]? = some f := by
  simp [FieldAt]

theorem fieldAt_cons_succ : FieldAt (p :: parts) (k + 1) j a f ↔ FieldAt parts k j a f := by
  simp [FieldAt]

/-- The columns are the fields of the parts, each one at the number of fields in front of its part
and before it in the part. -/
theorem getElem?_columns {i : Nat} :
    (columns parts)[i]? = some (a, f) ↔ ∃ k j, i = base parts k + j ∧ FieldAt parts k j a f := by
  induction parts generalizing i with
  | nil => simp [columns, FieldAt]
  | cons p parts ih =>
      rw [columns_cons, ← Nat.or_exists_add_one, List.getElem?_append, List.length_map]
      simp only [base_zero, base_cons_succ, fieldAt_cons_zero, fieldAt_cons_succ, Nat.zero_add,
        exists_eq_left', Nat.add_assoc]
      split
      · rename_i hlt
        have hnot : ¬ ∃ k j, i = p.fields.length + (base parts k + j) ∧ FieldAt parts k j a f := by
          rintro ⟨k, j, rfl, -⟩
          omega
        rw [or_iff_left hnot, List.getElem?_map]
        simp [and_comm]
      · rename_i hge
        have hnot : p.fields[i]? = none := List.getElem?_eq_none (by omega)
        rw [ih, hnot]
        simp [Nat.sub_eq_iff_eq_add' (Nat.le_of_not_lt hge)]

theorem FieldAt.lt_base (h : FieldAt parts k j a f) (hk : k < k') :
    base parts k + j < base parts k' := by
  induction parts generalizing k k' with
  | nil => simp [FieldAt] at h
  | cons p parts ih =>
      obtain ⟨k', rfl⟩ := Nat.exists_eq_add_one_of_ne_zero (Nat.ne_zero_of_lt hk)
      rw [base_cons_succ]
      cases k with
      | zero =>
          obtain ⟨-, hj⟩ := fieldAt_cons_zero.mp h
          have hlt := (List.getElem?_eq_some_iff.mp hj).1
          rw [base_zero]
          omega
      | succ k =>
          have hlt := ih (fieldAt_cons_succ.mp h) (Nat.lt_of_succ_lt_succ hk)
          rw [base_cons_succ]
          omega

theorem FieldAt.functional (h : FieldAt parts k j a f) (h' : FieldAt parts k j a' f') :
    a = a' ∧ f = f' := by
  obtain ⟨p, hp, rfl, hf⟩ := h
  obtain ⟨p', hp', rfl, hf'⟩ := h'
  obtain rfl : p = p' := Option.some.inj (hp.symm.trans hp')
  exact ⟨rfl, Option.some.inj (hf.symm.trans hf')⟩

theorem FieldAt.unique (h : FieldAt parts k j a f) (h' : FieldAt parts k' j' a' f')
    (heq : base parts k + j = base parts k' + j') : k = k' ∧ j = j' := by
  rcases Nat.lt_trichotomy k k' with hk | rfl | hk
  · have := h.lt_base hk
    omega
  · exact ⟨rfl, by omega⟩
  · have := h'.lt_base hk
    omega

end Places

section Resolution

variable {parts : List InputPart} {text : String} {r : Resolver} {k j k' j' : Nat} {a a' : String}
  {f f' : Field}

/-- The text refers to the field at `j` in the relation at `k` of the input. -/
structure Matches (r : Resolver) (text : String) (k j : Nat) (a : String) (f : Field) : Prop where
  field : FieldAt r.parts k j a f
  refers : RefersTo text a f.name

/-- The field is the one at the position, in the schema as well as for a positional reference. -/
structure HoldsAt (r : Resolver) (i : Nat) (f : Field) : Prop where
  schema : ∃ s, r.schema = some s ∧ s[i]? = some f
  position : r.position i = .ok (f.name, f.type)

theorem resolve_eq_ok_iff {found : Nat × DataType} :
    (known parts).resolve text = .ok found ↔ candidates parts text = [found] := by
  rw [resolve]
  split <;> simp_all

theorem mem_candidates {i : Nat} {t : DataType} :
    (i, t) ∈ candidates parts text ↔
      ∃ k j a f, (known parts).Matches text k j a f ∧ i = base parts k + j ∧ f.type = t := by
  have hcolumn : (i, t) ∈ candidates parts text ↔
      ∃ a f, (columns parts)[i]? = some (a, f) ∧ RefersTo text a f.name ∧ f.type = t := by
    simp [candidates_eq, List.mem_zipIdx_iff_getElem?, refersTo_iff, and_assoc]
  rw [hcolumn]
  constructor
  · rintro ⟨a, f, hf, htext, ht⟩
    obtain ⟨k, j, hi, hfield⟩ := getElem?_columns.mp hf
    exact ⟨k, j, a, f, ⟨hfield, htext⟩, hi, ht⟩
  · rintro ⟨k, j, a, f, ⟨hfield, htext⟩, hi, ht⟩
    exact ⟨a, f, getElem?_columns.mpr ⟨k, j, hi, hfield⟩, htext, ht⟩

theorem nodup_candidates (parts : List InputPart) (text : String) :
    (candidates parts text).Nodup := by
  have hsublist : ((candidates parts text).map Prod.fst).Sublist
      ((columns parts).zipIdx.map Prod.snd) := by
    rw [candidates_eq, List.map_map]
    exact List.filter_sublist.map _
  rw [List.zipIdx_map_snd] at hsublist
  exact .of_map _ (hsublist.nodup List.nodup_range')

/-- A text is resolved to a position if and only if one field alone matches, and that is its
place. -/
theorem resolve_eq_ok_iff_unique {i : Nat} {t : DataType} :
    r.resolve text = .ok (i, t) ↔ ∃ k j a f, r.Matches text k j a f ∧
      (∀ k' j' a' f', r.Matches text k' j' a' f' → k' = k ∧ j' = j) ∧
      i = base r.parts k + j ∧ f.type = t := by
  cases r with
  | unknown =>
      refine iff_of_false (by simp [resolve]) ?_
      rintro ⟨k, j, a, f, ⟨⟨p, hp, -⟩, -⟩, -⟩
      cases hp
  | known parts =>
      -- No two candidates share a position, so they are one alone as soon as all are the same.
      have hall : candidates parts text = [(i, t)] ↔
          ∀ i' t', (i', t') ∈ candidates parts text ↔ i' = i ∧ t' = t := by
        rw [← List.perm_singleton,
          List.perm_ext_iff_of_nodup (nodup_candidates parts text) (List.nodup_singleton _)]
        simp
      rw [resolve_eq_ok_iff, hall]
      constructor
      · intro h
        obtain ⟨k, j, a, f, hmatch, hi, ht⟩ := mem_candidates.mp ((h i t).mpr ⟨rfl, rfl⟩)
        refine ⟨k, j, a, f, hmatch, fun k' j' a' f' hmatch' => ?_, hi, ht⟩
        have hsame := (h _ _).mp (mem_candidates.mpr ⟨k', j', a', f', hmatch', rfl, rfl⟩)
        exact hmatch'.field.unique hmatch.field (hsame.1.trans hi)
      · rintro ⟨k, j, a, f, hmatch, hunique, rfl, rfl⟩ i' t'
        constructor
        · intro h
          obtain ⟨k', j', a', f', hmatch', rfl, rfl⟩ := mem_candidates.mp h
          obtain ⟨rfl, rfl⟩ := hunique k' j' a' f' hmatch'
          obtain ⟨rfl, rfl⟩ := hmatch'.field.functional hmatch.field
          exact ⟨rfl, rfl⟩
        · rintro ⟨rfl, rfl⟩
          exact mem_candidates.mpr ⟨k, j, a, f, hmatch, rfl, rfl⟩

theorem resolve_of_no_match (h : ∀ k j a f, ¬ r.Matches text k j a f) :
    ∃ e, r.resolve text = .error e := by
  cases hresolve : r.resolve text with
  | error e => exact ⟨e, rfl⟩
  | ok found =>
      obtain ⟨k, j, a, f, hmatch, -⟩ := resolve_eq_ok_iff_unique.mp hresolve
      exact absurd hmatch (h k j a f)

theorem resolve_of_two_matches (h : r.Matches text k j a f) (h' : r.Matches text k' j' a' f')
    (hne : ¬ (k' = k ∧ j' = j)) : r.resolve text = .error (.planning (.ambiguousColumn text)) := by
  cases r with
  | unknown =>
      obtain ⟨p, hp, -⟩ := h.field
      cases hp
  | known parts =>
      have hmem := mem_candidates.mpr ⟨k, j, a, f, h, rfl, rfl⟩
      rw [resolve]
      split
      · rename_i hnone
        rw [hnone] at hmem
        cases hmem
      · rename_i found hone
        obtain ⟨k₀, j₀, a₀, f₀, -, hunique, -⟩ :=
          resolve_eq_ok_iff_unique.mp (resolve_eq_ok_iff.mpr hone)
        obtain ⟨rfl, rfl⟩ := hunique k j a f h
        exact absurd (hunique k' j' a' f' h') hne
      · rfl

theorem getElem?_schema {i : Nat} :
    (∃ s, r.schema = some s ∧ s[i]? = some f) ↔
      ∃ k j a, FieldAt r.parts k j a f ∧ i = base r.parts k + j := by
  cases r with
  | unknown => simp [schema, parts, FieldAt]
  | known parts =>
      have hcolumn : (∃ s, (known parts).schema = some s ∧ s[i]? = some f) ↔
          ∃ a, (columns parts)[i]? = some (a, f) := by
        simp [schema]
      simp only [hcolumn, getElem?_columns]
      constructor
      · rintro ⟨a, k, j, hi, hfield⟩
        exact ⟨k, j, a, hfield, hi⟩
      · rintro ⟨k, j, a, hfield, hi⟩
        exact ⟨a, k, j, hi, hfield⟩

theorem holdsAt_iff {i : Nat} :
    r.HoldsAt i f ↔ ∃ k j a, FieldAt r.parts k j a f ∧ i = base r.parts k + j := by
  rw [← getElem?_schema]
  constructor
  · exact HoldsAt.schema
  · rintro ⟨s, hs, hf⟩
    refine ⟨⟨s, hs, hf⟩, ?_⟩
    rw [position_eq, hs]
    dsimp only
    rw [hf]

theorem exists_position_eq_error_iff {i : Nat} :
    (∃ e, r.position i = .error e) ↔ ∃ s, r.schema = some s ∧ s.length ≤ i := by
  rw [position_eq]
  cases r.schema with
  | none => simp
  | some s =>
      simp only [Option.some.injEq, exists_eq_left', ← List.getElem?_eq_none_iff]
      cases s[i]? <;> simp

/-- A column text is resolved if and only if it refers to one field alone, to the number of fields
in front of that one, which is where the schema and positional references have it. Without such a
field it is refused, and so is a position that is past the last field, but no other. -/
theorem resolve_findsPlace (r : Resolver) (text : String) :
    (∀ i t, r.resolve text = .ok (i, t) ↔ ∃ k j a f, r.Matches text k j a f ∧
      (∀ k' j' a' f', r.Matches text k' j' a' f' → k' = k ∧ j' = j) ∧
      i = base r.parts k + j ∧ f.type = t) ∧
    (∀ i f, r.HoldsAt i f ↔ ∃ k j a, FieldAt r.parts k j a f ∧ i = base r.parts k + j) ∧
    ((∀ k j a f, ¬ r.Matches text k j a f) → ∃ e, r.resolve text = .error e) ∧
    (∀ k j a f k' j' a' f', r.Matches text k j a f → r.Matches text k' j' a' f' →
      ¬ (k' = k ∧ j' = j) → r.resolve text = .error (.planning (.ambiguousColumn text))) ∧
    (∀ i, (∃ e, r.position i = .error e) ↔ ∃ s, r.schema = some s ∧ s.length ≤ i) :=
  ⟨fun _ _ => resolve_eq_ok_iff_unique, fun _ _ => holdsAt_iff, resolve_of_no_match,
    fun _ _ _ _ _ _ _ _ => resolve_of_two_matches, fun _ => exists_position_eq_error_iff⟩

/-- The orders joined to themselves, behind a relation without fields. -/
def ordersTwice : Resolver :=
  ((ofRelation "none" (some [])).join (ofRelation "orders" (some RelationScope.orderFields))).join
    (ofRelation "orders" (some [⟨"id", .integer .int32, true⟩]))

theorem resolve_findsPlace_ordersTwice :
    ordersTwice.resolve "orders::amount" = .ok (1, .binary) ∧
      ordersTwice.resolve "orders::id" = .error (.planning (.ambiguousColumn "orders::id")) := by
  have hfirst : Unqualified ("orders" ++ ":") := splitQualifier_eq_none_iff.mp rfl
  have hmatch : ∀ k, (k = 1 ∨ k = 2) →
      ordersTwice.Matches "orders::id" k 0 "orders" ⟨"id", .integer .int32, true⟩ := by
    rintro k (rfl | rfl)
    · exact ⟨⟨⟨"orders", RelationScope.orderFields⟩, rfl, rfl, rfl⟩,
        .qualified "orders" "id" hfirst⟩
    · exact ⟨⟨⟨"orders", [⟨"id", .integer .int32, true⟩]⟩, rfl, rfl, rfl⟩,
        .qualified "orders" "id" hfirst⟩
  refine ⟨rfl, ?_⟩
  exact (resolve_findsPlace ordersTwice "orders::id").2.2.2.1 1 0 _ _ 2 0 _ _
    (hmatch 1 (.inl rfl)) (hmatch 2 (.inr rfl)) (by decide)

end Resolution

end Resolver

end RelScript
