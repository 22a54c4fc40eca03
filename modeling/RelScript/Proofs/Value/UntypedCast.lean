import RelScript.Proofs.Execution.Alike
import RelScript.Proofs.Value.Casting
import RelScript.Proofs.Value.Cells

/-!
Casts of cells by way of raw bytes. A field of a scalar relation without a schema is taken as raw
bytes before it is cast to the type that is wanted. Text and raw bytes come to the same either way.
An integer does not: its bytes are those of its memory, not those of its digits. And truth values
and floats have no bytes at all.
-/

namespace RelScript

namespace DataType

/-- Whether text can be cast to the type. -/
def isCastTarget : DataType → Bool
  | null | duration _ => false
  | _ => true

/-- Whether cells of the type come to the same in the target when they are taken as raw bytes
first. -/
def castsByBytes : (t target : DataType) → Bool
  | null, _ | text _, _ | bytes _, _ | _, bytes _ => true
  | boolean, date _ | float _, date _ => true
  | _, _ => false

variable {t target : DataType}

theorem exists_conversion_text (h : target.isCastTarget = true) :
    ∃ f, conversion? .utf8 target = some f := by
  cases target <;> first | exact ⟨_, rfl⟩ | cases h

theorem conversion?_text (e : Extent) (target : DataType) :
    conversion? (.text e) target = conversion? .utf8 target := by
  cases target <;> rfl

end DataType

/-- A cell cast to the target, and cast to the target once it is raw bytes: both fail, or both give
one value. -/
def CastsAlike (x : (t : DataType) × t.Entry) (target : DataType) : Prop :=
  Alike Eq (Column.cast [x.2] target)
    (Column.cast [x.2] .binary >>= fun c => Column.cast c target)

theorem castsAlike_of_ok {x : (t : DataType) × t.Entry} {target : DataType} {v : target.Entry}
    {e : DataType.binary.Entry} (hcast : Column.cast [x.2] target = .ok [v])
    (hbytes : Column.cast [x.2] .binary = .ok [e])
    (hback : Column.cast (a := .binary) [e] target = .ok [v]) : CastsAlike x target := by
  rw [CastsAlike, hcast, hbytes]
  show Alike Eq _ (Column.cast _ _)
  rw [hback]
  exact Alike.refl _

theorem castsAlike_of_error {x : (t : DataType) × t.Entry} {target : DataType}
    (hcast : ∃ f, Column.cast [x.2] target = .error f)
    (hbytes : ∃ f, Column.cast [x.2] .binary = .error f) : CastsAlike x target := by
  obtain ⟨f, hf⟩ := hcast
  obtain ⟨g, hg⟩ := hbytes
  rw [CastsAlike, hf, hg]
  trivial

section Casts

variable {target : DataType}

theorem exists_cast_binary (h : target.isCastTarget = true) :
    ∃ f : DataType.binary.Entry → target.Entry, ∀ (e : Extent) (c : Column (.bytes e)),
      c.cast target = .ok (c.map f) := by
  cases hkind : target.isUntyped with
  | true =>
      cases target with
      | bytes e' =>
          refine ⟨id, fun e c => ?_⟩
          rw [Column.cast_bytes_bytes e']
          exact congrArg Except.ok (List.map_id c).symm
      | _ => cases hkind
  | false =>
      obtain ⟨f, hf⟩ := DataType.exists_conversion_text h
      exact ⟨fun entry => entry.bind fun b => (String.fromUTF8? b).bind f,
        fun e c => Column.cast_bytes hkind hf c⟩

theorem castsAlike_bytes (e : Extent) (entry : (DataType.bytes e).Entry)
    (h : target.isCastTarget = true) : CastsAlike ⟨.bytes e, entry⟩ target := by
  obtain ⟨f, hf⟩ := exists_cast_binary h
  exact castsAlike_of_ok (hf e [entry]) (Column.cast_bytes_bytes .short _) (hf .short [entry])

theorem cast_bytes_of_text {f : String → target.Entry} (hf : conversion? .utf8 target = some f)
    (entry : Option String) :
    Column.cast (a := .binary) [entry.map String.toUTF8] target = .ok [entry.bind f] := by
  cases hkind : target.isUntyped with
  | true =>
      cases target with
      | bytes e' =>
          cases hf
          rw [Column.cast_bytes_bytes e']
          cases entry <;> rfl
      | _ => cases hkind
  | false =>
      rw [Column.cast_bytes hkind hf]
      cases entry with
      | none => rfl
      | some s =>
          show Except.ok [(String.fromUTF8? s.toUTF8).bind f] = _
          rw [fromUTF8?_toUTF8]

theorem castsAlike_text (e : Extent) (entry : Option String) (h : target.isCastTarget = true) :
    CastsAlike ⟨.text e, entry⟩ target := by
  obtain ⟨f, hf⟩ := DataType.exists_conversion_text h
  apply castsAlike_of_ok (v := entry.bind f) (e := entry.map String.toUTF8)
  · exact Column.cast_text ((DataType.conversion?_text e target).trans hf) _
  · refine (Column.cast_text (t := .binary) (f := fun s => some s.toUTF8) rfl _).trans ?_
    cases entry <;> rfl
  · exact cast_bytes_of_text hf entry

theorem castsAlike_null (entry : DataType.null.Entry) (h : target.isCastTarget = true) :
    CastsAlike ⟨.null, entry⟩ target := by
  obtain ⟨f, hf⟩ := DataType.exists_conversion_text h
  have hne : DataType.null ≠ target := by
    rintro rfl
    cases h
  cases entry with
  | some v => exact v.elim
  | none =>
      apply castsAlike_of_ok (v := none) (e := none)
      · exact Column.cast_of_conversion (a := .null) rfl hne rfl (fun v => Empty.elim v) _
      · exact Column.cast_of_conversion (a := .null) rfl (by decide) rfl (fun v => Empty.elim v) _
      · exact cast_bytes_of_text hf none

theorem castsAlike_of_bytes {t : DataType} (e : Extent) (entry : t.Entry) :
    CastsAlike ⟨t, entry⟩ (.bytes e) := by
  cases t with
  | null => exact castsAlike_null entry rfl
  | text e' => exact castsAlike_text e' entry rfl
  | bytes e' => exact castsAlike_bytes e' entry rfl
  | integer k =>
      have hcast : ∀ e, Column.cast [entry] (.bytes e) = .ok [entry.bind fun n =>
          some ⟨(littleEndian k.width (Subtype.val n)).toArray⟩] := fun e =>
        Column.cast_of_conversion rfl (by simp) rfl (fun _ => rfl) [entry]
      exact castsAlike_of_ok (hcast e) (hcast .short) (Column.cast_bytes_bytes e _)
  | boolean | float _ | date _ | duration _ =>
      have hnone : ∀ e, ∃ f, Column.cast [entry] (.bytes e) = .error f := fun e =>
        Column.exists_cast_error rfl (by simp) rfl [entry]
      exact castsAlike_of_error (hnone e) (hnone .short)

theorem castsAlike_of_castsByBytes {t : DataType} (htypes : t.castsByBytes target = true)
    (h : target.isCastTarget = true) (entry : t.Entry) : CastsAlike ⟨t, entry⟩ target := by
  cases t with
  | null => exact castsAlike_null entry h
  | text e => exact castsAlike_text e entry h
  | bytes e => exact castsAlike_bytes e entry h
  | boolean | float _ | integer _ | date _ | duration _ =>
      cases target with
      | bytes e => exact castsAlike_of_bytes e entry
      | date d =>
          first
            | exact castsAlike_of_error (Column.exists_cast_error rfl (by simp) rfl [entry])
                (Column.exists_cast_error rfl (by simp) rfl [entry])
            | cases htypes
      | _ => cases htypes

end Casts

section Differences

variable {target : DataType}

theorem not_castsAlike_of_error {x : (t : DataType) × t.Entry} {v : Column target}
    (hcast : Column.cast [x.2] target = .ok v)
    (hbytes : ∃ f, Column.cast [x.2] .binary = .error f) : ¬ CastsAlike x target := by
  obtain ⟨f, hf⟩ := hbytes
  rw [CastsAlike, hcast, hf]
  exact id

theorem not_castsAlike_of_ne {x : (t : DataType) × t.Entry} {e : DataType.binary.Entry}
    {v : target.Entry} (hcast : Column.cast [x.2] target ≠ .ok [v])
    (hbytes : Column.cast [x.2] .binary = .ok [e])
    (hback : Column.cast (a := .binary) [e] target = .ok [v]) : ¬ CastsAlike x target := by
  rw [CastsAlike, hbytes]
  show ¬ Alike Eq _ (Column.cast _ _)
  rw [hback]
  cases hcolumn : Column.cast [x.2] target with
  | error f => exact id
  | ok column => exact fun hsame => hcast (hcolumn.trans (congrArg Except.ok hsame))

theorem not_castsAlike_missing {t : DataType} (hkind : t.isUntyped = false)
    {f : t.Carrier → target.Entry} (hf : conversion? t target = some f)
    (hcalendar : ∀ v, beyondCalendar? t target v = none) (hbytes : conversion? t .binary = none) :
    ¬ CastsAlike ⟨t, none⟩ target := by
  have hcast : ∃ column, Column.cast ([none] : Column t) target = .ok column := by
    by_cases hsame : t = target
    · subst hsame
      exact ⟨_, Column.cast_self _⟩
    · exact ⟨_, Column.cast_of_conversion (by rw [hkind]; rfl) hsame hf hcalendar _⟩
  obtain ⟨column, hcolumn⟩ := hcast
  refine not_castsAlike_of_error hcolumn (Column.exists_cast_error (by rw [hkind]; rfl) ?_ hbytes _)
  rintro rfl
  cases hkind

/-- The text whose bytes are those of zero. -/
def zeroText (k : IntKind) : String := String.ofList (List.replicate k.width (Char.ofNat 0))

theorem toUTF8_zeroText (k : IntKind) :
    (zeroText k).toUTF8 = ⟨(littleEndian k.width 0).toArray⟩ := by
  cases k <;> decide

theorem readBool?_zeroText (k : IntKind) : readBool? (zeroText k) = none := by
  cases k <;> decide

theorem readInteger?_zeroText (k : IntKind) : readInteger? (zeroText k).toList = none := by
  cases k <;> decide

theorem read?_zeroText (k : IntKind) (f : FloatKind) :
    Ieee.read? f.format (zeroText k).toList = none := by
  cases k <;> cases f <;> decide

theorem readDate?_zeroText (k : IntKind) (d : DateKind) : readDate? d (zeroText k) = none := by
  cases k <;> cases d <;> decide

theorem zeroText_ne (k : IntKind) : zeroText k ≠ "0" := by
  cases k <;> decide

def zeroEntry (k : IntKind) : (DataType.integer k).Entry := some (Whole.zero k)

theorem not_castsAlike_zero (target : DataType) (k : IntKind) {f : String → target.Entry}
    (hf : conversion? .utf8 target = some f)
    (hcast : Column.cast [zeroEntry k] target ≠ .ok [f (zeroText k)]) :
    ¬ CastsAlike ⟨.integer k, zeroEntry k⟩ target := by
  apply not_castsAlike_of_ne hcast _ (cast_bytes_of_text hf (some (zeroText k)))
  refine (Column.cast_of_conversion (a := .integer k) rfl (by simp) rfl (fun _ => rfl) _).trans ?_
  exact congrArg (fun b => Except.ok [some b]) (toUTF8_zeroText k).symm

theorem cast_zero_ne_missing (k : IntKind)
    (hsome : ∀ g, conversion? (.integer k) target = some g → g (Whole.zero k) ≠ none) :
    Column.cast [zeroEntry k] target ≠ .ok [none] := by
  by_cases hsame : DataType.integer k = target
  · subst hsame
    rw [Column.cast_self]
    exact fun h => Option.some_ne_none _ (List.head_eq_of_cons_eq (Except.ok.inj h))
  · cases hconversion : conversion? (.integer k) target with
    | none =>
        obtain ⟨e, he⟩ := Column.exists_cast_error (a := .integer k) rfl hsame hconversion
          [zeroEntry k]
        rw [he]
        nofun
    | some g =>
        rw [Column.cast_of_conversion (a := .integer k) rfl hsame hconversion (fun _ => rfl)]
        exact fun h => hsome g hconversion (List.head_eq_of_cons_eq (Except.ok.inj h))

theorem not_castsAlike_integer (k : IntKind) (h : target.isCastTarget = true)
    (htypes : (DataType.integer k).castsByBytes target = false) :
    ¬ CastsAlike ⟨.integer k, zeroEntry k⟩ target := by
  -- No type reads a text of control characters, so zero is lost; as a text it is another one.
  cases target with
  | boolean =>
      apply not_castsAlike_zero .boolean k (f := readBool?) rfl
      rw [readBool?_zeroText]
      exact cast_zero_ne_missing k (by rintro g ⟨⟩; nofun)
  | integer k' =>
      apply not_castsAlike_zero (.integer k') k
        (f := fun s => (readInteger? (String.toList s)).bind (Whole.ofInt? k')) rfl
      rw [readInteger?_zeroText]
      refine cast_zero_ne_missing k ?_
      rintro g ⟨⟩
      exact (Whole.ofInt?_val (Whole.zero k')).trans_ne nofun
  | float f =>
      apply not_castsAlike_zero (.float f) k
        (f := fun s => Ieee.read? f.format (String.toList s)) rfl
      rw [read?_zeroText]
      exact cast_zero_ne_missing k (by rintro g ⟨⟩; nofun)
  | text e =>
      apply not_castsAlike_zero (.text e) k (f := some) rfl
      rw [Column.cast_of_conversion (a := .integer k) rfl (by simp) rfl (fun _ => rfl)]
      intro hsame
      exact zeroText_ne k (Option.some.inj (List.head_eq_of_cons_eq (Except.ok.inj hsame))).symm
  | date d =>
      apply not_castsAlike_zero (.date d) k (f := readDate? d) rfl
      rw [readDate?_zeroText]
      refine cast_zero_ne_missing k ?_
      cases k <;> cases d <;> rintro g ⟨⟩ <;> nofun
  | bytes e => cases htypes
  | null | duration _ => cases h

theorem exists_not_castsAlike {t : DataType} (ht : t.isReadable = true)
    (h : target.isCastTarget = true) (htypes : t.castsByBytes target = false) :
    ∃ entry, ¬ CastsAlike ⟨t, entry⟩ target := by
  cases t with
  | integer k => exact ⟨zeroEntry k, not_castsAlike_integer k h htypes⟩
  | boolean | float _ =>
      refine ⟨none, ?_⟩
      cases target with
      | boolean | integer _ | float _ | text _ =>
          exact not_castsAlike_missing rfl rfl (fun _ => rfl) rfl
      | bytes _ | date _ => cases htypes
      | null | duration _ => cases h
  | null | text _ | bytes _ => cases htypes
  | date _ | duration _ => cases ht

/-- The casts come to the same for all cells of a type exactly where the types allow it. -/
theorem castsAlike_iff {t : DataType} (ht : t.isReadable = true) (h : target.isCastTarget = true) :
    (∀ entry, CastsAlike ⟨t, entry⟩ target) ↔ t.castsByBytes target = true := by
  constructor
  · intro hall
    by_contra htypes
    obtain ⟨entry, hentry⟩ := exists_not_castsAlike ht h (by simpa using htypes)
    exact hentry (hall entry)
  · exact fun htypes => castsAlike_of_castsByBytes htypes h

end Differences

end RelScript
