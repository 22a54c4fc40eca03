import RelScript.Proofs.Ieee.WrittenForm
import RelScript.Value.Cast

/-!
Casts from text and from raw bytes. What was written as text is read again: truth values and
integers from their words and digits, and text from its bytes.
-/

namespace RelScript

section Reading

theorem fromUTF8?_toUTF8 (s : String) : String.fromUTF8? s.toUTF8 = some s :=
  dif_pos s.isValidUTF8

theorem readBool?_text (b : Bool) : readBool? (Bool.text b) = some b := by
  cases b <;> decide

theorem readInteger?_of_split {text digits : List Char} {negative : Bool}
    (hsplit : Ieee.splitSign text = (negative, digits)) (hne : digits ≠ [])
    (hdigits : Ieee.Digits digits) :
    readInteger? text = some (if negative then -Int.ofNat (Ieee.digitsValue digits)
      else Ieee.digitsValue digits) := by
  have hall : digits.all Char.isDigit = true := List.all_eq_true.mpr hdigits
  simp only [readInteger?, hsplit]
  rw [if_pos ⟨hne, hall⟩]

theorem readInteger?_toString (n : Int) : readInteger? (toString n).toList = some n := by
  have hne : ∀ n : Nat, n.repr.toList ≠ [] := by simp
  rw [Int.toString_eq_repr, Int.repr_eq_if]
  rcases lt_or_ge n 0 with hneg | hpos
  · have hsplit : Ieee.splitSign ("-" ++ (-n).toNat.repr).toList =
        (true, (-n).toNat.repr.toList) := by
      rw [String.toList_append]
      rfl
    have hvalue : (((-n).toNat : ℕ) : ℤ) = -n := Int.toNat_of_nonneg (by omega)
    rw [if_neg (not_le.mpr hneg), readInteger?_of_split hsplit (hne _) (Ieee.digits_repr _),
      Ieee.digitsValue_repr, if_pos rfl, Int.ofNat_eq_natCast, hvalue, neg_neg]
  · have hvalue : ((n.toNat : ℕ) : ℤ) = n := Int.toNat_of_nonneg hpos
    rw [if_pos hpos, readInteger?_of_split (Ieee.splitSign_digits (Ieee.digits_repr _)) (hne _)
      (Ieee.digits_repr _), Ieee.digitsValue_repr, if_neg Bool.false_ne_true, hvalue]

end Reading

namespace Column

variable {a b t : DataType} {e : Extent}

theorem cast_self (c : Column t) : c.cast t = .ok c := by
  have hkind : (t.isUntyped && !t.isUntyped) = false := by cases t.isUntyped <;> rfl
  rw [cast, hkind, if_neg Bool.false_ne_true, convert, dif_pos rfl]
  rfl

theorem convert_of_conversion (hab : a ≠ b) {f : a.Carrier → b.Entry}
    (hf : conversion? a b = some f) (hcalendar : ∀ v, beyondCalendar? a b v = none)
    (c : Column a) : c.convert b = .ok (c.map (·.bind f)) := by
  have hnone : c.findSome? (·.bind (beyondCalendar? a b)) = none := by
    rw [List.findSome?_eq_none_iff]
    intro entry _
    cases entry with
    | none => rfl
    | some v => exact hcalendar v
  rw [convert, dif_neg hab, hf]
  dsimp only
  rw [hnone]

theorem cast_of_conversion (hkind : (a.isUntyped && !b.isUntyped) = false) (hab : a ≠ b)
    {f : a.Carrier → b.Entry} (hf : conversion? a b = some f)
    (hcalendar : ∀ v, beyondCalendar? a b v = none) (c : Column a) :
    c.cast b = .ok (c.map (·.bind f)) := by
  rw [cast, hkind, if_neg Bool.false_ne_true, convert_of_conversion hab hf hcalendar]
  rfl

theorem exists_cast_error (hkind : (a.isUntyped && !b.isUntyped) = false) (hab : a ≠ b)
    (hnone : conversion? a b = none) (c : Column a) : ∃ e, c.cast b = .error e := by
  rw [cast, hkind, if_neg Bool.false_ne_true, convert, dif_neg hab, hnone]
  exact ⟨_, rfl⟩

theorem convert_text {f : String → t.Entry} (hf : conversion? (.text e) t = some f)
    (c : Column (.text e)) : c.convert t = .ok (c.map (·.bind f)) := by
  by_cases h : DataType.text e = t
  · subst h
    cases hf
    rw [convert, dif_pos rfl]
    exact congrArg Except.ok (by simp)
  · exact convert_of_conversion h hf (fun _ => rfl) c

theorem cast_text {f : String → t.Entry} (hf : conversion? (.text e) t = some f)
    (c : Column (.text e)) : c.cast t = .ok (c.map (·.bind f)) := by
  have hkind : ((DataType.text e).isUntyped && !t.isUntyped) = false := rfl
  rw [cast, hkind, if_neg Bool.false_ne_true, convert_text hf]
  rfl

/-- A column of raw bytes takes a type by way of text. -/
theorem cast_bytes (ht : t.isUntyped = false) {f : String → t.Entry}
    (hf : conversion? .utf8 t = some f) (c : Column (.bytes e)) :
    c.cast t = .ok (c.map (·.bind fun b => (String.fromUTF8? b).bind f)) := by
  have hkind : ((DataType.bytes e).isUntyped && !t.isUntyped) = true := by
    rw [ht]
    rfl
  have htext : c.convert .utf8 = .ok (c.map (·.bind String.fromUTF8?)) :=
    convert_of_conversion (by simp) rfl (fun _ => rfl) c
  rw [cast, if_pos hkind, htext]
  show ((Column.convert (c.map _) t).mapError _ : Outcome (Column t)) = _
  rw [convert_text hf, List.map_map]
  have hentry : ∀ entry : Option ByteArray, (entry.bind String.fromUTF8?).bind f =
      entry.bind fun b => (String.fromUTF8? b).bind f := fun entry => Option.bind_assoc ..
  exact congrArg Except.ok (List.map_congr_left fun entry _ => hentry entry)

theorem cast_bytes_bytes (e' : Extent) (c : Column (.bytes e)) : c.cast (.bytes e') = .ok c := by
  have hkind : ((DataType.bytes e).isUntyped && !(DataType.bytes e').isUntyped) = false := rfl
  rw [cast, hkind, if_neg Bool.false_ne_true]
  by_cases h : DataType.bytes e = .bytes e'
  · cases h
    rw [convert, dif_pos rfl]
    rfl
  · have hsame : ∀ entries : List (Option ByteArray), entries.map (·.bind some) = entries := by
      simp
    rw [convert_of_conversion h rfl (fun _ => rfl)]
    exact congrArg Except.ok (hsame c)

end Column

end RelScript
