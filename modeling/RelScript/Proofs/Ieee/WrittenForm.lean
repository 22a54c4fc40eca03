import RelScript.Ieee.Layout
import RelScript.Ieee.Reading
import RelScript.Proofs.Ieee.Spacing

/-!
Written numbers are readable: the text of a magnitude reads as the decimal that was written, in
every layout. With the spacing of the digits this makes finite numbers with one text equal.
-/

namespace RelScript.Ieee

theorem digitsValue_eq (digits : List Char) :
    digitsValue digits = Nat.ofDigitChars 10 digits 0 := by
  simp only [digitsValue, Nat.ofDigitChars_eq_foldl, Nat.mul_comm]

theorem digitsValue_append_zeros (digits : List Char) (n : Nat) :
    digitsValue (digits ++ List.replicate n '0') = digitsValue digits * 10 ^ n := by
  simp only [digitsValue_eq, Nat.ofDigitChars_append, Nat.ofDigitChars_replicate_zero,
    Nat.mul_comm]

theorem digitsValue_zeros_append (digits : List Char) (n : Nat) :
    digitsValue (List.replicate n '0' ++ digits) = digitsValue digits := by
  simp only [digitsValue_eq, Nat.ofDigitChars_append, Nat.ofDigitChars_replicate_zero, Nat.mul_zero]

theorem digitsValue_repr (n : Nat) : digitsValue n.repr.toList = n := by
  rw [digitsValue_eq, Nat.toList_repr, Nat.ofDigitChars_ten_toDigits]

theorem repr_length (n : Nat) : n.repr.length = digitCount n := by
  rw [← String.length_toList, Nat.toList_repr, digitCount]

/-- A text of decimal digits. -/
def Digits (text : List Char) : Prop := ∀ c ∈ text, c.isDigit = true

theorem digits_repr (n : Nat) : Digits n.repr.toList := by
  intro c hc
  rw [Nat.toList_repr] at hc
  exact Nat.isDigit_of_mem_toDigits (by omega) le_rfl hc

theorem digits_replicate_zero (n : Nat) : Digits (List.replicate n '0') := by
  intro c hc
  rw [List.eq_of_mem_replicate hc]
  rfl

theorem Digits.append {a b : List Char} (ha : Digits a) (hb : Digits b) : Digits (a ++ b) := by
  intro c hc
  rcases List.mem_append.mp hc with hc | hc
  · exact ha c hc
  · exact hb c hc

theorem Digits.take {a : List Char} (ha : Digits a) (n : Nat) : Digits (a.take n) :=
  fun c hc => ha c (List.mem_of_mem_take hc)

theorem Digits.drop {a : List Char} (ha : Digits a) (n : Nat) : Digits (a.drop n) :=
  fun c hc => ha c (List.mem_of_mem_drop hc)

theorem takeWhile_digits {digits rest : List Char} (hdigits : Digits digits)
    (hrest : ∀ c ∈ rest.head?, c.isDigit = false) :
    (digits ++ rest).takeWhile Char.isDigit = digits := by
  rw [List.takeWhile_append_of_pos hdigits]
  cases rest with
  | nil => simp
  | cons c rest => simp [hrest c rfl]

theorem dropWhile_digits {digits rest : List Char} (hdigits : Digits digits)
    (hrest : ∀ c ∈ rest.head?, c.isDigit = false) :
    (digits ++ rest).dropWhile Char.isDigit = rest := by
  rw [List.dropWhile_append_of_pos hdigits]
  cases rest with
  | nil => rfl
  | cons c rest => simp [hrest c rfl]

theorem readDecimal?_point {whole fraction rest : List Char} (hwhole : Digits whole)
    (hne : whole ≠ []) (hfraction : Digits fraction)
    (hrest : ∀ c ∈ rest.head?, c.isDigit = false) :
    readDecimal? (whole ++ '.' :: (fraction ++ rest)) =
      (readExponent? rest).map fun e => ⟨digitsValue (whole ++ fraction), e - fraction.length⟩ := by
  have hpoint : ∀ c ∈ ('.' :: (fraction ++ rest)).head?, c.isDigit = false := by
    rintro c ⟨rfl⟩
    rfl
  simp only [readDecimal?, takeWhile_digits hwhole hpoint, dropWhile_digits hwhole hpoint,
    takeWhile_digits hfraction hrest, dropWhile_digits hfraction hrest]
  rw [if_neg fun h => hne h.1]

theorem readDecimal?_whole {whole rest : List Char} (hwhole : Digits whole) (hne : whole ≠ [])
    (hrest : ∀ c ∈ rest.head?, c = 'e') :
    readDecimal? (whole ++ rest) =
      (readExponent? rest).map fun e => ⟨digitsValue whole, e⟩ := by
  have hdigit : ∀ c ∈ rest.head?, c.isDigit = false := by
    intro c hc
    rw [hrest c hc]
    rfl
  simp only [readDecimal?, takeWhile_digits hwhole hdigit, dropWhile_digits hwhole hdigit]
  cases rest with
  | nil => simp [hne]
  | cons c rest =>
      obtain rfl : c = 'e' := hrest c rfl
      simp [hne]

theorem splitSign_digits {digits : List Char} (hdigits : Digits digits) :
    splitSign digits = (false, digits) := by
  unfold splitSign
  split
  · exact absurd (hdigits '-' (by simp)) (by decide)
  · exact absurd (hdigits '+' (by simp)) (by decide)
  · rfl

theorem readExponent?_of_split {text digits : List Char} {negative : Bool}
    (hsplit : splitSign text = (negative, digits)) (hne : digits ≠ []) (hdigits : Digits digits) :
    readExponent? ('e' :: text) =
      some (if negative then -(digitsValue digits : Int) else digitsValue digits) := by
  have hall : digits.all Char.isDigit = true := List.all_eq_true.mpr hdigits
  simp [readExponent?, hsplit, hne, hall]

theorem readExponent?_toString (plus : Bool) (e : Int) :
    readExponent? ('e' :: ((if plus && 0 ≤ e then "+" else "").toList ++ (toString e).toList)) =
      some e := by
  have hne : ∀ n : Nat, n.repr.toList ≠ [] := by simp
  rw [Int.toString_eq_repr, Int.repr_eq_if]
  rcases lt_or_ge e 0 with hneg | hpos
  · rw [if_neg (not_le.mpr hneg), if_neg (by simp [not_le.mpr hneg]), String.toList_append]
    have hvalue : (((-e).toNat : ℕ) : ℤ) = -e := Int.toNat_of_nonneg (by omega)
    have hsplit : splitSign ("".toList ++ ("-".toList ++ (-e).toNat.repr.toList)) =
        (true, (-e).toNat.repr.toList) := rfl
    rw [readExponent?_of_split hsplit (hne _) (digits_repr _), digitsValue_repr, if_pos rfl,
      hvalue, neg_neg]
  · rw [if_pos hpos]
    have hvalue : ((e.toNat : ℕ) : ℤ) = e := Int.toNat_of_nonneg hpos
    have hsplit : splitSign ((if plus && 0 ≤ e then "+" else "").toList ++ e.toNat.repr.toList) =
        (false, e.toNat.repr.toList) := by
      split
      · rfl
      · exact splitSign_digits (digits_repr _)
    rw [readExponent?_of_split hsplit (hne _) (digits_repr _), digitsValue_repr, if_neg (by simp),
      hvalue]

theorem toString_int_injective {m n : Int} (h : toString m = toString n) : m = n := by
  have hm := readExponent?_toString false m
  rw [h] at hm
  exact Option.some.inj (hm.symm.trans (readExponent?_toString false n))

/-- Whether a text reads as a decimal of the given value. -/
def Denotes (text : List Char) (value : ℚ) : Prop :=
  ∃ d, readDecimal? text = some d ∧ d.value = value

theorem denotes_unique {text : List Char} {v w : ℚ} (hv : Denotes text v) (hw : Denotes text w) :
    v = w := by
  obtain ⟨d, hd, rfl⟩ := hv
  obtain ⟨e, he, rfl⟩ := hw
  rw [hd, Option.some.injEq] at he
  rw [he]

theorem denotes_point {whole fraction rest : List Char} {e : Int} {value : ℚ}
    (hwhole : Digits whole) (hne : whole ≠ []) (hfraction : Digits fraction)
    (hrest : ∀ c ∈ rest.head?, c.isDigit = false) (hexponent : readExponent? rest = some e)
    (hvalue : (digitsValue (whole ++ fraction) : ℚ) * 10 ^ (e - fraction.length) = value) :
    Denotes (whole ++ '.' :: (fraction ++ rest)) value := by
  refine ⟨⟨digitsValue (whole ++ fraction), e - fraction.length⟩, ?_, hvalue⟩
  rw [readDecimal?_point hwhole hne hfraction hrest, hexponent]
  rfl

theorem denotes_whole {whole rest : List Char} {e : Int} {value : ℚ}
    (hwhole : Digits whole) (hne : whole ≠ []) (hrest : ∀ c ∈ rest.head?, c = 'e')
    (hexponent : readExponent? rest = some e) (hvalue : (digitsValue whole : ℚ) * 10 ^ e = value) :
    Denotes (whole ++ rest) value := by
  refine ⟨⟨digitsValue whole, e⟩, ?_, hvalue⟩
  rw [readDecimal?_whole hwhole hne hrest, hexponent]
  rfl

theorem zeros_toList (n : Nat) : (zeros n).toList = List.replicate n '0' := String.toList_ofList

theorem denotes_leading (n gap : Nat) :
    Denotes ("0." ++ zeros gap ++ n.repr).toList
      (n * (10 : ℚ) ^ (-(gap : ℤ) - digitCount n)) := by
  have htext : ("0." ++ zeros gap ++ n.repr).toList = List.replicate 1 '0' ++ '.' ::
      ((List.replicate gap '0' ++ n.repr.toList) ++ []) := by
    simp [zeros_toList, String.toList_append]
  have hvalue : digitsValue (List.replicate 1 '0' ++
      (List.replicate gap '0' ++ n.repr.toList)) = n := by
    rw [digitsValue_zeros_append, digitsValue_zeros_append, digitsValue_repr]
  rw [htext]
  apply denotes_point (digits_replicate_zero 1) (by simp)
    ((digits_replicate_zero _).append (digits_repr n)) (by simp) rfl
  rw [hvalue, List.length_append, List.length_replicate, String.length_toList, repr_length]
  congr 2
  push_cast
  ring

theorem denotes_inside {n place : Nat} (hpos : 0 < place) (hplace : place < digitCount n) :
    Denotes (String.ofList (n.repr.toList.take place) ++ "." ++
      String.ofList (n.repr.toList.drop place)).toList
        (n * (10 : ℚ) ^ ((place : ℤ) - digitCount n)) := by
  have htext : (String.ofList (n.repr.toList.take place) ++ "." ++
      String.ofList (n.repr.toList.drop place)).toList =
        n.repr.toList.take place ++ '.' :: (n.repr.toList.drop place ++ []) := by
    simp [String.toList_append]
  have htake : n.repr.toList.take place ≠ [] := by
    have hne : n.repr.toList ≠ [] := by simp
    intro hnil
    rcases List.take_eq_nil_iff.mp hnil with h | h
    · exact hpos.ne' h
    · exact hne h
  rw [htext]
  apply denotes_point ((digits_repr n).take _) htake ((digits_repr n).drop _) (by simp) rfl
  rw [List.take_append_drop, digitsValue_repr, List.length_drop, String.length_toList, repr_length]
  congr 2
  omega

theorem denotes_trailing (layout : Layout) (n gap : Nat) :
    Denotes (n.repr ++ zeros gap ++ if layout.pointZero then ".0" else "").toList
      (n * (10 : ℚ) ^ gap) := by
  have hwhole := (digits_repr n).append (digits_replicate_zero gap)
  have hne : n.repr.toList ++ List.replicate gap '0' ≠ [] := by simp
  have hvalue : digitsValue (n.repr.toList ++ List.replicate gap '0') = n * 10 ^ gap := by
    rw [digitsValue_append_zeros, digitsValue_repr]
  cases layout.pointZero with
  | false =>
      have htext : (n.repr ++ zeros gap ++ (if false = true then ".0" else "")).toList =
          (n.repr.toList ++ List.replicate gap '0') ++ [] := by
        simp [zeros_toList, String.toList_append]
      rw [htext]
      apply denotes_whole hwhole hne (by simp) rfl
      rw [hvalue]
      push_cast
      simp
  | true =>
      have htext : (n.repr ++ zeros gap ++ (if true = true then ".0" else "")).toList =
          (n.repr.toList ++ List.replicate gap '0') ++ '.' :: (List.replicate 1 '0' ++ []) := by
        simp [zeros_toList, String.toList_append]
      rw [htext]
      apply denotes_point hwhole hne (digits_replicate_zero 1) (by simp) rfl
      rw [digitsValue_append_zeros, hvalue]
      push_cast
      simp [mul_assoc]

theorem denotes_positional (layout : Layout) (n : Nat) (exponent : ℤ) :
    Denotes (positional layout n.repr (exponent + digitCount n)).toList
      (n * (10 : ℚ) ^ exponent) := by
  have hcount := digitCount_pos n
  simp only [positional, repr_length]
  split
  case isTrue hplace =>
    have hexponent : exponent = -((-(exponent + digitCount n)).toNat : ℤ) - digitCount n := by
      omega
    conv_rhs => rw [hexponent]
    exact denotes_leading n _
  case isFalse hplace =>
    split
    case isTrue hinside =>
      have hexponent : exponent = ((exponent + digitCount n).toNat : ℤ) - digitCount n := by
        omega
      conv_rhs => rw [hexponent]
      exact denotes_inside (by omega) (by omega)
    case isFalse hinside =>
      obtain ⟨gap, rfl⟩ := Int.eq_ofNat_of_zero_le (a := exponent) (by omega)
      have hgap : ((gap : ℤ) + digitCount n - digitCount n).toNat = gap := by omega
      rw [hgap]
      exact denotes_trailing layout n gap

theorem denotes_scientific (layout : Layout) (n : Nat) (exponent : ℤ) :
    Denotes (scientific layout n.repr (exponent + digitCount n - 1)).toList
      (n * (10 : ℚ) ^ exponent) := by
  have hcount := digitCount_pos n
  have hdigits := digits_repr n
  have hlength : n.repr.toList.length = digitCount n := by rw [String.length_toList, repr_length]
  have hexponent := readExponent?_toString layout.plus (exponent + digitCount n - 1)
  have htake : n.repr.toList.take 1 ≠ [] := by simp
  simp only [scientific]
  split
  · rename_i hsingle
    have hdrop : n.repr.toList.drop 1 = [] := by simpa using hsingle
    have hone : digitCount n = 1 := by
      have := List.drop_eq_nil_iff.mp hdrop
      omega
    have htext : (String.ofList (n.repr.toList.take 1) ++ "" ++ "e" ++
        (if layout.plus && decide (0 ≤ exponent + digitCount n - 1) then "+" else "") ++
        toString (exponent + digitCount n - 1)).toList =
        n.repr.toList.take 1 ++ 'e' ::
          ((if layout.plus && decide (0 ≤ exponent + digitCount n - 1) then "+" else "").toList ++
            (toString (exponent + digitCount n - 1)).toList) := by
      simp [String.toList_append]
    rw [htext]
    apply denotes_whole (hdigits.take 1) htake (by simp) hexponent
    have hsame : exponent + (digitCount n : ℤ) - 1 = exponent := by omega
    rw [List.take_of_length_le (by omega), digitsValue_repr, hsame]
  · have htext : (String.ofList (n.repr.toList.take 1) ++ ("." ++
        String.ofList (n.repr.toList.drop 1)) ++ "e" ++
        (if layout.plus && decide (0 ≤ exponent + digitCount n - 1) then "+" else "") ++
        toString (exponent + digitCount n - 1)).toList =
        n.repr.toList.take 1 ++ '.' :: (n.repr.toList.drop 1 ++ 'e' ::
          ((if layout.plus && decide (0 ≤ exponent + digitCount n - 1) then "+" else "").toList ++
            (toString (exponent + digitCount n - 1)).toList)) := by
      simp [String.toList_append]
    rw [htext]
    have hsame : exponent + (digitCount n : ℤ) - 1 - ((digitCount n - 1 : ℕ) : ℤ) = exponent := by
      omega
    apply denotes_point (hdigits.take 1) htake (hdigits.drop 1) _ hexponent
    · rw [List.take_append_drop, digitsValue_repr, List.length_drop, hlength, hsame]
    · intro c hc
      rw [List.head?_cons, Option.mem_some_iff] at hc
      rw [← hc]
      rfl

theorem denotes_writeMagnitude_zero (layout : Layout) (f : Format) :
    Denotes (writeMagnitude layout f 0).toList 0 := by
  cases h : layout.pointZero <;> simp only [writeMagnitude, h, if_true]
  · exact ⟨⟨0, 0⟩, by decide, by simp [Decimal.value]⟩
  · exact ⟨⟨0, -1⟩, by decide, by simp [Decimal.value]⟩

theorem denotes_writeMagnitude (layout : Layout) (f : Format) {magnitude : Nat}
    (hpos : 0 < magnitude) :
    Denotes (writeMagnitude layout f magnitude).toList (shortest f layout.tie magnitude).value := by
  simp only [writeMagnitude, Nat.pos_iff_ne_zero.mp hpos, if_false, Nat.toString_eq_repr,
    repr_length]
  split
  · exact denotes_positional layout _ _
  · exact denotes_scientific layout _ _

theorem writeMagnitude_injective {f : Format} (hformat : f.fraction ≤ 52) {layout : Layout}
    {m n : Nat} (htext : writeMagnitude layout f m = writeMagnitude layout f n) : m = n := by
  have hzero := denotes_writeMagnitude_zero layout f
  rcases Nat.eq_zero_or_pos m with rfl | hm <;> rcases Nat.eq_zero_or_pos n with rfl | hn
  · rfl
  · have hvalue := denotes_unique hzero (htext ▸ denotes_writeMagnitude layout f hn)
    exact absurd hvalue (shortest_value_pos hformat layout.tie hn).ne
  · have hvalue := denotes_unique hzero (htext ▸ denotes_writeMagnitude layout f hm)
    exact absurd hvalue (shortest_value_pos hformat layout.tie hm).ne
  · exact eq_of_shortest_value_eq hformat hm hn
      (denotes_unique (htext ▸ denotes_writeMagnitude layout f hm)
        (denotes_writeMagnitude layout f hn))

/-- The characters of written numbers. -/
def isNumeral (c : Char) : Bool := c.isDigit || c = '-' || c = '+' || c = '.' || c = 'e'

theorem isNumeral_of_mem_repr {n : Nat} {c : Char} (hc : c ∈ n.repr.toList) :
    isNumeral c = true := by
  simp [isNumeral, digits_repr n c hc]

theorem isNumeral_of_mem_zeros {n : Nat} {c : Char} (hc : c ∈ (zeros n).toList) :
    isNumeral c = true := by
  rw [zeros_toList] at hc
  rw [List.eq_of_mem_replicate hc]
  rfl

theorem isNumeral_of_mem_toString {n : Int} {c : Char} (hc : c ∈ (toString n).toList) :
    isNumeral c = true := by
  rw [Int.toString_eq_repr, Int.repr_eq_if] at hc
  split at hc
  · exact isNumeral_of_mem_repr hc
  · rw [String.toList_append, List.mem_append] at hc
    rcases hc with hc | hc
    · rw [List.mem_singleton.mp hc]
      rfl
    · exact isNumeral_of_mem_repr hc

theorem isNumeral_of_mem_positional {layout : Layout} {n : Nat} {place : Int} {c : Char}
    (hc : c ∈ (positional layout n.repr place).toList) : isNumeral c = true := by
  have hzero : ∀ c ∈ ['0', '.', '0'], isNumeral c = true := by simp [isNumeral]
  simp only [positional] at hc
  split at hc
  · simp only [String.toList_append, List.mem_append] at hc
    rcases hc with (hc | hc) | hc
    · exact hzero c (List.mem_of_mem_take (i := 2) hc)
    · exact isNumeral_of_mem_zeros hc
    · exact isNumeral_of_mem_repr hc
  · split at hc
    · simp only [String.toList_append, List.mem_append, String.toList_ofList] at hc
      rcases hc with (hc | hc) | hc
      · exact isNumeral_of_mem_repr (List.mem_of_mem_take hc)
      · rw [List.mem_singleton.mp hc]
        rfl
      · exact isNumeral_of_mem_repr (List.mem_of_mem_drop hc)
    · simp only [String.toList_append, List.mem_append] at hc
      rcases hc with (hc | hc) | hc
      · exact isNumeral_of_mem_repr hc
      · exact isNumeral_of_mem_zeros hc
      · split at hc
        · exact hzero c (List.mem_of_mem_drop (i := 1) hc)
        · simp at hc

theorem isNumeral_of_mem_scientific {layout : Layout} {n : Nat} {exponent : Int} {c : Char}
    (hc : c ∈ (scientific layout n.repr exponent).toList) : isNumeral c = true := by
  simp only [scientific, String.toList_append, List.mem_append, String.toList_ofList] at hc
  rcases hc with (((hc | hc) | hc) | hc) | hc
  · exact isNumeral_of_mem_repr (List.mem_of_mem_take hc)
  · split at hc
    · simp at hc
    · simp only [String.toList_append, List.mem_append, String.toList_ofList] at hc
      rcases hc with hc | hc
      · rw [List.mem_singleton.mp hc]
        rfl
      · exact isNumeral_of_mem_repr (List.mem_of_mem_drop hc)
  · rw [List.mem_singleton.mp hc]
    rfl
  · split at hc
    · rw [List.mem_singleton.mp hc]
      rfl
    · simp at hc
  · exact isNumeral_of_mem_toString hc

theorem isNumeral_of_mem_writeMagnitude {layout : Layout} {f : Format} {magnitude : Nat} {c : Char}
    (hc : c ∈ (writeMagnitude layout f magnitude).toList) : isNumeral c = true := by
  have hzero : ∀ c ∈ ['0', '.', '0'], isNumeral c = true := by simp [isNumeral]
  simp only [writeMagnitude, Nat.toString_eq_repr] at hc
  split at hc
  · apply hzero
    split at hc
    · exact hc
    · simp_all
  · split at hc
    · exact isNumeral_of_mem_positional hc
    · exact isNumeral_of_mem_scientific hc

/-- A layout that writes the fraction of whole numbers leaves a mark that integers do not have. -/
theorem exists_mark_writeMagnitude {layout : Layout} (hpoint : layout.pointZero = true)
    (f : Format) (magnitude : Nat) :
    ∃ c ∈ (writeMagnitude layout f magnitude).toList, c = '.' ∨ c = 'e' := by
  simp only [writeMagnitude, hpoint, if_true, Nat.toString_eq_repr]
  split
  · exact ⟨'.', by decide, Or.inl rfl⟩
  · split
    · refine ⟨'.', ?_, Or.inl rfl⟩
      simp only [positional, hpoint, if_true]
      split
      · simp [String.toList_append]
      · split <;> simp [String.toList_append]
    · exact ⟨'e', by simp [scientific, String.toList_append], Or.inr rfl⟩

namespace Bits

variable {f : Format}

/-- Whether the pattern stands for a number that is not infinite. -/
def isFinite (x : Bits f) : Bool :=
  match x.number with
  | .finite _ _ => true
  | _ => false

theorem toNat_word (x : Bits f) :
    x.word.toNat = x.magnitude + if x.negative then f.signBit else 0 := by
  have hlt := x.word.isLt
  have hwidth : 2 ^ f.width = 2 * f.signBit := by
    rw [Format.width, pow_succ, Nat.mul_comm]
    rfl
  unfold magnitude negative
  by_cases h : f.signBit ≤ x.word.toNat
  · rw [if_pos (by simpa using h), Nat.mod_eq_sub_mod h, Nat.mod_eq_of_lt (by omega)]
    omega
  · rw [if_neg (by simpa using h), Nat.mod_eq_of_lt (by omega)]
    omega

theorem eq_of_sign_magnitude {x y : Bits f} (hsign : x.negative = y.negative)
    (hmagnitude : x.magnitude = y.magnitude) : x = y := by
  have hword : x.word = y.word := by
    apply BitVec.eq_of_toNat_eq
    rw [toNat_word, toNat_word, hsign, hmagnitude]
  cases x
  cases y
  exact congrArg Bits.mk hword

theorem write_of_isFinite {x : Bits f} (hx : x.isFinite = true) (layout : Layout) :
    x.write layout = (if x.negative then "-" else "") ++ writeMagnitude layout f x.magnitude := by
  unfold isFinite at hx
  unfold write
  split at hx
  · rename_i h
    simp only [h]
  · simp at hx

theorem not_denotes_minus (text : List Char) (value : ℚ) : ¬ Denotes ('-' :: text) value := by
  rintro ⟨d, hd, -⟩
  have hnone : readDecimal? ('-' :: text) = none := by
    simp [readDecimal?, show '-'.isDigit = false from rfl]
  rw [hnone] at hd
  cases hd

/-- Finite numbers that are written alike are one number. -/
theorem write_injective (hformat : f.fraction ≤ 52) {layout : Layout} {x y : Bits f}
    (hx : x.isFinite = true) (hy : y.isFinite = true) (htext : x.write layout = y.write layout) :
    x = y := by
  have hdenotes : ∀ m, ∃ v, Denotes (writeMagnitude layout f m).toList v := fun m =>
    (Nat.eq_zero_or_pos m).elim
      (fun h => ⟨0, h ▸ denotes_writeMagnitude_zero layout f⟩)
      (fun h => ⟨_, denotes_writeMagnitude layout f h⟩)
  rw [write_of_isFinite hx, write_of_isFinite hy] at htext
  have hchars := congrArg String.toList htext
  rw [String.toList_append, String.toList_append] at hchars
  cases hxs : x.negative <;> cases hys : y.negative <;>
    simp only [hxs, hys, if_true, if_false, Bool.false_eq_true, String.toList_empty,
      List.nil_append, show "-".toList = ['-'] from rfl, List.singleton_append] at hchars
  · exact eq_of_sign_magnitude (hxs.trans hys.symm)
      (writeMagnitude_injective hformat (String.toList_injective hchars))
  · obtain ⟨v, hv⟩ := hdenotes x.magnitude
    exact absurd (hchars ▸ hv) (not_denotes_minus _ v)
  · obtain ⟨v, hv⟩ := hdenotes y.magnitude
    exact absurd (hchars ▸ hv) (not_denotes_minus _ v)
  · exact eq_of_sign_magnitude (hxs.trans hys.symm)
      (writeMagnitude_injective hformat (String.toList_injective (List.cons.inj hchars).2))

end Bits

end RelScript.Ieee
