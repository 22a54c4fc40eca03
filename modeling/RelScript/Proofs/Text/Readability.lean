import RelScript.Proofs.Ieee.WrittenForm
import RelScript.Text.Json

/-!
The compact text of a document determines the document, except that every number that is not finite
reads as `null`.
-/

namespace RelScript.Text.Json

/-- The value of a hexadecimal digit. -/
def hexValue (c : Char) : Nat := if c.isDigit then c.toNat - 48 else c.toNat - 87

/-- Reads one character of a JSON string, up to the quote that ends it. -/
def readChar? : List Char → Option (Char × List Char)
  | '"' :: _ => none
  | '\\' :: '"' :: rest => some ('"', rest)
  | '\\' :: '\\' :: rest => some ('\\', rest)
  | '\\' :: 'b' :: rest => some ('\x08', rest)
  | '\\' :: 'f' :: rest => some ('\x0c', rest)
  | '\\' :: 'n' :: rest => some ('\n', rest)
  | '\\' :: 'r' :: rest => some ('\r', rest)
  | '\\' :: 't' :: rest => some ('\t', rest)
  | '\\' :: 'u' :: '0' :: '0' :: a :: b :: rest =>
    some (Char.ofNat (16 * hexValue a + hexValue b), rest)
  | c :: rest => some (c, rest)
  | [] => none

theorem hexByte_eq : ∀ n < 32, ∃ a b, hexByte n = [a, b] ∧ 16 * hexValue a + hexValue b = n := by
  intro n hn
  refine ⟨(hexByte n)[0]!, (hexByte n)[1]!, ?_⟩
  revert n
  decide

theorem readChar?_escapeChar (c : Char) (rest : List Char) :
    readChar? (escapeChar c ++ rest) = some (c, rest) := by
  by_cases hshort : c ∈ ['"', '\\', '\x08', '\x0c', '\n', '\r', '\t']
  · simp only [List.mem_cons, List.not_mem_nil, or_false] at hshort
    rcases hshort with rfl | rfl | rfl | rfl | rfl | rfl | rfl <;> rfl
  · simp only [List.mem_cons, List.not_mem_nil, or_false, not_or] at hshort
    obtain ⟨hquote, hbackslash, -⟩ := id hshort
    simp only [escapeChar, hshort, if_false]
    split
    · rename_i hcontrol
      obtain ⟨a, b, hab, hvalue⟩ := hexByte_eq c.toNat hcontrol
      rw [hab]
      simp only [List.cons_append, List.nil_append, readChar?, hvalue, Char.ofNat_toNat]
    · rw [List.singleton_append, readChar?.eq_def]
      split <;> simp_all

theorem flatMap_escapeChar_append_inj {s t r u : List Char}
    (h : s.flatMap escapeChar ++ '"' :: r = t.flatMap escapeChar ++ '"' :: u) :
    s = t ∧ r = u := by
  induction s generalizing t with
  | nil =>
      cases t with
      | nil => exact ⟨rfl, (List.cons.inj h).2⟩
      | cons d t =>
          have hread := congrArg readChar? h
          rw [List.flatMap_cons, List.append_assoc, readChar?_escapeChar] at hread
          cases hread
  | cons c s ih =>
      cases t with
      | nil =>
          have hread := congrArg readChar? h
          rw [List.flatMap_cons, List.append_assoc, readChar?_escapeChar] at hread
          cases hread
      | cons d t =>
          have hread := congrArg readChar? h
          simp only [List.flatMap_cons, List.append_assoc, readChar?_escapeChar,
            Option.some.injEq, Prod.mk.injEq] at hread
          obtain ⟨hst, hru⟩ := ih hread.2
          exact ⟨by rw [hread.1, hst], hru⟩

theorem quoted_toList (s : String) :
    (quoted s).toList = '"' :: (s.toList.flatMap escapeChar ++ ['"']) := by
  rw [quoted, String.toList_ofList]
  rfl

theorem quoted_append_inj {s t : String} {r u : List Char}
    (h : (quoted s).toList ++ r = (quoted t).toList ++ u) : s = t ∧ r = u := by
  simp only [quoted_toList, List.cons_append, List.append_assoc, List.nil_append] at h
  obtain ⟨hst, hru⟩ := flatMap_escapeChar_append_inj (List.cons.inj h).2
  exact ⟨String.toList_injective hst, hru⟩

mutual

/-- The document with `null` for every number that is not finite. -/
def plain : Json → Json
  | .null => .null
  | .bool b => .bool b
  | .int n => .int n
  | .float x => if x.isFinite then .float x else .null
  | .string s => .string s
  | .array items => .array (plainItems items)
  | .object fields => .object (plainFields fields)

/-- The items of an array, each with `null` for what is not finite. -/
def plainItems : List Json → List Json
  | [] => []
  | item :: rest => plain item :: plainItems rest

/-- The fields of an object, each with `null` for what is not finite. -/
def plainFields : List (String × Json) → List (String × Json)
  | [] => []
  | (key, value) :: rest => (key, plain value) :: plainFields rest

end

/-- What a text can start with. -/
inductive Form
  | null
  | truth
  | number
  | string
  | array
  | object

/-- The form of a document's text. -/
def form : Json → Form
  | .null => .null
  | .bool _ => .truth
  | .int _ => .number
  | .float x => if x.isFinite then .number else .null
  | .string _ => .string
  | .array _ => .array
  | .object _ => .object

/-- The form that the first character of a text shows. -/
def formOf? (c : Char) : Option Form :=
  if c = 'n' then some .null
  else if c = 't' ∨ c = 'f' then some .truth
  else if c = '"' then some .string
  else if c = '[' then some .array
  else if c = '\x7b' then some .object
  else if Ieee.isNumeral c then some .number
  else none

theorem formOf?_of_isNumeral {c : Char} (hc : Ieee.isNumeral c = true) :
    formOf? c = some .number := by
  unfold formOf?
  have hne : ∀ d, Ieee.isNumeral d = false → c ≠ d := by
    rintro d hd rfl
    rw [hc] at hd
    cases hd
  rw [if_neg (hne 'n' (by decide)), if_neg (not_or.mpr ⟨hne 't' (by decide), hne 'f' (by decide)⟩),
    if_neg (hne '"' (by decide)), if_neg (hne '[' (by decide)), if_neg (hne '\x7b' (by decide)),
    if_pos hc]

theorem number_of_isFinite {x : Ieee.Bits .double} (hx : x.isFinite = true) :
    number x = x.write .document := by
  unfold Ieee.Bits.isFinite at hx
  unfold number
  cases hnumber : x.number with
  | finite => rfl
  | infinite => simp [hnumber] at hx
  | nan => simp [hnumber] at hx

theorem number_of_not_isFinite {x : Ieee.Bits .double} (hx : x.isFinite = false) :
    number x = "null" := by
  unfold Ieee.Bits.isFinite at hx
  unfold number
  cases hnumber : x.number with
  | finite => simp [hnumber] at hx
  | infinite => rfl
  | nan => rfl

theorem isNumeral_of_mem_write {x : Ieee.Bits .double} (hx : x.isFinite = true) {c : Char}
    (hc : c ∈ (x.write .document).toList) : Ieee.isNumeral c = true := by
  rw [Ieee.Bits.write_of_isFinite hx, String.toList_append, List.mem_append] at hc
  rcases hc with hc | hc
  · split at hc
    · rw [List.mem_singleton.mp hc]
      rfl
    · simp at hc
  · exact Ieee.isNumeral_of_mem_writeMagnitude hc

theorem exists_mark_write {x : Ieee.Bits .double} (hx : x.isFinite = true) :
    ∃ c ∈ (x.write .document).toList, c = '.' ∨ c = 'e' := by
  have hpoint : Ieee.Layout.document.pointZero = true := rfl
  obtain ⟨c, hc, hmark⟩ := Ieee.exists_mark_writeMagnitude hpoint .double x.magnitude
  refine ⟨c, ?_, hmark⟩
  rw [Ieee.Bits.write_of_isFinite hx, String.toList_append]
  exact List.mem_append_right _ hc

theorem not_mark_of_mem_toString {n : Int} {c : Char} (hc : c ∈ (toString n).toList) :
    ¬ (c = '.' ∨ c = 'e') := by
  have hdigit : ∀ {m : Nat}, c ∈ m.repr.toList → ¬ (c = '.' ∨ c = 'e') := by
    rintro m hm (rfl | rfl)
    · exact absurd (Ieee.digits_repr m _ hm) (by decide)
    · exact absurd (Ieee.digits_repr m _ hm) (by decide)
  rw [Int.toString_eq_repr, Int.repr_eq_if] at hc
  split at hc
  · exact hdigit hc
  · rw [String.toList_append, List.mem_append] at hc
    rcases hc with hc | hc
    · rw [List.mem_singleton.mp hc]
      decide
    · exact hdigit hc

theorem isNumeral_of_form {j : Json} (hj : form j = .number) {c : Char}
    (hc : c ∈ (render j).toList) : Ieee.isNumeral c = true := by
  cases j with
  | int n => exact Ieee.isNumeral_of_mem_toString hc
  | float x =>
      have hx : x.isFinite = true := by
        by_contra h
        simp [form, h] at hj
      rw [render, number_of_isFinite hx] at hc
      exact isNumeral_of_mem_write hx hc
  | _ => cases hj

theorem number_toList_ne_nil {j : Json} (hj : form j = .number) : (render j).toList ≠ [] := by
  cases j with
  | int n =>
      rw [render, Int.toString_eq_repr, Int.repr_eq_if]
      split <;> simp
  | float x =>
      have hx : x.isFinite = true := by
        by_contra h
        simp [form, h] at hj
      rw [render, number_of_isFinite hx]
      obtain ⟨c, hc, -⟩ := exists_mark_write hx
      exact List.ne_nil_of_mem hc
  | _ => cases hj

theorem plain_eq_of_number {j k : Json} (hj : form j = .number) (hk : form k = .number)
    (htext : (render j).toList = (render k).toList) : plain j = plain k := by
  have hfinite : ∀ {x : Ieee.Bits .double}, form (.float x) = .number → x.isFinite = true := by
    intro x hx
    by_contra h
    simp [form, h] at hx
  cases j with
  | int m =>
      cases k with
      | int n =>
          have hmn := String.toList_injective htext
          rw [render, render] at hmn
          rw [Ieee.toString_int_injective hmn]
      | float y =>
          obtain ⟨c, hc, hmark⟩ := exists_mark_write (hfinite hk)
          rw [render, render, number_of_isFinite (hfinite hk)] at htext
          rw [← htext] at hc
          exact absurd hmark (not_mark_of_mem_toString hc)
      | _ => cases hk
  | float x =>
      cases k with
      | int n =>
          obtain ⟨c, hc, hmark⟩ := exists_mark_write (hfinite hj)
          rw [render, render, number_of_isFinite (hfinite hj)] at htext
          rw [htext] at hc
          exact absurd hmark (not_mark_of_mem_toString hc)
      | float y =>
          rw [render, render, number_of_isFinite (hfinite hj), number_of_isFinite (hfinite hk)]
            at htext
          rw [Ieee.Bits.write_injective (by decide) (hfinite hj) (hfinite hk)
            (String.toList_injective htext)]
      | _ => cases hk
  | _ => cases hj

theorem exists_head_render (j : Json) :
    ∃ c rest, (render j).toList = c :: rest ∧ formOf? c = some (form j) := by
  have hnumber : form j = .number →
      ∃ c rest, (render j).toList = c :: rest ∧ formOf? c = some .number := by
    intro hj
    obtain ⟨c, rest, htext⟩ := List.exists_cons_of_ne_nil (number_toList_ne_nil hj)
    exact ⟨c, rest, htext, formOf?_of_isNumeral (isNumeral_of_form hj (by simp [htext]))⟩
  cases j with
  | null => exact ⟨'n', _, rfl, rfl⟩
  | bool b => cases b <;> exact ⟨_, _, rfl, rfl⟩
  | int n => exact hnumber rfl
  | float x =>
      cases hx : x.isFinite
      · refine ⟨'n', ['u', 'l', 'l'], ?_, by simp [form, hx, formOf?]⟩
        rw [render, number_of_not_isFinite hx]
        rfl
      · have hj : form (.float x) = .number := by simp [form, hx]
        rw [hj]
        exact hnumber hj
  | string s => exact ⟨'"', _, by rw [render, quoted_toList], rfl⟩
  | array items => exact ⟨'[', _, by simp [render, String.toList_append]; rfl, rfl⟩
  | object fields => exact ⟨'\x7b', _, by simp [render, String.toList_append]; rfl, rfl⟩

/-- Whether a number may end before a text: the text does not go on with a numeral. -/
def Ends (rest : List Char) : Prop := ∀ c ∈ rest.head?, Ieee.isNumeral c = false

theorem Ends.nil : Ends [] := by simp [Ends]

theorem Ends.cons {c : Char} (hc : Ieee.isNumeral c = false) (rest : List Char) :
    Ends (c :: rest) := by
  intro d hd
  rw [List.head?_cons, Option.mem_some_iff] at hd
  rw [← hd, hc]

theorem append_inj_of_numerals {a b r s : List Char} (ha : ∀ c ∈ a, Ieee.isNumeral c = true)
    (hb : ∀ c ∈ b, Ieee.isNumeral c = true) (hr : Ends r) (hs : Ends s)
    (h : a ++ r = b ++ s) : a = b ∧ r = s := by
  have hspan : ∀ {text rest : List Char}, (∀ c ∈ text, Ieee.isNumeral c = true) → Ends rest →
      (text ++ rest).takeWhile Ieee.isNumeral = text := by
    intro text rest htext hrest
    rw [List.takeWhile_append_of_pos htext]
    cases rest with
    | nil => simp
    | cons c rest => simp [hrest c rfl]
  have hab : a = b := by
    rw [← hspan ha hr, ← hspan hb hs, h]
  subst hab
  exact ⟨rfl, List.append_cancel_left h⟩

/-- What follows the first item of an array. -/
def afterItem : List Json → List Char
  | [] => []
  | item :: rest => ',' :: (renderItems (item :: rest)).toList

theorem renderItems_cons (item : Json) (rest : List Json) :
    (renderItems (item :: rest)).toList = (render item).toList ++ afterItem rest := by
  cases rest <;> simp [renderItems, afterItem, String.toList_append]

/-- What follows the first field of an object. -/
def afterField : List (String × Json) → List Char
  | [] => []
  | field :: rest => ',' :: (renderFields (field :: rest)).toList

theorem renderFields_cons (key : String) (value : Json) (rest : List (String × Json)) :
    (renderFields ((key, value) :: rest)).toList =
      (quoted key).toList ++ ':' :: ((render value).toList ++ afterField rest) := by
  cases rest <;> simp [renderFields, afterField, String.toList_append]

theorem ends_afterItem (items : List Json) (r : List Char) :
    Ends (afterItem items ++ ']' :: r) := by
  cases items <;> exact Ends.cons rfl _

theorem ends_afterField (fields : List (String × Json)) (r : List Char) :
    Ends (afterField fields ++ '\x7d' :: r) := by
  cases fields <;> exact Ends.cons rfl _

theorem render_ne_of_formOf?_eq_none {j : Json} {c : Char} (hc : formOf? c = none)
    {r s : List Char} : (render j).toList ++ r ≠ c :: s := by
  intro h
  obtain ⟨d, rest, htext, hd⟩ := exists_head_render j
  rw [htext, List.cons_append] at h
  rw [(List.cons.inj h).1, hc] at hd
  cases hd

theorem form_eq_of_append_eq {j k : Json} {r s : List Char}
    (h : (render j).toList ++ r = (render k).toList ++ s) : form j = form k := by
  obtain ⟨c, a, hj, hc⟩ := exists_head_render j
  obtain ⟨d, b, hk, hd⟩ := exists_head_render k
  rw [hj, hk, List.cons_append, List.cons_append] at h
  rw [(List.cons.inj h).1, hd] at hc
  exact (Option.some.inj hc).symm

theorem plain_of_form_null {j : Json} (hj : form j = .null) :
    plain j = .null ∧ (render j).toList = ['n', 'u', 'l', 'l'] := by
  cases j with
  | null => exact ⟨rfl, rfl⟩
  | float x =>
      cases hx : x.isFinite
      · refine ⟨by simp [plain, hx], ?_⟩
        rw [render, number_of_not_isFinite hx]
        rfl
      · simp [form, hx] at hj
  | _ => cases hj

theorem eq_of_form (j : Json) : match form j with
    | .truth => ∃ b, j = .bool b
    | .string => ∃ s, j = .string s
    | .array => ∃ items, j = .array items
    | .object => ∃ fields, j = .object fields
    | .null | .number => True := by
  cases j with
  | float x => cases hx : x.isFinite <;> simp [form, hx]
  | _ => simp [form]

theorem append_inj_of_form {j k : Json} (hj : form j = .null ∨ form j = .number)
    {r s : List Char} (hr : Ends r) (hs : Ends s)
    (h : (render j).toList ++ r = (render k).toList ++ s) : plain j = plain k ∧ r = s := by
  have hform := form_eq_of_append_eq h
  rcases hj with hj | hj
  · obtain ⟨hplain, htext⟩ := plain_of_form_null hj
    obtain ⟨hplain', htext'⟩ := plain_of_form_null (hform ▸ hj)
    rw [htext, htext'] at h
    exact ⟨hplain.trans hplain'.symm, List.append_cancel_left h⟩
  · have hk : form k = .number := hform ▸ hj
    obtain ⟨htext, hrest⟩ := append_inj_of_numerals
      (fun c hc => isNumeral_of_form hj hc) (fun c hc => isNumeral_of_form hk hc) hr hs h
    exact ⟨plain_eq_of_number hj hk htext, hrest⟩

mutual

/-- A document is read off the front of a text in one way only. -/
theorem render_append_inj : ∀ (j k : Json) {r s : List Char}, Ends r → Ends s →
    (render j).toList ++ r = (render k).toList ++ s → plain j = plain k ∧ r = s
  | .null, _, _, _, hr, hs, h => append_inj_of_form (Or.inl rfl) hr hs h
  | .int _, _, _, _, hr, hs, h => append_inj_of_form (Or.inr rfl) hr hs h
  | .float x, _, _, _, hr, hs, h => by
      have hx : form (.float x) = .null ∨ form (.float x) = .number := by
        cases hx : x.isFinite <;> simp [form, hx]
      exact append_inj_of_form hx hr hs h
  | .bool a, k, r, s, _, _, h => by
      have hk := eq_of_form k
      rw [← form_eq_of_append_eq h] at hk
      obtain ⟨b, rfl⟩ := hk
      cases a <;> cases b
      · exact ⟨rfl, List.append_cancel_left h⟩
      · exact absurd (List.cons.inj h).1 (by decide)
      · exact absurd (List.cons.inj h).1 (by decide)
      · exact ⟨rfl, List.append_cancel_left h⟩
  | .string a, k, r, s, _, _, h => by
      have hk := eq_of_form k
      rw [← form_eq_of_append_eq h] at hk
      obtain ⟨b, rfl⟩ := hk
      obtain ⟨hab, hrest⟩ := quoted_append_inj h
      exact ⟨by rw [hab], hrest⟩
  | .array as, k, r, s, _, _, h => by
      have hk := eq_of_form k
      rw [← form_eq_of_append_eq h] at hk
      obtain ⟨bs, rfl⟩ := hk
      simp only [render, String.toList_append, List.append_assoc] at h
      obtain ⟨hitems, hrest⟩ := renderItems_append_inj as bs (List.cons.inj h).2
      exact ⟨by rw [plain, plain, hitems], hrest⟩
  | .object as, k, r, s, _, _, h => by
      have hk := eq_of_form k
      rw [← form_eq_of_append_eq h] at hk
      obtain ⟨bs, rfl⟩ := hk
      simp only [render, String.toList_append, List.append_assoc] at h
      obtain ⟨hfields, hrest⟩ := renderFields_append_inj as bs (List.cons.inj h).2
      exact ⟨by rw [plain, plain, hfields], hrest⟩

theorem renderItems_append_inj : ∀ (as bs : List Json) {r s : List Char},
    (renderItems as).toList ++ ']' :: r = (renderItems bs).toList ++ ']' :: s →
      plainItems as = plainItems bs ∧ r = s
  | [], [], r, s, h => ⟨rfl, (List.cons.inj h).2⟩
  | [], b :: bs, r, s, h => by
      rw [renderItems_cons, List.append_assoc] at h
      exact absurd h.symm (render_ne_of_formOf?_eq_none rfl)
  | a :: as, [], r, s, h => by
      rw [renderItems_cons, List.append_assoc] at h
      exact absurd h (render_ne_of_formOf?_eq_none rfl)
  | a :: as, b :: bs, r, s, h => by
      rw [renderItems_cons, renderItems_cons, List.append_assoc, List.append_assoc] at h
      obtain ⟨hab, hrest⟩ :=
        render_append_inj a b (ends_afterItem as r) (ends_afterItem bs s) h
      have htail : plainItems as = plainItems bs ∧ r = s := by
        cases as with
        | nil =>
            cases bs with
            | nil => exact ⟨rfl, (List.cons.inj hrest).2⟩
            | cons b' bs => exact absurd (List.cons.inj hrest).1 (by decide)
        | cons a' as =>
            cases bs with
            | nil => exact absurd (List.cons.inj hrest).1 (by decide)
            | cons b' bs =>
                exact renderItems_append_inj (a' :: as) (b' :: bs) (List.cons.inj hrest).2
      exact ⟨by rw [plainItems, plainItems, hab, htail.1], htail.2⟩

theorem renderFields_append_inj : ∀ (as bs : List (String × Json)) {r s : List Char},
    (renderFields as).toList ++ '\x7d' :: r = (renderFields bs).toList ++ '\x7d' :: s →
      plainFields as = plainFields bs ∧ r = s
  | [], [], r, s, h => ⟨rfl, (List.cons.inj h).2⟩
  | [], (key, value) :: bs, r, s, h => by
      rw [renderFields_cons, quoted_toList] at h
      exact absurd (List.cons.inj h).1 (by decide)
  | (key, value) :: as, [], r, s, h => by
      rw [renderFields_cons, quoted_toList] at h
      exact absurd (List.cons.inj h).1 (by decide)
  | (a, x) :: as, (b, y) :: bs, r, s, h => by
      simp only [renderFields_cons, List.append_assoc, List.cons_append] at h
      obtain ⟨hab, hvalue⟩ := quoted_append_inj h
      obtain ⟨hxy, hrest⟩ := render_append_inj x y (ends_afterField as r) (ends_afterField bs s)
        (List.cons.inj hvalue).2
      have htail : plainFields as = plainFields bs ∧ r = s := by
        cases as with
        | nil =>
            cases bs with
            | nil => exact ⟨rfl, (List.cons.inj hrest).2⟩
            | cons b' bs => exact absurd (List.cons.inj hrest).1 (by decide)
        | cons a' as =>
            cases bs with
            | nil => exact absurd (List.cons.inj hrest).1 (by decide)
            | cons b' bs =>
                exact renderFields_append_inj (a' :: as) (b' :: bs) (List.cons.inj hrest).2
      exact ⟨by rw [plainFields, plainFields, hab, hxy, htail.1], htail.2⟩

end

theorem plain_eq_of_render_eq {j k : Json} (h : render j = render k) : plain j = plain k :=
  (render_append_inj j k Ends.nil Ends.nil (by rw [h])).1

theorem renderItems_cons_cons (a b : Json) (rest : List Json) :
    renderItems (a :: b :: rest) = render a ++ "," ++ renderItems (b :: rest) := by
  rw [renderItems]
  simp

theorem renderFields_cons_cons (key : String) (value : Json) (field : String × Json)
    (rest : List (String × Json)) :
    renderFields ((key, value) :: field :: rest) =
      quoted key ++ ":" ++ render value ++ "," ++ renderFields (field :: rest) := by
  rw [renderFields]
  simp

mutual

theorem render_plain : ∀ j : Json, render (plain j) = render j
  | .null | .bool _ | .int _ | .string _ => rfl
  | .float x => by
      cases hx : x.isFinite
      · rw [plain, hx, render, number_of_not_isFinite hx]
        rfl
      · rw [plain, hx]
        rfl
  | .array items => by rw [plain, render, render, renderItems_plain items]
  | .object fields => by rw [plain, render, render, renderFields_plain fields]

theorem renderItems_plain : ∀ items : List Json, renderItems (plainItems items) = renderItems items
  | [] => rfl
  | [item] => by rw [plainItems, plainItems, renderItems, renderItems, render_plain item]
  | a :: b :: rest => by
      have h := renderItems_plain (b :: rest)
      rw [plainItems] at h
      rw [plainItems, plainItems, renderItems_cons_cons, renderItems_cons_cons, render_plain a, h]

theorem renderFields_plain : ∀ fields : List (String × Json),
    renderFields (plainFields fields) = renderFields fields
  | [] => rfl
  | [(key, value)] => by
      rw [plainFields, plainFields, renderFields, renderFields, render_plain value]
  | (a, x) :: (b, y) :: rest => by
      have h := renderFields_plain ((b, y) :: rest)
      rw [plainFields] at h
      rw [plainFields, plainFields, renderFields_cons_cons, renderFields_cons_cons,
        render_plain x, h]

end

/-- The text tells documents apart up to numbers that are not finite, and no further. -/
theorem render_eq_iff {j k : Json} : render j = render k ↔ plain j = plain k :=
  ⟨plain_eq_of_render_eq, fun h => by rw [← render_plain j, h, render_plain k]⟩

end RelScript.Text.Json
