import RelScript.Proofs.Ieee.WrittenForm

/-!
Conversions that lose nothing. Rounding gives back a number that the format has, and every finite
single is a double. So a float that is widened and narrowed again is what it was, up to the payload
of a NaN.
-/

namespace RelScript.Ieee

variable {f g : Format}

section Rounding

theorem unitsOf_eq_mul (f : Format) (magnitude : Nat) :
    unitsOf f magnitude =
      (magnitude - (magnitude / 2 ^ f.fraction - 1) * 2 ^ f.fraction) * gap f magnitude := by
  have hmagnitude := Nat.div_add_mod' magnitude (2 ^ f.fraction)
  rw [unitsOf_eq]
  split
  · rename_i hzero
    simp [gap, hzero]
  · rename_i hpos
    obtain ⟨q, hq⟩ := Nat.exists_eq_succ_of_ne_zero hpos
    rw [hq, Nat.succ_mul] at hmagnitude
    rw [hq, Nat.succ_sub_one]
    congr 1
    omega

theorem unitsOf_zero (f : Format) : unitsOf f 0 = 0 := by
  rw [unitsOf_eq_mul, Nat.zero_sub, Nat.zero_mul]

theorem unitsOf_significand {s : Nat} (hlow : 2 ^ f.fraction ≤ s) (hhigh : s < 2 ^ (f.fraction + 1))
    (e : Nat) : unitsOf f (e * 2 ^ f.fraction + s) = s * 2 ^ e := by
  have hfield : (e * 2 ^ f.fraction + s) / 2 ^ f.fraction = e + 1 := by
    rw [pow_succ] at hhigh
    rw [Nat.add_comm, Nat.add_mul_div_right _ _ (Nat.two_pow_pos _), Nat.add_comm e 1]
    congr 1
    exact Nat.div_eq_of_lt_le (by omega) (by omega)
  rw [unitsOf_eq_mul, gap, hfield, Nat.add_sub_cancel, Nat.add_sub_cancel_left]

theorem log2_unitsOf (f : Format) (magnitude : Nat) :
    (unitsOf f magnitude).log2 - f.fraction = magnitude / 2 ^ f.fraction - 1 := by
  rw [unitsOf_eq]
  split
  · rename_i hzero
    rw [hzero]
    have hsmall := (Nat.div_eq_zero_iff_lt (Nat.two_pow_pos _)).mp hzero
    rcases Nat.eq_zero_or_pos magnitude with rfl | hpos
    · simp [Nat.log2_zero]
    · have := (Nat.log2_lt hpos.ne').mpr hsmall
      omega
  · rename_i hpos
    obtain ⟨q, hq⟩ := Nat.exists_eq_succ_of_ne_zero hpos
    have hmod := Nat.mod_lt magnitude (Nat.two_pow_pos f.fraction)
    have hne : (2 ^ f.fraction + magnitude % 2 ^ f.fraction) * gap f magnitude ≠ 0 :=
      (Nat.mul_pos (by positivity) (gap_pos f magnitude)).ne'
    have hlog : ((2 ^ f.fraction + magnitude % 2 ^ f.fraction) * gap f magnitude).log2 =
        f.fraction + q := by
      rw [Nat.log2_eq_iff hne, gap, hq, Nat.succ_sub_one]
      constructor
      · rw [pow_add]
        exact Nat.mul_le_mul_right _ (Nat.le_add_right _ _)
      · rw [Nat.add_right_comm, pow_add]
        apply Nat.mul_lt_mul_of_pos_right _ (Nat.two_pow_pos q)
        rw [pow_succ]
        omega
    rw [hlog, hq]
    omega

theorem roundQuotient_mul (n : Nat) {den : Nat} (hden : 0 < den) :
    roundQuotient (n * den) den = n := by
  simp only [roundQuotient, Nat.mul_div_cancel _ hden, Nat.mul_mod_left]
  rw [if_pos (by omega)]

/-- Rounding leaves a number of the format alone. -/
theorem roundMagnitude_unitsOf {magnitude : Nat} (hle : magnitude ≤ f.infinity) {den : Nat}
    (hden : 0 < den) : roundMagnitude f (unitsOf f magnitude * den) den = magnitude := by
  have hunits : unitsOf f magnitude * den =
      (magnitude - (magnitude / 2 ^ f.fraction - 1) * 2 ^ f.fraction) *
        (den * Nat.pow 2 (magnitude / 2 ^ f.fraction - 1)) := by
    rw [unitsOf_eq_mul, gap, Nat.mul_assoc, Nat.mul_comm _ den]
    rfl
  have hshift : (magnitude / 2 ^ f.fraction - 1) * 2 ^ f.fraction ≤ magnitude :=
    (Nat.mul_le_mul_right _ (Nat.sub_le _ _)).trans (Nat.div_mul_le_self _ _)
  have hunit : 0 < den * Nat.pow 2 (magnitude / 2 ^ f.fraction - 1) :=
    Nat.mul_pos hden (Nat.two_pow_pos _)
  simp only [roundMagnitude, Nat.mul_div_cancel _ hden, log2_unitsOf]
  rw [hunits, roundQuotient_mul _ hunit]
  show min (_ * 2 ^ f.fraction + _) _ = _
  rw [Nat.add_sub_of_le hshift, Nat.min_eq_left hle]

end Rounding

section Patterns

theorem signBit_eq (f : Format) : f.signBit = f.infinity + 2 ^ f.fraction := by
  have hexponent := Nat.two_pow_pos f.exponent
  show 2 ^ (f.exponent + f.fraction) = (2 ^ f.exponent - 1) * 2 ^ f.fraction + 2 ^ f.fraction
  rw [pow_add, ← Nat.succ_mul, Nat.succ_eq_add_one, Nat.sub_add_cancel hexponent]

theorem toNat_pattern {magnitude : Nat} (h : magnitude < f.signBit) (negative : Bool) :
    (pattern f negative magnitude).word.toNat =
      magnitude + if negative then f.signBit else 0 := by
  have hwidth : 2 ^ f.width = 2 * f.signBit := by
    rw [Format.width, pow_succ, Nat.mul_comm]
    rfl
  rw [pattern, BitVec.toNat_ofNat, Nat.mod_eq_of_lt]
  split <;> omega

theorem magnitude_pattern {magnitude : Nat} (h : magnitude < f.signBit) (negative : Bool) :
    (pattern f negative magnitude).magnitude = magnitude := by
  rw [Bits.magnitude, toNat_pattern h]
  cases negative
  · exact Nat.mod_eq_of_lt h
  · rw [if_pos rfl, Nat.add_mod_right, Nat.mod_eq_of_lt h]

theorem negative_pattern {magnitude : Nat} (h : magnitude < f.signBit) (negative : Bool) :
    (pattern f negative magnitude).negative = negative := by
  rw [Bits.negative, toNat_pattern h]
  cases negative <;> simp [h]

namespace Bits

/-- One float, or no number on both sides. -/
def Same (x y : Bits f) : Prop := x = y ∨ x.isNaN = true ∧ y.isNaN = true

theorem Same.symm {x y : Bits f} (h : x.Same y) : y.Same x := h.imp Eq.symm And.symm

theorem Same.trans {x y z : Bits f} (h : x.Same y) (h' : y.Same z) : x.Same z := by
  rcases h with rfl | ⟨hx, hy⟩
  · exact h'
  · rcases h' with rfl | ⟨-, hz⟩
    · exact Or.inr ⟨hx, hy⟩
    · exact Or.inr ⟨hx, hz⟩

theorem magnitude_lt (x : Bits f) : x.magnitude < f.signBit := Nat.mod_lt _ (Nat.two_pow_pos _)

theorem pattern_magnitude (x : Bits f) : pattern f x.negative x.magnitude = x :=
  eq_of_sign_magnitude (negative_pattern x.magnitude_lt _) (magnitude_pattern x.magnitude_lt _)

theorem number_of_finite {x : Bits f} (h : x.magnitude < f.infinity) :
    x.number = .finite x.negative (unitsOf f x.magnitude) := by
  rw [number, isNaN, decide_eq_false h.le.not_gt, if_neg Bool.false_ne_true, if_neg h.ne]

theorem number_of_infinite {x : Bits f} (h : x.magnitude = f.infinity) :
    x.number = .infinite x.negative := by
  rw [number, isNaN, decide_eq_false h.le.not_gt, if_neg Bool.false_ne_true, if_pos h]

theorem number_of_isNaN {x : Bits f} (h : x.isNaN = true) : x.number = .nan := by
  rw [number, if_pos h]

theorem convert_self (x : Bits f) : x.convert f = x := dif_pos rfl

/-- The payload of a quiet NaN. -/
def quietPayload (g : Format) (payload : Nat) : Nat :=
  if payload < g.quietBit then payload + g.quietBit else payload

theorem quietPayload_cases (g : Format) (payload : Nat) :
    payload < g.quietBit ∧ quietPayload g payload = payload + g.quietBit ∨
      g.quietBit ≤ payload ∧ quietPayload g payload = payload := by
  unfold quietPayload
  split <;> omega

theorem quietPayload_bounds {payload : Nat} (h : payload < 2 ^ g.fraction) (hg : 0 < g.fraction) :
    0 < quietPayload g payload ∧ quietPayload g payload < 2 ^ g.fraction := by
  have hquiet : 0 < g.quietBit := Nat.two_pow_pos _
  have hdouble : 2 * g.quietBit = 2 ^ g.fraction := by
    show 2 * 2 ^ (g.fraction - 1) = _
    rw [← pow_succ', Nat.sub_add_cancel hg]
  rcases quietPayload_cases g payload with hcase | hcase <;> omega

theorem convert_of_isNaN {x : Bits f} (h : x.isNaN = true) (hg : 0 < g.fraction) (hfg : f ≠ g) :
    (x.convert g).negative = x.negative ∧ ∃ payload < 2 ^ g.fraction,
      payload = x.magnitude % 2 ^ f.fraction * 2 ^ g.fraction / 2 ^ f.fraction ∧
        (x.convert g).magnitude = g.infinity + quietPayload g payload := by
  have hpayload : x.magnitude % 2 ^ f.fraction * 2 ^ g.fraction / 2 ^ f.fraction <
      2 ^ g.fraction := by
    rw [Nat.div_lt_iff_lt_mul (Nat.two_pow_pos _), Nat.mul_comm]
    exact Nat.mul_lt_mul_of_pos_left (Nat.mod_lt _ (Nat.two_pow_pos _)) (Nat.two_pow_pos _)
  have hbelow : g.infinity + quietPayload g
      (x.magnitude % 2 ^ f.fraction * 2 ^ g.fraction / 2 ^ f.fraction) < g.signBit := by
    rw [signBit_eq]
    exact Nat.add_lt_add_left (quietPayload_bounds hpayload hg).2 _
  simp only [convert, dif_neg hfg, number_of_isNaN h, Nat.pow_eq]
  exact ⟨negative_pattern hbelow _, _, hpayload, rfl, magnitude_pattern hbelow _⟩

theorem isNaN_convert {x : Bits f} (h : x.isNaN = true) (hg : 0 < g.fraction) :
    (x.convert g).isNaN = true := by
  by_cases hfg : f = g
  · subst hfg
    rwa [convert_self]
  · obtain ⟨-, payload, hpayload, -, hmagnitude⟩ := convert_of_isNaN h hg hfg
    rw [isNaN, hmagnitude, decide_eq_true_eq]
    exact Nat.lt_add_of_pos_right (quietPayload_bounds hpayload hg).1

theorem convert_of_infinite {x : Bits f} (h : x.magnitude = f.infinity) (g : Format) :
    x.convert g = pattern g x.negative g.infinity := by
  by_cases hfg : f = g
  · subst hfg
    rw [convert_self, ← h, pattern_magnitude]
  · simp only [convert, dif_neg hfg, number_of_infinite h, infinity]

theorem convert_of_finite {x : Bits f} (h : x.magnitude < f.infinity) {magnitude : Nat}
    (hle : magnitude ≤ g.infinity)
    (hunits : unitsOf f x.magnitude * g.one = unitsOf g magnitude * f.one) :
    x.convert g = pattern g x.negative magnitude := by
  by_cases hfg : f = g
  · subst hfg
    have hback := roundMagnitude_unitsOf h.le (one_pos f)
    rw [hunits, roundMagnitude_unitsOf hle (one_pos f)] at hback
    rw [convert_self, hback, pattern_magnitude]
  · simp only [convert, dif_neg hfg, number_of_finite h, round, hunits,
      roundMagnitude_unitsOf hle (one_pos f)]

theorem same_convert_convert (hf : 0 < f.fraction) (hg : 0 < g.fraction) {x : Bits f}
    (hcovers : x.magnitude < f.infinity → ∃ magnitude < g.infinity,
      unitsOf f x.magnitude * g.one = unitsOf g magnitude * f.one) :
    ((x.convert g).convert f).Same x := by
  have hbelow : ∀ {h : Format} {m : Nat}, m ≤ h.infinity → m < h.signBit := by
    intro h m hm
    have := Nat.two_pow_pos h.fraction
    rw [signBit_eq]
    omega
  rcases Nat.lt_trichotomy x.magnitude f.infinity with hfinite | hinfinite | hnan
  · obtain ⟨magnitude, hlt, hunits⟩ := hcovers hfinite
    have hmagnitude := magnitude_pattern (hbelow hlt.le) x.negative
    have hnegative := negative_pattern (hbelow hlt.le) x.negative
    have hback := convert_of_finite (x := pattern g x.negative magnitude) (g := f)
      (hmagnitude.trans_lt hlt) hfinite.le (by rw [hmagnitude, hunits])
    left
    rw [convert_of_finite hfinite hlt.le hunits, hback, hnegative, pattern_magnitude]
  · left
    have hmagnitude := magnitude_pattern (hbelow (le_refl g.infinity)) x.negative
    rw [convert_of_infinite hinfinite, convert_of_infinite hmagnitude,
      negative_pattern (hbelow le_rfl), ← hinfinite, pattern_magnitude]
  · right
    have hx : x.isNaN = true := decide_eq_true hnan
    exact ⟨isNaN_convert (isNaN_convert hx hg) hf, hx⟩

end Bits

end Patterns

section Doubles

theorem mul_pow_log2 {a n : Nat} (ha : a ≠ 0) (hn : a.log2 ≤ n) :
    2 ^ n ≤ a * 2 ^ (n - a.log2) ∧ a * 2 ^ (n - a.log2) < 2 ^ (n + 1) := by
  obtain ⟨hlow, hhigh⟩ := (Nat.log2_eq_iff ha).mp rfl
  constructor
  · calc 2 ^ n = 2 ^ a.log2 * 2 ^ (n - a.log2) := by rw [← pow_add, Nat.add_sub_of_le hn]
      _ ≤ a * 2 ^ (n - a.log2) := Nat.mul_le_mul_right _ hlow
  · calc a * 2 ^ (n - a.log2) < 2 ^ (a.log2 + 1) * 2 ^ (n - a.log2) :=
          Nat.mul_lt_mul_of_pos_right hhigh (Nat.two_pow_pos _)
      _ = 2 ^ (n + 1) := by rw [← pow_add, Nat.add_right_comm, Nat.add_sub_of_le hn]

theorem exists_unitsOf_double {magnitude : Nat} (hpos : 0 < magnitude)
    (hlt : magnitude < Format.single.infinity) :
    ∃ m < Format.double.infinity, unitsOf .double m = unitsOf .single magnitude * 2 ^ 925 := by
  have hsize := unitsOf_lt .single magnitude
  have hunits := gap_le_unitsOf (f := .single) hpos
  have hgap := gap_pos .single magnitude
  rw [unitsOf_eq_mul, gap] at hsize hunits ⊢
  rw [gap] at hgap
  have hexponent : magnitude / 2 ^ Format.single.fraction - 1 ≤ 253 := by
    have : magnitude / 2 ^ Format.single.fraction < 255 :=
      (Nat.div_lt_iff_lt_mul (Nat.two_pow_pos _)).mpr hlt
    omega
  generalize magnitude / 2 ^ Format.single.fraction - 1 = q at *
  generalize magnitude - q * 2 ^ Format.single.fraction = a at *
  have hapos : a ≠ 0 := by
    rintro rfl
    rw [Nat.zero_mul] at hunits
    omega
  have hasmall : a < 2 ^ 24 := Nat.lt_of_mul_lt_mul_right hsize
  have hlog : a.log2 < 24 := (Nat.log2_lt hapos).mpr hasmall
  obtain ⟨hlow, hhigh⟩ := mul_pow_log2 (n := 52) hapos (by omega)
  generalize a.log2 = l at *
  refine ⟨(q + 873 + l) * 2 ^ 52 + a * 2 ^ (52 - l), ?_, ?_⟩
  · have hfield : (q + 873 + l) * 2 ^ 52 ≤ 1149 * 2 ^ 52 := Nat.mul_le_mul_right _ (by omega)
    show _ < 2047 * 2 ^ 52
    omega
  · refine (unitsOf_significand (f := .double) hlow hhigh _).trans ?_
    rw [Nat.mul_assoc, Nat.mul_assoc, ← pow_add, ← pow_add]
    congr 2
    omega

theorem one_eq (f : Format) : f.one = 2 ^ (2 ^ (f.exponent - 1) - 2 + f.fraction) := rfl

theorem one_double : Format.double.one = 2 ^ 925 * Format.single.one := by
  have hexponent : 2 ^ (Format.double.exponent - 1) - 2 + Format.double.fraction =
      925 + (2 ^ (Format.single.exponent - 1) - 2 + Format.single.fraction) := by decide
  rw [one_eq, one_eq, hexponent, pow_add]

/-- Every finite single is a double. -/
theorem exists_double_of_single {magnitude : Nat} (hlt : magnitude < Format.single.infinity) :
    ∃ m < Format.double.infinity,
      unitsOf .single magnitude * Format.double.one = unitsOf .double m * Format.single.one := by
  rcases Nat.eq_zero_or_pos magnitude with rfl | hpos
  · refine ⟨0, by decide, ?_⟩
    rw [unitsOf_zero, unitsOf_zero, Nat.zero_mul, Nat.zero_mul]
  · obtain ⟨m, hm, hunits⟩ := exists_unitsOf_double hpos hlt
    refine ⟨m, hm, ?_⟩
    rw [hunits, one_double, Nat.mul_assoc]

theorem Bits.same_single (x : Bits .single) : ((x.convert .double).convert .single).Same x :=
  same_convert_convert (by decide) (by decide) exists_double_of_single

theorem Bits.same_double (x : Bits .double) : ((x.convert .double).convert .double).Same x :=
  Or.inl ((convert_self _).trans (convert_self x))

theorem Bits.widened_single (x : Bits .single) :
    ((x.convert .double).convert .single).convert .double = x.convert .double := by
  rcases same_single x with hback | ⟨hback, hx⟩
  · rw [hback]
  · have hwide := isNaN_convert (g := .double) hx (by decide)
    obtain ⟨-, p, hp, hpayload, hmagnitude⟩ :=
      convert_of_isNaN (g := .double) hx (by decide) (by decide)
    obtain ⟨hsign, p', hp', hpayload', hmagnitude'⟩ :=
      convert_of_isNaN (g := .single) hwide (by decide) (by decide)
    obtain ⟨hsign', p'', hp'', hpayload'', hmagnitude''⟩ :=
      convert_of_isNaN (g := .double) hback (by decide) (by decide)
    refine eq_of_sign_magnitude (hsign'.trans hsign) ?_
    rw [hmagnitude] at hpayload' ⊢
    rw [hmagnitude'] at hpayload''
    rw [hmagnitude'']
    -- The quiet bit is the first of the payload in both formats, and so it is kept once it is set.
    have hq := quietPayload_cases .double p
    have hq' := quietPayload_cases .single p'
    have hq'' := quietPayload_cases .double p''
    simp only [Format.quietBit, Format.infinity, Format.double, Format.single, Nat.pow_eq] at *
    omega

end Doubles

end RelScript.Ieee
