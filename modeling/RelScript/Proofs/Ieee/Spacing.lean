import Mathlib.Algebra.Order.Field.Power
import Mathlib.Tactic.Linarith
import Mathlib.Tactic.Positivity
import Mathlib.Tactic.Ring
import Mathlib.Tactic.FieldSimp
import Mathlib.Tactic.NormNum
import RelScript.Ieee.Shortest

/-!
The rounding intervals of the magnitudes of a format lie side by side and share no decimal, and the
fewest digits found for a magnitude lie in its interval. So the digits of a number name no other
number.
-/

namespace RelScript.Ieee

variable {f : Format}

/-- Distance from a magnitude to the next one, in units. -/
def gap (f : Format) (magnitude : Nat) : Nat := 2 ^ (magnitude / 2 ^ f.fraction - 1)

theorem gap_pos (f : Format) (magnitude : Nat) : 0 < gap f magnitude :=
  Nat.two_pow_pos _

theorem one_pos (f : Format) : 0 < f.one := Nat.two_pow_pos _

theorem unitsOf_eq (f : Format) (magnitude : Nat) :
    unitsOf f magnitude =
      if magnitude / 2 ^ f.fraction = 0 then magnitude
      else (2 ^ f.fraction + magnitude % 2 ^ f.fraction) * gap f magnitude := rfl

theorem unitsOf_succ (f : Format) (magnitude : Nat) :
    unitsOf f (magnitude + 1) = unitsOf f magnitude + gap f magnitude := by
  have hP : 0 < 2 ^ f.fraction := Nat.two_pow_pos _
  simp only [unitsOf_eq, gap]
  generalize 2 ^ f.fraction = P at hP
  -- The successor either stays in its binade or opens the next one.
  by_cases hdvd : P ∣ magnitude + 1
  · obtain ⟨k, hk⟩ := hdvd
    obtain ⟨q, rfl⟩ : ∃ q, k = q + 1 := ⟨k - 1, by
      rcases k with _ | k
      · simp at hk
      · rfl⟩
    have hsum : magnitude = P * q + (P - 1) := by
      rw [Nat.mul_succ] at hk
      omega
    have hdiv : magnitude / P = q := by
      rw [hsum, Nat.mul_add_div hP, Nat.div_eq_of_lt (by omega), Nat.add_zero]
    have hmod : magnitude % P = P - 1 := by
      rw [hsum, Nat.mul_add_mod, Nat.mod_eq_of_lt (by omega)]
    rw [hk, Nat.mul_div_cancel_left _ hP, Nat.mul_mod_right, hdiv, hmod]
    rcases q with _ | q
    · simp only [Nat.zero_add, Nat.mul_zero] at hsum ⊢
      rw [if_neg (by omega), if_pos trivial, hsum]
      simp only [Nat.add_zero, Nat.sub_self, pow_zero, Nat.mul_one, Nat.zero_sub]
      omega
    · rw [if_neg (by omega), if_neg (by omega), Nat.add_sub_cancel, Nat.add_sub_cancel]
      calc (P + 0) * 2 ^ (q + 1) = 2 * P * 2 ^ q := by rw [pow_succ]; ring
        _ = (P + (P - 1) + 1) * 2 ^ q := by congr 1; omega
        _ = (P + (P - 1)) * 2 ^ q + 2 ^ q := by ring
  · have hdiv : (magnitude + 1) / P = magnitude / P := Nat.succ_div_of_not_dvd hdvd
    have hmod : (magnitude + 1) % P = magnitude % P + 1 := by
      have h := Nat.div_add_mod (magnitude + 1) P
      rw [hdiv] at h
      have := Nat.div_add_mod magnitude P
      omega
    rw [hdiv, hmod]
    split
    · rename_i hzero
      simp [hzero]
    · ring

theorem gap_le_unitsOf {magnitude : Nat} (hpos : 0 < magnitude) :
    gap f magnitude ≤ unitsOf f magnitude := by
  rw [unitsOf_eq]
  split
  · rename_i hzero
    simp only [gap, hzero]
    omega
  · exact Nat.le_mul_of_pos_left _ (by positivity)

theorem unitsOf_lt (f : Format) (magnitude : Nat) :
    unitsOf f magnitude < 2 ^ (f.fraction + 1) * gap f magnitude := by
  have hP : 0 < 2 ^ f.fraction := Nat.two_pow_pos _
  rw [unitsOf_eq, pow_succ]
  split
  · rename_i hzero
    have hsmall : magnitude < 2 ^ f.fraction := (Nat.div_eq_zero_iff_lt hP).mp hzero
    simp only [gap, hzero]
    omega
  · apply Nat.mul_lt_mul_of_pos_right _ (gap_pos f magnitude)
    have := Nat.mod_lt magnitude hP
    omega

/-- Distance from the lower bound of an interval to its number, in quarters of a unit. -/
def lowerGap (f : Format) (magnitude : Nat) : Nat :=
  if magnitude % 2 ^ f.fraction = 0 ∧ 2 ^ f.fraction < magnitude then gap f magnitude
  else 2 * gap f magnitude

theorem intervalOf_lower (f : Format) (magnitude : Nat) :
    (intervalOf f magnitude).lower = 4 * unitsOf f magnitude - lowerGap f magnitude := rfl

theorem intervalOf_upper (f : Format) (magnitude : Nat) :
    (intervalOf f magnitude).upper = 4 * unitsOf f magnitude + 2 * gap f magnitude := rfl

theorem gap_le_lowerGap (f : Format) (magnitude : Nat) :
    gap f magnitude ≤ lowerGap f magnitude := by
  unfold lowerGap
  split <;> omega

theorem lowerGap_le (f : Format) (magnitude : Nat) :
    lowerGap f magnitude ≤ 2 * gap f magnitude := by
  unfold lowerGap
  split <;> omega

theorem intervalOf_lower_pos {magnitude : Nat} (hpos : 0 < magnitude) :
    0 < (intervalOf f magnitude).lower := by
  rw [intervalOf_lower]
  have := gap_le_unitsOf (f := f) hpos
  have := lowerGap_le f magnitude
  have := gap_pos f magnitude
  omega

theorem intervalOf_lower_lt_upper (f : Format) (magnitude : Nat) :
    (intervalOf f magnitude).lower < (intervalOf f magnitude).upper := by
  rw [intervalOf_lower, intervalOf_upper]
  have := gap_pos f magnitude
  omega

theorem lowerGap_succ (f : Format) (magnitude : Nat) :
    lowerGap f (magnitude + 1) = 2 * gap f magnitude := by
  have hP : 0 < 2 ^ f.fraction := Nat.two_pow_pos _
  unfold lowerGap gap
  generalize 2 ^ f.fraction = P at hP
  by_cases hdvd : P ∣ magnitude + 1
  · rw [Nat.succ_div_of_dvd hdvd, Nat.mod_eq_zero_of_dvd hdvd]
    rcases Nat.eq_zero_or_pos (magnitude / P) with hzero | hpos
    · have hsmall : magnitude < P := (Nat.div_eq_zero_iff_lt hP).mp hzero
      rw [if_neg (by omega), hzero]
    · obtain ⟨q, hq⟩ : ∃ q, magnitude / P = q + 1 := ⟨magnitude / P - 1, by omega⟩
      have hlarge : P < magnitude + 1 := by
        have := Nat.div_mul_le_self magnitude P
        rw [hq, Nat.add_mul] at this
        omega
      rw [if_pos ⟨rfl, hlarge⟩, hq, Nat.add_sub_cancel, Nat.add_sub_cancel, pow_succ]
      ring
  · have hmod : ¬ ((magnitude + 1) % P = 0 ∧ P < magnitude + 1) := fun h =>
      hdvd (Nat.dvd_of_mod_eq_zero h.1)
    rw [if_neg hmod, Nat.succ_div_of_not_dvd hdvd]

theorem intervalOf_lower_succ (f : Format) (magnitude : Nat) :
    (intervalOf f (magnitude + 1)).lower = (intervalOf f magnitude).upper := by
  rw [intervalOf_lower, intervalOf_upper, unitsOf_succ, lowerGap_succ]
  omega

theorem intervalOf_upper_le_lower {m n : Nat} (hlt : m < n) :
    (intervalOf f m).upper ≤ (intervalOf f n).lower := by
  induction n, hlt using Nat.le_induction with
  | base => exact (intervalOf_lower_succ f m).ge
  | succ n _ ih =>
      rw [intervalOf_lower_succ]
      exact ih.trans (intervalOf_lower_lt_upper f n).le

/-- The number that a decimal stands for. -/
def Decimal.value (d : Decimal) : ℚ := d.digits * (10 : ℚ) ^ d.exponent

theorem ten_zpow_eq (e : ℤ) :
    (10 : ℚ) ^ e = ((10 ^ e.toNat : ℕ) : ℚ) / ((10 ^ (-e).toNat : ℕ) : ℚ) := by
  rcases le_total 0 e with h | h
  · obtain ⟨n, rfl⟩ := Int.eq_ofNat_of_zero_le h
    simp
  · obtain ⟨n, hn⟩ := Int.eq_ofNat_of_zero_le (neg_nonneg.mpr h)
    obtain rfl : e = -n := by omega
    simp [zpow_neg]

theorem holds_iff (i : Interval) (d : Decimal) :
    i.holds f d ↔
      if i.closed then (i.lower : ℚ) ≤ 4 * d.value * f.one ∧ 4 * d.value * f.one ≤ i.upper
      else (i.lower : ℚ) < 4 * d.value * f.one ∧ 4 * d.value * f.one < i.upper := by
  have hscale : (0 : ℚ) < ((10 ^ (-d.exponent).toNat : ℕ) : ℚ) := by positivity
  have hvalue : 4 * d.value * f.one =
      ((4 * d.digits * 10 ^ d.exponent.toNat * f.one : ℕ) : ℚ) /
        ((10 ^ (-d.exponent).toNat : ℕ) : ℚ) := by
    rw [Decimal.value, ten_zpow_eq]
    push_cast
    ring
  rw [hvalue]
  unfold Interval.holds
  cases i.closed
  · simp only [Bool.false_eq_true, if_false, Bool.and_eq_true, decide_eq_true_eq,
      lt_div_iff₀ hscale, div_lt_iff₀ hscale]
    norm_cast
  · simp only [if_true, Bool.and_eq_true, decide_eq_true_eq, le_div_iff₀ hscale,
      div_le_iff₀ hscale]
    norm_cast

theorem value_bounds_of_holds {i : Interval} {d : Decimal} (h : i.holds f d) :
    (i.lower : ℚ) ≤ 4 * d.value * f.one ∧ 4 * d.value * f.one ≤ i.upper := by
  rw [holds_iff] at h
  split at h
  · exact h
  · exact ⟨h.1.le, h.2.le⟩

theorem holds_of_value_lt {i : Interval} {d : Decimal}
    (hlower : (i.lower : ℚ) < 4 * d.value * f.one) (hupper : 4 * d.value * f.one < i.upper) :
    i.holds f d := by
  rw [holds_iff]
  split
  · exact ⟨hlower.le, hupper.le⟩
  · exact ⟨hlower, hupper⟩

/-- The two magnitudes at a shared bound have different parity, so at most one of them owns it. -/
theorem not_holds_of_lt {m n : Nat} {d e : Decimal} (hlt : m < n) (hvalue : d.value = e.value)
    (hm : (intervalOf f m).holds f d) : ¬ (intervalOf f n).holds f e := by
  intro hn
  have hm' := (value_bounds_of_holds hm).2
  have hn' := (value_bounds_of_holds hn).1
  rw [hvalue] at hm'
  rcases Nat.lt_or_ge (m + 1) n with hfar | hnear
  · have hgap : (intervalOf f m).upper < (intervalOf f n).lower := by
      calc (intervalOf f m).upper = (intervalOf f (m + 1)).lower :=
            (intervalOf_lower_succ f m).symm
        _ < (intervalOf f (m + 1)).upper := intervalOf_lower_lt_upper f _
        _ ≤ (intervalOf f n).lower := intervalOf_upper_le_lower hfar
    have hgap' : ((intervalOf f m).upper : ℚ) < (intervalOf f n).lower := by exact_mod_cast hgap
    linarith
  · obtain rfl : n = m + 1 := by omega
    rw [holds_iff] at hm hn
    have hbound := intervalOf_lower_succ f m
    have hclosed : (intervalOf f m).closed = !(intervalOf f (m + 1)).closed := by
      have h : (m + 1) % 2 = 0 ↔ ¬ m % 2 = 0 := by omega
      simp only [intervalOf, h, decide_not, Bool.not_not]
    rw [hbound] at hn hn'
    rw [hclosed] at hm
    rw [hvalue] at hm
    cases hc : (intervalOf f (m + 1)).closed <;> simp [hc] at hm hn <;> linarith

theorem eq_of_holds {m n : Nat} {d e : Decimal} (hvalue : d.value = e.value)
    (hm : (intervalOf f m).holds f d) (hn : (intervalOf f n).holds f e) : m = n := by
  rcases Nat.lt_trichotomy m n with h | h | h
  · exact absurd hn (not_holds_of_lt h hvalue hm)
  · exact h
  · exact absurd hm (not_holds_of_lt h hvalue.symm hn)

theorem twice_roundQuotient_sub (num : Nat) {den : Nat} (hden : 0 < den) :
    2 * num ≤ 2 * (roundQuotient num den * den) + den ∧
      2 * (roundQuotient num den * den) ≤ 2 * num + den := by
  have hnum := Nat.div_add_mod num den
  have hmod := Nat.mod_lt num hden
  rw [Nat.mul_comm] at hnum
  simp only [roundQuotient]
  split
  · omega
  · split
    · rw [Nat.add_mul]
      omega
    · split
      · omega
      · rw [Nat.add_mul]
        omega

theorem twice_nearest_sub (tie : Tie) (num : Nat) {den : Nat} (hden : 0 < den) :
    2 * num ≤ 2 * (tie.nearest num den * den) + den ∧
      2 * (tie.nearest num den * den) ≤ 2 * num + den := by
  cases tie with
  | even => exact twice_roundQuotient_sub num hden
  | away =>
      have h := Nat.div_add_mod (2 * num + den) (2 * den)
      have hmod := Nat.mod_lt (2 * num + den) (y := 2 * den) (by omega)
      have hcomm : 2 * den * ((2 * num + den) / (2 * den)) =
          2 * ((2 * num + den) / (2 * den) * den) := by ring
      rw [hcomm] at h
      simp only [Tie.nearest]
      omega

theorem abs_nearest_sub_le (f : Format) (tie : Tie) (units : Nat) (exponent : ℤ) :
    |(Decimal.mk (tie.nearest (units * Nat.pow 10 (-exponent).toNat)
        (f.one * Nat.pow 10 exponent.toNat)) exponent).value * f.one - units| ≤
      (10 : ℚ) ^ exponent * f.one / 2 := by
  have hone : (0 : ℚ) < f.one := by exact_mod_cast one_pos f
  have hscale : (0 : ℚ) < ((10 ^ (-exponent).toNat : ℕ) : ℚ) := by positivity
  have hden : 0 < f.one * 10 ^ exponent.toNat := Nat.mul_pos (one_pos f) (by positivity)
  obtain ⟨hlow, hhigh⟩ := twice_nearest_sub tie (units * 10 ^ (-exponent).toNat) hden
  simp only [Decimal.value, ten_zpow_eq, Nat.pow_eq]
  generalize tie.nearest (units * 10 ^ (-exponent).toNat) (f.one * 10 ^ exponent.toNat) = n at *
  have hlow' : 2 * ((units : ℚ) * ((10 ^ (-exponent).toNat : ℕ) : ℚ)) ≤
      2 * (n * (f.one * ((10 ^ exponent.toNat : ℕ) : ℚ))) +
        f.one * ((10 ^ exponent.toNat : ℕ) : ℚ) := by exact_mod_cast hlow
  have hhigh' : 2 * ((n : ℚ) * (f.one * ((10 ^ exponent.toNat : ℕ) : ℚ))) ≤
      2 * (units * ((10 ^ (-exponent).toNat : ℕ) : ℚ)) +
        f.one * ((10 ^ exponent.toNat : ℕ) : ℚ) := by exact_mod_cast hhigh
  generalize ((10 ^ (-exponent).toNat : ℕ) : ℚ) = s at *
  generalize ((10 ^ exponent.toNat : ℕ) : ℚ) = p at *
  rw [abs_le]
  have hcancel : (n : ℚ) * (p / s) * f.one - units = (n * p * f.one - units * s) / s := by
    field_simp
  rw [hcancel, show p / s * (f.one : ℚ) / 2 = (p * f.one / 2) / s by ring]
  constructor
  · rw [← neg_div]
    gcongr
    linarith
  · gcongr
    linarith

theorem digitCount_pos (n : Nat) : 0 < digitCount n := Nat.length_toDigits_pos

theorem lt_ten_pow_digitCount (n : Nat) : n < 10 ^ digitCount n :=
  (Nat.length_toDigits_le_iff (by omega) Nat.length_toDigits_pos).mp le_rfl

theorem ten_pow_digitCount_le {n : Nat} (hn : 0 < n) : 10 ^ (digitCount n - 1) ≤ n := by
  by_contra hlt
  rcases Nat.eq_zero_or_pos (digitCount n - 1) with hzero | hk
  · rw [hzero] at hlt
    omega
  · have hle : digitCount n ≤ digitCount n - 1 :=
      (Nat.length_toDigits_le_iff (by omega) hk).mpr (Nat.lt_of_not_le hlt)
    omega

theorem ten_zpow_decimalPlace_le {units : Nat} (hpos : 0 < units) :
    (10 : ℚ) ^ (decimalPlace f units - 1) * f.one ≤ units := by
  unfold decimalPlace
  split
  · rename_i hle
    have hq : 0 < units / f.one := Nat.div_pos hle (one_pos f)
    have hlow := ten_pow_digitCount_le hq
    have hexp : ((digitCount (units / f.one) : ℤ) - 1) =
        ((digitCount (units / f.one) - 1 : ℕ) : ℤ) := by
      have := digitCount_pos (units / f.one)
      omega
    rw [hexp, zpow_natCast]
    have : 10 ^ (digitCount (units / f.one) - 1) * f.one ≤ units :=
      (Nat.mul_le_mul_right _ hlow).trans (Nat.div_mul_le_self _ _)
    exact_mod_cast this
  · rename_i hlt
    have hhigh := lt_ten_pow_digitCount ((f.one - 1) / units)
    generalize digitCount ((f.one - 1) / units) = c at *
    have hone : f.one ≤ 10 ^ c * units := by
      have h1 := Nat.div_add_mod (f.one - 1) units
      have h2 := Nat.mod_lt (f.one - 1) hpos
      have h3 : ((f.one - 1) / units + 1) * units ≤ 10 ^ c * units := Nat.mul_le_mul_right _ hhigh
      have h4 := one_pos f
      rw [Nat.add_mul, Nat.mul_comm] at h3
      omega
    rw [show (1 - (c : ℤ) - 1) = -(c : ℤ) by ring, zpow_neg, zpow_natCast,
      inv_mul_le_iff₀ (by positivity)]
    exact_mod_cast hone

theorem Decimal.value_strip (d : Decimal) : d.strip.value = d.value := by
  fun_induction Decimal.strip d with
  | case1 d hzero => rfl
  | case2 d hpos hdvd ih =>
      rw [ih]
      have hdigits : (d.digits : ℚ) = 10 * (d.digits / 10 : ℕ) := by
        exact_mod_cast (Nat.mul_div_cancel' (Nat.dvd_of_mod_eq_zero hdvd)).symm
      simp only [Decimal.value]
      rw [hdigits, zpow_add₀ (by norm_num), zpow_one]
      ring
  | case3 d hpos hlast => rfl

theorem holds_of_near {magnitude : Nat} (hpos : 0 < magnitude) {d : Decimal}
    (hnear : |d.value * f.one - unitsOf f magnitude| < gap f magnitude / 4) :
    (intervalOf f magnitude).holds f d := by
  obtain ⟨hbelow, habove⟩ := abs_lt.mp hnear
  have hlower : ((intervalOf f magnitude).lower : ℚ) ≤
      4 * unitsOf f magnitude - gap f magnitude := by
    have h1 := gap_le_lowerGap f magnitude
    have h2 := gap_le_unitsOf (f := f) hpos
    rw [intervalOf_lower, le_sub_iff_add_le]
    have : 4 * unitsOf f magnitude - lowerGap f magnitude + gap f magnitude ≤
        4 * unitsOf f magnitude := by omega
    exact_mod_cast this
  have hupper : (4 * unitsOf f magnitude + gap f magnitude : ℚ) ≤
      (intervalOf f magnitude).upper := by
    rw [intervalOf_upper]
    push_cast
    linarith [(Nat.cast_nonneg (gap f magnitude) : (0 : ℚ) ≤ _)]
  apply holds_of_value_lt
  · linarith
  · linarith

/-- Eighteen digits always suffice, so the last grid needs no test. -/
theorem searchGrids_zero_holds (hformat : f.fraction ≤ 52) (tie : Tie) {magnitude : Nat}
    (hpos : 0 < magnitude) :
    (intervalOf f magnitude).holds f
      (searchGrids f tie (unitsOf f magnitude) (intervalOf f magnitude)
        (decimalPlace f (unitsOf f magnitude)) 0 18) := by
  have hgap := gap_pos f magnitude
  have hunits : 0 < unitsOf f magnitude := hgap.trans_le (gap_le_unitsOf hpos)
  have hplace := ten_zpow_decimalPlace_le (f := f) hunits
  have hnear := abs_nearest_sub_le f tie (unitsOf f magnitude)
    (decimalPlace f (unitsOf f magnitude) - 18)
  have hstep : (10 : ℚ) ^ (decimalPlace f (unitsOf f magnitude) - 18) =
      (10 : ℚ) ^ (decimalPlace f (unitsOf f magnitude) - 1) / 10 ^ 17 := by
    rw [show decimalPlace f (unitsOf f magnitude) - 18 =
        decimalPlace f (unitsOf f magnitude) - 1 - (17 : ℕ) by push_cast; ring,
      zpow_sub₀ (by norm_num), zpow_natCast]
  have hwide : (unitsOf f magnitude : ℚ) < 2 ^ 53 * gap f magnitude := by
    have h1 := unitsOf_lt f magnitude
    have h2 : 2 ^ (f.fraction + 1) ≤ 2 ^ 53 := Nat.pow_le_pow_right (by omega) (by omega)
    exact_mod_cast h1.trans_le (Nat.mul_le_mul_right _ h2)
  have hexp : ((18 : ℕ) - decimalPlace f (unitsOf f magnitude)).toNat =
      (-(decimalPlace f (unitsOf f magnitude) - 18)).toNat := by
    congr 1
    push_cast
    ring
  rw [searchGrids, hexp]
  refine holds_of_near hpos (hnear.trans_lt ?_)
  -- half a step is at most `1 / (2 * 10 ^ 17)` of the magnitude, which is less than `2 ^ 53` gaps
  rw [hstep]
  have hgap' : (0 : ℚ) < gap f magnitude := by exact_mod_cast hgap
  linarith

theorem searchGrids_holds (hformat : f.fraction ≤ 52) (tie : Tie) {magnitude : Nat}
    (hpos : 0 < magnitude) (tries count : Nat) (hcount : tries + count = 18) :
    (intervalOf f magnitude).holds f
      (searchGrids f tie (unitsOf f magnitude) (intervalOf f magnitude)
        (decimalPlace f (unitsOf f magnitude)) tries count) := by
  induction tries generalizing count with
  | succ tries ih =>
      rw [searchGrids]
      split
      · rename_i d hfound
        exact List.find?_some hfound
      · exact ih (count + 1) (by omega)
  | zero =>
      obtain rfl : count = 18 := by omega
      exact searchGrids_zero_holds hformat tie hpos

theorem shortest_holds (hformat : f.fraction ≤ 52) (tie : Tie) {magnitude : Nat}
    (hpos : 0 < magnitude) :
    (intervalOf f magnitude).holds f (shortest f tie magnitude) := by
  have hfound := searchGrids_holds hformat tie hpos 17 1 rfl
  rw [holds_iff] at hfound ⊢
  rw [shortest, Decimal.value_strip]
  exact hfound

theorem shortest_value_pos (hformat : f.fraction ≤ 52) (tie : Tie) {magnitude : Nat}
    (hpos : 0 < magnitude) : 0 < (shortest f tie magnitude).value := by
  have hlower := (value_bounds_of_holds (shortest_holds hformat tie hpos)).1
  have hpositive : (0 : ℚ) < (intervalOf f magnitude).lower := by
    exact_mod_cast intervalOf_lower_pos (f := f) hpos
  have hone : (0 : ℚ) < f.one := by exact_mod_cast one_pos f
  by_contra hle
  have : 4 * (shortest f tie magnitude).value * f.one ≤ 0 :=
    mul_nonpos_of_nonpos_of_nonneg (by linarith) hone.le
  linarith

/-- No two magnitudes have the same shortest digits. -/
theorem eq_of_shortest_value_eq (hformat : f.fraction ≤ 52) {s t : Tie} {m n : Nat}
    (hm : 0 < m) (hn : 0 < n) (hvalue : (shortest f s m).value = (shortest f t n).value) :
    m = n :=
  eq_of_holds hvalue (shortest_holds hformat s hm) (shortest_holds hformat t hn)

end RelScript.Ieee
