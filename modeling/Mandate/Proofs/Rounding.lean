/-
  Mandate.Proofs.Rounding

  Rounding a ratio to a number depends on the value of the ratio alone, so a
  decimal may be written in any way that keeps its value.

    * `nearestBits_congr`: ratios of the same value have the same nearest number.
    * `Decimal.nearestBits_congr`: so have decimals of the same value; that decimals
      far outside the range are not written out makes no difference.
    * `shortest_nearestBits`: so has the shortest decimal of a magnitude.
    * `nearestBits_exact`: a significand that fits is rounded to itself.
-/

import Mandate.Number.Text
import Mathlib.Data.Int.Log
import Mathlib.Data.Rat.Floor
import Mathlib.Tactic.Positivity

namespace Mandate.Number

/-! ## Scaling -/

theorem two_zpow_pos (e : Int) : (0 : ℚ) < 2 ^ e := zpow_pos two_pos e

section Powers

variable {b : Nat} {q : ℚ} {e : Int}

theorem zpow_of_nonneg (hb : (b : ℚ) = q) (he : 0 ≤ e) : q ^ e = (Nat.pow b e.toNat : Nat) := by
  conv_lhs => rw [← Int.toNat_of_nonneg he, ← hb]
  rw [zpow_natCast]
  exact (Nat.cast_pow b e.toNat).symm

theorem zpow_of_neg (hb : (b : ℚ) = q) (he : ¬0 ≤ e) :
    q ^ e = ((Nat.pow b (-e).toNat : Nat) : ℚ)⁻¹ := by
  have hneg : 0 ≤ -e := by omega
  rw [← zpow_of_nonneg hb hneg, zpow_neg, inv_inv]

end Powers

theorem scaled_den_ne_zero {den : Nat} (hden : den ≠ 0) (num : Nat) (e : Int) :
    (scaled num den e).2 ≠ 0 := by
  unfold scaled
  split
  · exact Nat.mul_ne_zero hden (Nat.pow_pos (by decide)).ne'
  · exact hden

theorem scaled_num_eq_zero_iff (num den : Nat) (e : Int) : (scaled num den e).1 = 0 ↔ num = 0 := by
  unfold scaled
  split
  · exact Iff.rfl
  · exact Nat.mul_eq_zero.trans (or_iff_left (Nat.pow_pos (by decide)).ne')

/-- Scaling divides the value of a ratio by a power of two. -/
theorem scaled_value (num den : Nat) (e : Int) :
    ((scaled num den e).1 : ℚ) / (scaled num den e).2 = num / den / 2 ^ e := by
  unfold scaled
  split
  · next he => rw [zpow_of_nonneg Nat.cast_ofNat he, Nat.cast_mul, div_div]
  · next he =>
    rw [zpow_of_neg Nat.cast_ofNat he, Nat.cast_mul, div_inv_eq_mul, div_mul_eq_mul_div]

theorem scaled_mul (num den k : Nat) (e : Int) :
    scaled (num * k) (den * k) e = ((scaled num den e).1 * k, (scaled num den e).2 * k) := by
  unfold scaled
  split
  · exact congrArg _ (Nat.mul_right_comm den k _)
  · exact congrArg (·, den * k) (Nat.mul_right_comm num k _)

/-! ## The binary exponent -/

/-- What lies between two powers of two that follow each other has the exponent of the lower
one. -/
theorem log_eq {q : ℚ} {E : Int} (hq : 0 < q) (hlow : (2 : ℚ) ^ E ≤ q)
    (hhigh : q < (2 : ℚ) ^ (E + 1)) : Int.log 2 q = E := by
  have hge : E ≤ Int.log 2 q := (Int.zpow_le_iff_le_log (by decide) hq).1 (by exact_mod_cast hlow)
  have hlt : Int.log 2 q < E + 1 :=
    (Int.lt_zpow_iff_log_lt (by decide) hq).1 (by exact_mod_cast hhigh)
  omega

section Exponent

variable {num den : Nat}

theorem ratio_pos (hnum : num ≠ 0) (hden : den ≠ 0) : (0 : ℚ) < num / den := by
  have hn : (0 : ℚ) < num := by exact_mod_cast Nat.pos_of_ne_zero hnum
  have hd : (0 : ℚ) < den := by exact_mod_cast Nat.pos_of_ne_zero hden
  positivity

/-- The exponents of a numerator and a denominator give that of the ratio up to one. -/
theorem ratio_between (hnum : num ≠ 0) (hden : den ≠ 0) :
    (2 : ℚ) ^ ((num.log2 : Int) - den.log2 - 1) ≤ num / den ∧
      (num : ℚ) / den < 2 ^ ((num.log2 : Int) - den.log2 + 1) := by
  have hn : (0 : ℚ) < num := by exact_mod_cast Nat.pos_of_ne_zero hnum
  have hd : (0 : ℚ) < den := by exact_mod_cast Nat.pos_of_ne_zero hden
  have hnlow : (2 : ℚ) ^ num.log2 ≤ num := by exact_mod_cast Nat.log2_self_le hnum
  have hnhigh : (num : ℚ) < 2 ^ (num.log2 + 1) := by exact_mod_cast Nat.lt_log2_self
  have hdlow : (2 : ℚ) ^ den.log2 ≤ den := by exact_mod_cast Nat.log2_self_le hden
  have hdhigh : (den : ℚ) < 2 ^ (den.log2 + 1) := by exact_mod_cast Nat.lt_log2_self
  constructor
  · have hpow : (2 : ℚ) ^ ((num.log2 : Int) - den.log2 - 1)
        = 2 ^ num.log2 / 2 ^ (den.log2 + 1) := by
      rw [sub_sub, zpow_sub₀ (by norm_num), zpow_natCast]
      exact_mod_cast rfl
    rw [hpow, div_le_div_iff₀ (by positivity) hd]
    exact mul_le_mul hnlow hdhigh.le hd.le hn.le
  · have hpow : (2 : ℚ) ^ ((num.log2 : Int) - den.log2 + 1)
        = 2 ^ (num.log2 + 1) / 2 ^ den.log2 := by
      rw [sub_add_eq_add_sub, zpow_sub₀ (by norm_num), zpow_natCast]
      exact_mod_cast rfl
    rw [hpow, div_lt_div_iff₀ hd (by positivity)]
    calc (num : ℚ) * 2 ^ den.log2 < 2 ^ (num.log2 + 1) * 2 ^ den.log2 :=
          mul_lt_mul_of_pos_right hnhigh (by positivity)
      _ ≤ 2 ^ (num.log2 + 1) * den := mul_le_mul_of_nonneg_left hdlow (by positivity)

theorem binaryExponent_eq_log (hnum : num ≠ 0) (hden : den ≠ 0) :
    binaryExponent num den = Int.log 2 ((num : ℚ) / den) := by
  obtain ⟨hlow, hhigh⟩ := ratio_between hnum hden
  have hpos := ratio_pos hnum hden
  -- The guess is the exponent unless the ratio is below its power of two.
  have hguess : (scaled num den (num.log2 - den.log2)).1
      < (scaled num den (num.log2 - den.log2)).2 ↔
        (num : ℚ) / den < 2 ^ ((num.log2 : Int) - den.log2) := by
    have hscaled : (0 : ℚ) < (scaled num den (num.log2 - den.log2)).2 := by
      exact_mod_cast Nat.pos_of_ne_zero (scaled_den_ne_zero hden num _)
    rw [← Nat.cast_lt (α := ℚ), ← div_lt_one hscaled, scaled_value, div_lt_one (two_zpow_pos _)]
  unfold binaryExponent
  dsimp only
  by_cases hlt : (scaled num den (num.log2 - den.log2)).1
      < (scaled num den (num.log2 - den.log2)).2
  · rw [if_pos hlt]
    refine (log_eq hpos hlow ?_).symm
    rw [sub_add_cancel]
    exact hguess.1 hlt
  · rw [if_neg hlt]
    exact (log_eq hpos (not_lt.1 fun h => hlt (hguess.2 h)) hhigh).symm

end Exponent

/-! ## Rounding -/

theorem roundDiv_mul (num den : Nat) {k : Nat} (hk : 0 < k) :
    roundDiv (num * k) (den * k) = roundDiv num den := by
  have hlt : 2 * (num % den * k) < den * k ↔ 2 * (num % den) < den := by
    rw [← Nat.mul_assoc]
    exact Nat.mul_lt_mul_right hk
  have heq : 2 * (num % den * k) = den * k ↔ 2 * (num % den) = den := by
    rw [← Nat.mul_assoc]
    exact Nat.mul_left_inj hk.ne'
  unfold roundDiv
  simp only [Nat.mul_div_mul_right _ _ hk, Nat.mul_mod_mul_right, hlt, Bool.or_eq_true,
    decide_eq_true_eq, Bool.and_eq_true, beq_iff_eq, heq]

theorem roundDiv_whole (n : Nat) {den : Nat} (hden : 0 < den) : roundDiv (n * den) den = n := by
  have hmod : n * den % den = 0 := Nat.mul_mod_left n den
  have hdiv : n * den / den = n := Nat.mul_div_cancel n hden
  unfold roundDiv
  simp only [hmod, hdiv, Nat.mul_zero, hden, decide_true, Bool.true_or, if_true]

theorem le_roundDiv (num den : Nat) : num / den ≤ roundDiv num den := by
  unfold roundDiv
  dsimp only
  split
  · exact Nat.le_refl _
  · exact Nat.le_succ _

theorem roundDiv_of_lt {num den : Nat} (h : 2 * num < den) : roundDiv num den = 0 := by
  have hdiv : num / den = 0 := Nat.div_eq_of_lt (by omega)
  have hmod : num % den = num := Nat.mod_eq_of_lt (by omega)
  unfold roundDiv
  simp only [hmod, hdiv, h, decide_true, Bool.true_or, if_true]

section Nearest

variable {num den : Nat}

/-- The exponent that a ratio is rounded at. -/
def roundingExponent (q : ℚ) : Int := max (-1074) (Int.log 2 q - 52)

theorem nearestBits_eq (hnum : num ≠ 0) (hden : den ≠ 0) :
    nearestBits num den = magnitudeBits
      (roundDiv (scaled num den (roundingExponent (num / den))).1
        (scaled num den (roundingExponent (num / den))).2)
      (roundingExponent (num / den)) := by
  unfold nearestBits
  rw [if_neg hnum, binaryExponent_eq_log hnum hden]
  rfl

theorem nearestBits_zero (den : Nat) : nearestBits 0 den = 0 := rfl

theorem nearestBits_mul (num : Nat) (hden : den ≠ 0) {k : Nat} (hk : k ≠ 0) :
    nearestBits (num * k) (den * k) = nearestBits num den := by
  by_cases hnum : num = 0
  · rw [hnum, Nat.zero_mul, nearestBits_zero, nearestBits_zero]
  · have hvalue : ((num * k : Nat) : ℚ) / (den * k : Nat) = num / den := by
      have hkq : (k : ℚ) ≠ 0 := by exact_mod_cast hk
      rw [Nat.cast_mul, Nat.cast_mul, mul_div_mul_right _ _ hkq]
    rw [nearestBits_eq (Nat.mul_ne_zero hnum hk) (Nat.mul_ne_zero hden hk), hvalue, scaled_mul,
      roundDiv_mul _ _ (Nat.pos_of_ne_zero hk), ← nearestBits_eq hnum hden]

/-- Ratios of the same value have the same nearest number. -/
theorem nearestBits_congr {num' den' : Nat} (hden : den ≠ 0) (hden' : den' ≠ 0)
    (h : (num : ℚ) / den = num' / den') : nearestBits num den = nearestBits num' den' := by
  have hd : (den : ℚ) ≠ 0 := by exact_mod_cast hden
  have hd' : (den' : ℚ) ≠ 0 := by exact_mod_cast hden'
  have hcross : num * den' = num' * den := by
    rw [div_eq_div_iff hd hd'] at h
    exact_mod_cast h
  calc nearestBits num den = nearestBits (num * den') (den * den') :=
        (nearestBits_mul num hden hden').symm
    _ = nearestBits (num' * den) (den' * den) := by rw [hcross, Nat.mul_comm den]
    _ = nearestBits num' den' := nearestBits_mul num' hden' hden

/-- What is beyond the range of the finite numbers is infinite. -/
theorem nearestBits_of_large (hnum : num ≠ 0) (hden : den ≠ 0)
    (h : (2 : ℚ) ^ (1024 : Int) ≤ num / den) : nearestBits num den = infinityBits := by
  have hpos := ratio_pos hnum hden
  have hlog : 1024 ≤ Int.log 2 ((num : ℚ) / den) :=
    (Int.zpow_le_iff_le_log (by decide) hpos).1 (by exact_mod_cast h)
  have hexponent : roundingExponent (num / den) = Int.log 2 ((num : ℚ) / den) - 52 :=
    max_eq_right (by omega)
  rw [nearestBits_eq hnum hden, hexponent]
  generalize he : Int.log 2 ((num : ℚ) / den) - 52 = e
  have hsig : Nat.pow 2 52 ≤ roundDiv (scaled num den e).1 (scaled num den e).2 := by
    refine Nat.le_trans ?_ (le_roundDiv _ _)
    have hden' := Nat.pos_of_ne_zero (scaled_den_ne_zero hden num e)
    rw [Nat.le_div_iff_mul_le hden']
    have hq : (0 : ℚ) < (scaled num den e).2 := by exact_mod_cast hden'
    have hvalue : ((Nat.pow 2 52 : Nat) : ℚ) ≤ (scaled num den e).1 / (scaled num den e).2 := by
      rw [scaled_value, le_div_iff₀ (two_zpow_pos e)]
      have hself : (2 : ℚ) ^ Int.log 2 ((num : ℚ) / den) ≤ num / den := by
        exact_mod_cast Int.zpow_log_le_self (b := 2) (by decide) hpos
      have hsplit : (2 : ℚ) ^ Int.log 2 ((num : ℚ) / den) = ((Nat.pow 2 52 : Nat) : ℚ) * 2 ^ e := by
        have hexp : Int.log 2 ((num : ℚ) / den) = 52 + e := by omega
        rw [hexp, zpow_add₀ (by norm_num)]
        norm_num
      rw [← hsplit]
      exact hself
    rw [le_div_iff₀ hq] at hvalue
    exact_mod_cast hvalue
  unfold magnitudeBits
  refine Nat.min_eq_right ?_
  have hfield : 2046 ≤ (e + 1074).toNat := by omega
  calc infinityBits = 2046 * Nat.pow 2 52 + Nat.pow 2 52 := rfl
    _ ≤ (e + 1074).toNat * Nat.pow 2 52 + roundDiv (scaled num den e).1 (scaled num den e).2 :=
      Nat.add_le_add (Nat.mul_le_mul_right _ hfield) hsig

/-- What is less than half of the smallest positive number is rounded to zero. -/
theorem nearestBits_of_small (hden : den ≠ 0) (h : (num : ℚ) / den < 2 ^ (-1075 : Int)) :
    nearestBits num den = 0 := by
  by_cases hnum : num = 0
  · rw [hnum, nearestBits_zero]
  have hpos := ratio_pos hnum hden
  have hlog : Int.log 2 ((num : ℚ) / den) < -1075 :=
    (Int.lt_zpow_iff_log_lt (by decide) hpos).1 (by exact_mod_cast h)
  have hexponent : roundingExponent (num / den) = -1074 := max_eq_left (by omega)
  rw [nearestBits_eq hnum hden, hexponent, roundDiv_of_lt]
  · rfl
  · have hden' : (0 : ℚ) < (scaled num den (-1074)).2 := by
      exact_mod_cast Nat.pos_of_ne_zero (scaled_den_ne_zero hden num (-1074))
    have hvalue : ((scaled num den (-1074)).1 : ℚ) / (scaled num den (-1074)).2 < 1 / 2 := by
      rw [scaled_value, div_lt_iff₀ (two_zpow_pos _)]
      calc (num : ℚ) / den < 2 ^ (-1075 : Int) := h
        _ = 1 / 2 * 2 ^ (-1074 : Int) := by
          rw [show (-1075 : Int) = -1 + -1074 from rfl, zpow_add₀ two_ne_zero, zpow_neg_one,
            one_div]
    rw [div_lt_div_iff₀ hden' (by norm_num), one_mul, mul_comm] at hvalue
    exact_mod_cast hvalue

end Nearest

/-! ## Decimals -/

namespace Decimal

/-- The value of a decimal. -/
def value (d : Decimal) : ℚ := d.digits * 10 ^ d.exponent

theorem ratio_den_ne_zero (d : Decimal) : d.ratio.2 ≠ 0 := by
  unfold ratio
  split
  · exact Nat.one_ne_zero
  · exact (Nat.pow_pos (by decide)).ne'

theorem ratio_value (d : Decimal) : (d.ratio.1 : ℚ) / d.ratio.2 = d.value := by
  unfold ratio value
  split
  · next he => rw [zpow_of_nonneg Nat.cast_ofNat he, Nat.cast_mul, Nat.cast_one, div_one]
  · next he => rw [zpow_of_neg Nat.cast_ofNat he, div_eq_mul_inv]

theorem ratio_num_ne_zero {d : Decimal} (h : d.digits ≠ 0) : d.ratio.1 ≠ 0 := by
  unfold ratio
  split
  · exact Nat.mul_ne_zero h (Nat.pow_pos (by decide)).ne'
  · exact h

theorem lt_pow_digitCount (n : Nat) : n < 10 ^ digitCount n :=
  (Nat.length_toDigits_le_iff (by decide) (Nat.length_toDigits_pos)).1 (Nat.le_refl _)

/-- A decimal that is not written out because it is large is beyond the range. -/
theorem large_of_exponent {d : Decimal} (hdigits : d.digits ≠ 0) (h : 400 < d.exponent) :
    (2 : ℚ) ^ (1024 : Int) ≤ d.value := by
  have hone : (1 : ℚ) ≤ d.digits := by exact_mod_cast Nat.pos_of_ne_zero hdigits
  have hpow : (10 : ℚ) ^ (401 : Int) ≤ 10 ^ d.exponent :=
    zpow_le_zpow_right₀ (by norm_num) (by omega)
  calc (2 : ℚ) ^ (1024 : Int) ≤ 10 ^ (401 : Int) := by
        exact_mod_cast (by decide +kernel : 2 ^ 1024 ≤ 10 ^ 401)
    _ ≤ 10 ^ d.exponent := hpow
    _ ≤ d.digits * 10 ^ d.exponent := le_mul_of_one_le_left (zpow_pos (by norm_num) _).le hone

/-- A decimal that is not written out because it is small is rounded to zero. -/
theorem small_of_exponent {d : Decimal} (h : d.exponent + digitCount d.digits < -400) :
    d.value < 2 ^ (-1075 : Int) := by
  have hdigits : (d.digits : ℚ) < 10 ^ (digitCount d.digits : Int) := by
    rw [zpow_natCast]
    exact_mod_cast lt_pow_digitCount d.digits
  have hpow : (10 : ℚ) ^ (digitCount d.digits + d.exponent) ≤ 10 ^ (-401 : Int) :=
    zpow_le_zpow_right₀ (by norm_num) (by omega)
  have hlimit : (10 : ℚ) ^ (-401 : Int) ≤ 2 ^ (-1075 : Int) := by
    rw [zpow_neg, zpow_neg]
    refine inv_anti₀ (two_zpow_pos _) ?_
    exact_mod_cast (by decide +kernel : 2 ^ 1075 ≤ 10 ^ 401)
  calc d.value < 10 ^ (digitCount d.digits : Int) * 10 ^ d.exponent :=
        mul_lt_mul_of_pos_right hdigits (zpow_pos (by norm_num) _)
    _ = 10 ^ (digitCount d.digits + d.exponent) := (zpow_add₀ (by norm_num) _ _).symm
    _ ≤ 2 ^ (-1075 : Int) := hpow.trans hlimit

/-- Decimals that are not written out are rounded as if they were. -/
theorem nearestBits_eq (d : Decimal) :
    d.nearestBits = Number.nearestBits d.ratio.1 d.ratio.2 := by
  unfold nearestBits
  by_cases hdigits : d.digits = 0
  · have hzero : d.ratio.1 = 0 := by
      unfold ratio
      split
      · rw [hdigits, Nat.zero_mul]
      · exact hdigits
    rw [if_pos hdigits, hzero, nearestBits_zero]
  rw [if_neg hdigits]
  by_cases hlarge : 400 < d.exponent
  · rw [if_pos hlarge, nearestBits_of_large (ratio_num_ne_zero hdigits) d.ratio_den_ne_zero]
    rw [ratio_value]
    exact large_of_exponent hdigits hlarge
  rw [if_neg hlarge]
  by_cases hsmall : d.exponent + digitCount d.digits < -400
  · rw [if_pos hsmall, nearestBits_of_small d.ratio_den_ne_zero]
    rw [ratio_value]
    exact small_of_exponent hsmall
  · rw [if_neg hsmall]

/-- A decimal and a ratio of the same value have the same nearest number. -/
theorem nearestBits_of_value {d : Decimal} {num den : Nat} (hden : den ≠ 0)
    (h : d.value = num / den) : d.nearestBits = Number.nearestBits num den := by
  rw [nearestBits_eq]
  exact Number.nearestBits_congr d.ratio_den_ne_zero hden (d.ratio_value.trans h)

/-- Decimals of the same value have the same nearest number. -/
theorem nearestBits_congr {d d' : Decimal} (h : d.value = d'.value) :
    d.nearestBits = d'.nearestBits := by
  rw [nearestBits_eq d']
  exact nearestBits_of_value d'.ratio_den_ne_zero (h.trans d'.ratio_value.symm)

theorem trimmed_value (n : Nat) (d : Decimal) : (trim.go n d).value = d.value := by
  induction n generalizing d with
  | zero => rfl
  | succ n ih =>
    unfold trim.go
    split
    · next h =>
      have hdigits : d.digits = 10 * (d.digits / 10) := by omega
      have hcast : (d.digits : ℚ) = 10 * (d.digits / 10 : Nat) := by exact_mod_cast hdigits
      rw [ih, value, value, hcast, zpow_add_one₀ (by norm_num)]
      ring
    · rfl

theorem trim_value (d : Decimal) : d.trim.value = d.value := trimmed_value _ d

theorem exact_value (m : Nat) (e : Int) : (exact m e).value = m * 2 ^ e := by
  unfold exact value
  split
  · next he => rw [zpow_of_nonneg Nat.cast_ofNat he, Nat.cast_mul, zpow_zero, mul_one]
  · next he =>
    have hfive : (5 : ℚ) ^ (-e) = (Nat.pow 5 (-e).toNat : Nat) :=
      zpow_of_nonneg Nat.cast_ofNat (by omega)
    have hten : (10 : ℚ) ^ e = 2 ^ e * 5 ^ e := by
      rw [← mul_zpow]
      norm_num
    rw [Nat.cast_mul, ← hfive, hten, zpow_neg]
    field_simp

end Decimal

/-! ## The shortest decimal -/

theorem nearestBits_of_shortestWith {num den n : Nat} {d : Decimal}
    (h : shortestWith num den n = some d) : d.nearestBits = nearestBits num den := by
  unfold shortestWith at h
  dsimp only at h
  obtain ⟨digits, -, hdigits⟩ := List.exists_of_findSome?_eq_some h
  split at hdigits
  · next hbits =>
    cases hdigits
    exact hbits
  · cases hdigits

theorem magnitude_value (m : Nat) (e : Int) :
    ((scaled m 1 (-e)).1 : ℚ) / (scaled m 1 (-e)).2 = m * 2 ^ e := by
  rw [scaled_value, zpow_neg, Nat.cast_one, div_one, div_inv_eq_mul]

/-- The shortest decimal of m · 2^e is rounded like m · 2^e. -/
theorem shortest_nearestBits (m : Nat) (e : Int) :
    (shortest m e).nearestBits = nearestBits (scaled m 1 (-e)).1 (scaled m 1 (-e)).2 := by
  have hden := scaled_den_ne_zero Nat.one_ne_zero m (-e)
  unfold shortest
  by_cases hm : m = 0
  · rw [if_pos hm]
    refine Decimal.nearestBits_of_value hden ?_
    rw [magnitude_value, hm]
    simp [Decimal.value]
  rw [if_neg hm]
  dsimp only
  rw [Decimal.nearestBits_congr (Decimal.trim_value _)]
  cases hfound : (List.range 17).findSome? fun n =>
      shortestWith (scaled m 1 (-e)).1 (scaled m 1 (-e)).2 (n + 1) with
  | some d =>
    obtain ⟨n, -, hn⟩ := List.exists_of_findSome?_eq_some hfound
    exact nearestBits_of_shortestWith hn
  | none =>
    refine Decimal.nearestBits_of_value hden ?_
    rw [Option.getD_none, Decimal.exact_value, magnitude_value]

/-! ## Significands that fit -/

/-- A significand below 2^53 that needs all its bits, or has the lowest exponent, is rounded at
that exponent. -/
theorem roundingExponent_eq {m : Nat} {e : Int} (hm : m ≠ 0) (he : -1074 ≤ e)
    (hhigh : m < 2 ^ 53) (hlow : 2 ^ 52 ≤ m ∨ e = -1074) :
    roundingExponent (m * 2 ^ e) = e := by
  have hpos : (0 : ℚ) < m * 2 ^ e := by
    have hmq : (0 : ℚ) < m := by exact_mod_cast Nat.pos_of_ne_zero hm
    exact mul_pos hmq (two_zpow_pos e)
  have hbelow : Int.log 2 ((m : ℚ) * 2 ^ e) < 53 + e := by
    refine (Int.lt_zpow_iff_log_lt (by decide) hpos).1 ?_
    rw [Nat.cast_ofNat, zpow_add₀ two_ne_zero]
    refine mul_lt_mul_of_pos_right ?_ (two_zpow_pos e)
    exact_mod_cast hhigh
  unfold roundingExponent
  rcases hlow with hlow | rfl
  · have habove : 52 + e ≤ Int.log 2 ((m : ℚ) * 2 ^ e) := by
      refine (Int.zpow_le_iff_le_log (by decide) hpos).1 ?_
      rw [Nat.cast_ofNat, zpow_add₀ two_ne_zero]
      refine mul_le_mul_of_nonneg_right ?_ (two_zpow_pos e).le
      exact_mod_cast hlow
    omega
  · omega

/-- Such a significand is rounded to itself. -/
theorem nearestBits_exact {m : Nat} {e : Int} (he : -1074 ≤ e) (hhigh : m < 2 ^ 53)
    (hlow : 2 ^ 52 ≤ m ∨ e = -1074) :
    nearestBits (scaled m 1 (-e)).1 (scaled m 1 (-e)).2 = magnitudeBits m e := by
  have hden := scaled_den_ne_zero Nat.one_ne_zero m (-e)
  have hvalue := magnitude_value m e
  by_cases hm : m = 0
  · have hnum : (scaled m 1 (-e)).1 = 0 := (scaled_num_eq_zero_iff m 1 (-e)).2 hm
    have hlowest : e = -1074 := hlow.resolve_left (by rw [hm]; decide)
    rw [hnum, nearestBits_zero, hm, hlowest]
    rfl
  have hnum : (scaled m 1 (-e)).1 ≠ 0 := mt (scaled_num_eq_zero_iff m 1 (-e)).1 hm
  rw [nearestBits_eq hnum hden, hvalue, roundingExponent_eq hm he hhigh hlow]
  generalize (scaled m 1 (-e)).1 = num, (scaled m 1 (-e)).2 = den at hden hvalue
  have hden' := scaled_den_ne_zero hden num e
  have hquotient : (scaled num den e).1 = m * (scaled num den e).2 := by
    have hd : ((scaled num den e).2 : ℚ) ≠ 0 := by exact_mod_cast hden'
    have hratio := scaled_value num den e
    rw [hvalue, mul_div_assoc, div_self (two_zpow_pos e).ne', mul_one, div_eq_iff hd] at hratio
    exact_mod_cast hratio
  rw [hquotient, roundDiv_whole m (Nat.pos_of_ne_zero hden')]

end Mandate.Number
