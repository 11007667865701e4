/-
  Mandate.Proofs.NearestNumbers

  What rounding to a number means, without saying how it is done.

    * `IsNearest`: a number is the nearest to a magnitude. No finite number is nearer,
      of two that are as near it is the one with the even significand, and what is
      too large for all of them is infinite.
    * `parts_of_magnitudeBits`: the bits of a magnitude stand for that magnitude.
    * `nearest_isNearest`, `Decimal.nearest_isNearest`: rounding gives the nearest
      number.
    * `nearestBits_lt_iff`: which magnitudes are too large.
-/

import Mandate.Proofs.NumberBits

namespace Mandate.Number

/-! ## Bits and parts -/

section Bits

variable {negative : Bool} {bits : Nat}

/-- The bit of a sign. -/
def signBits (negative : Bool) : Nat := if negative then Nat.pow 2 63 else 0

theorem signBits_cases (negative : Bool) :
    negative = false ∧ signBits negative = 0 ∨
      negative = true ∧ signBits negative = 9223372036854775808 := by
  cases negative with
  | false => exact .inl ⟨rfl, rfl⟩
  | true => exact .inr ⟨rfl, rfl⟩

theorem ofMagnitude_eq_ofBits (negative : Bool) (bits : Nat) :
    ofMagnitude negative bits = Float.ofBits (UInt64.ofNat (signBits negative + bits)) := by
  cases negative with
  | false => exact congrArg (fun n => Float.ofBits (UInt64.ofNat n)) (Nat.zero_add bits).symm
  | true => rfl

/-- Bits up to those of an infinite magnitude are kept as they are. -/
theorem toBits_ofMagnitude (h : bits ≤ infinityBits) :
    (ofMagnitude negative bits).toBits.toNat = signBits negative + bits := by
  have hbound : bits ≤ 9218868437227405312 := h
  have hsign := signBits_cases negative
  have hnat : (UInt64.ofNat (signBits negative + bits)).toNat = signBits negative + bits :=
    UInt64.toNat_ofNat_of_lt' (show _ < 2 ^ 64 by omega)
  -- None of these bits are those of a NaN, so there is a number with them.
  have hvalid : Float.Model.Format.binary64.Valid
      (UInt64.ofNat (signBits negative + bits)).toBitVec := by
    refine ⟨fun hexponent hmantissa => absurd ?_ hmantissa⟩
    have hfield := congrArg BitVec.toNat hexponent
    rw [Float.Model.UnpackedFloat.unpackExponent, BitVec.toNat_cast, BitVec.extractLsb_toNat,
      Nat.shiftRight_eq_div_pow] at hfield
    apply BitVec.eq_of_toNat_eq
    rw [Float.Model.UnpackedFloat.unpackMantissa, BitVec.toNat_cast, BitVec.extractLsb_toNat,
      Nat.shiftRight_eq_div_pow]
    change (UInt64.ofNat (signBits negative + bits)).toNat / 2 ^ 52 % 2 ^ 11 = 2047 at hfield
    change (UInt64.ofNat (signBits negative + bits)).toNat / 2 ^ 0 % 2 ^ 52 = 0
    rw [hnat] at hfield ⊢
    omega
  have hnumber := Float.ofBits_toBits (.ofModel ⟨_, hvalid⟩)
  rw [ofMagnitude_eq_ofBits]
  exact (congrArg (fun x => x.toBits.toNat) hnumber).trans hnat

theorem parts_ofMagnitude_infinite (negative : Bool) :
    parts (ofMagnitude negative infinityBits) = .infinite negative := by
  cases negative <;> decide +kernel

/-- Bits below those of an infinite magnitude stand for a finite one. -/
theorem parts_ofMagnitude (h : bits < infinityBits) :
    parts (ofMagnitude negative bits) =
      if bits / 2 ^ 52 = 0 then .finite negative (bits % 2 ^ 52) (-1074)
      else .finite negative (2 ^ 52 + bits % 2 ^ 52) ((bits / 2 ^ 52 : Nat) - 1075) := by
  have hbits : (ofMagnitude negative bits).toBits.toNat = signBits negative + bits :=
    toBits_ofMagnitude h.le
  have hbound : bits < 9218868437227405312 := h
  have hsign := signBits_cases negative
  have htest : (signBits negative + bits).testBit 63 = negative := by
    rw [Nat.testBit_eq_decide_div_mod_eq]
    rcases hsign with ⟨hneg, hsign⟩ | ⟨hneg, hsign⟩
    · rw [hsign, hneg, decide_eq_false_iff_not]
      omega
    · rw [hsign, hneg, decide_eq_true_iff]
      omega
  have hfield : (signBits negative + bits) / Nat.pow 2 52 % Nat.pow 2 11 = bits / 2 ^ 52 := by
    change (signBits negative + bits) / 2 ^ 52 % 2 ^ 11 = bits / 2 ^ 52
    omega
  have hfraction : (signBits negative + bits) % Nat.pow 2 52 = bits % 2 ^ 52 := by
    change (signBits negative + bits) % 2 ^ 52 = bits % 2 ^ 52
    omega
  unfold parts
  dsimp only
  rw [hbits, htest, hfield, hfraction, if_neg (by omega)]
  rfl

end Bits

/-- The significand and the exponent of a finite number: it needs all its bits, or the exponent is
the lowest. -/
structure IsMagnitude (m : Nat) (e : Int) : Prop where
  high : m < 2 ^ 53
  low : 2 ^ 52 ≤ m ∨ e = -1074
  lowest : -1074 ≤ e
  highest : e ≤ 971

theorem isMagnitude_of_parts {x : Float} {negative : Bool} {m : Nat} {e : Int}
    (h : parts x = .finite negative m e) : IsMagnitude m e := by
  have hfraction : x.toBits.toNat % Nat.pow 2 52 < 2 ^ 52 := Nat.mod_lt _ (by decide)
  have hfield : x.toBits.toNat / Nat.pow 2 52 % Nat.pow 2 11 < 2048 := Nat.mod_lt _ (by decide)
  have hpow : Nat.pow 2 52 = 2 ^ 52 := rfl
  unfold parts at h
  dsimp only at h
  split at h
  · split at h <;> cases h
  · split at h
    · injection h with _ hm he
      exact ⟨by omega, .inr he.symm, by omega, by omega⟩
    · injection h with _ hm he
      exact ⟨by omega, .inl (by omega), by omega, by omega⟩

/-- Units of a higher exponent are units of a lower one. -/
theorem exists_units {e f : Int} (hle : e ≤ f) (k : Nat) : ∃ j : Nat, (k : ℚ) * 2 ^ f = j * 2 ^ e := by
  refine ⟨k * 2 ^ (f - e).toNat, ?_⟩
  have hsplit : f = ((f - e).toNat : Int) + e := by omega
  conv_lhs => rw [hsplit, zpow_add₀ two_ne_zero, zpow_natCast]
  push_cast
  ring

/-- The bits of a magnitude stand for it: a significand that needs all its bits or has the lowest
exponent, and may have been rounded up to the next power of two. -/
theorem parts_of_magnitudeBits {m : Nat} {e : Int} (negative : Bool) (he : -1074 ≤ e)
    (hhigh : m ≤ 2 ^ 53) (hlow : 2 ^ 52 ≤ m ∨ e = -1074)
    (hbits : magnitudeBits m e < infinityBits) :
    ∃ k f, parts (ofMagnitude negative (magnitudeBits m e)) = .finite negative k f ∧
      (k : ℚ) * 2 ^ f = m * 2 ^ e ∧ (m % 2 = 0 → k % 2 = 0) := by
  have hsum : magnitudeBits m e = (e + 1074).toNat * 2 ^ 52 + m := by
    have hmin : magnitudeBits m e = min ((e + 1074).toNat * 2 ^ 52 + m) infinityBits := rfl
    omega
  rw [parts_ofMagnitude hbits]
  by_cases hsmall : m < 2 ^ 52
  · -- Below the smallest power of two with all bits the field of the exponent is empty.
    obtain rfl : e = -1074 := hlow.resolve_left (by omega)
    refine ⟨m, -1074, ?_, rfl, id⟩
    rw [if_pos (by omega), hsum]
    congr
    omega
  by_cases hcarry : m = 2 ^ 53
  · refine ⟨2 ^ 52, e + 1, ?_, ?_, fun _ => rfl⟩
    · rw [if_neg (by omega), hsum]
      congr 1 <;> omega
    · rw [hcarry, zpow_add_one₀ two_ne_zero]
      push_cast
      ring
  · refine ⟨m, e, ?_, rfl, id⟩
    rw [if_neg (by omega), hsum]
    congr 1 <;> omega

/-! ## Whole numbers -/

section Whole

variable {den : Nat}

/-- The nearest whole number is half a unit away at most, and even if it is just that. -/
theorem roundDiv_near (num : Nat) (hden : den ≠ 0) :
    |(roundDiv num den : ℚ) - num / den| ≤ 1 / 2 ∧
      (|(roundDiv num den : ℚ) - num / den| = 1 / 2 → roundDiv num den % 2 = 0) := by
  have hd : (0 : ℚ) < den := by exact_mod_cast Nat.pos_of_ne_zero hden
  have hratio : (num : ℚ) / den = (num / den : Nat) + (num % den : Nat) / den := by
    have hsplit : (num : ℚ) = den * (num / den : Nat) + (num % den : Nat) := by
      exact_mod_cast (Nat.div_add_mod num den).symm
    conv_lhs => rw [hsplit, add_div, mul_div_cancel_left₀ _ hd.ne']
  have hpart : (0 : ℚ) ≤ (num % den : Nat) / den := by positivity
  unfold roundDiv
  dsimp only
  by_cases hdown : 2 * (num % den) < den ∨ 2 * (num % den) = den ∧ num / den % 2 = 0
  · rw [if_pos (by simpa using hdown), hratio]
    have hhalf : ((num % den : Nat) : ℚ) / den ≤ 1 / 2 := by
      rw [div_le_div_iff₀ hd two_pos]
      exact_mod_cast (by omega : num % den * 2 ≤ 1 * den)
    rw [sub_add_cancel_left, abs_neg, abs_of_nonneg hpart]
    refine ⟨hhalf, fun htie => ?_⟩
    rw [div_eq_div_iff hd.ne' two_ne_zero] at htie
    have htie : num % den * 2 = 1 * den := by exact_mod_cast htie
    omega
  · rw [if_neg (by simpa using hdown), hratio]
    have hhalf : (1 : ℚ) / 2 ≤ (num % den : Nat) / den := by
      rw [div_le_div_iff₀ two_pos hd]
      exact_mod_cast (by omega : 1 * den ≤ num % den * 2)
    have hone : ((num % den : Nat) : ℚ) / den ≤ 1 := by
      rw [div_le_one hd]
      exact_mod_cast (Nat.mod_lt _ (Nat.pos_of_ne_zero hden)).le
    push_cast
    rw [add_sub_add_left_eq_sub, abs_of_nonneg (by linarith)]
    refine ⟨by linarith, fun htie => ?_⟩
    have htie : ((num % den : Nat) : ℚ) / den = 1 / 2 := by linarith
    rw [div_eq_div_iff hd.ne' two_ne_zero] at htie
    have htie : num % den * 2 = 1 * den := by exact_mod_cast htie
    omega

/-- Whole numbers other than one that is half a unit away at most are no nearer, and as near only
if it is just that. -/
theorem near_of_half {r : Nat} {t : ℚ} (hhalf : |(r : ℚ) - t| ≤ 1 / 2) {j : Nat} (hj : j ≠ r) :
    |(r : ℚ) - t| ≤ |(j : ℚ) - t| ∧ (|(j : ℚ) - t| = |(r : ℚ) - t| → |(r : ℚ) - t| = 1 / 2) := by
  -- Different whole numbers are a unit apart.
  have hunit : (1 : ℚ) ≤ |(j : ℚ) - r| := by
    have hint : (1 : ℤ) ≤ |(j : ℤ) - r| := Int.one_le_abs (by omega)
    exact_mod_cast hint
  have hbetween : |(j : ℚ) - r| ≤ |(j : ℚ) - t| + |(r : ℚ) - t| := by
    rw [abs_sub_comm (r : ℚ)]
    exact abs_sub_le _ _ _
  exact ⟨by linarith, fun htie => by linarith⟩

end Whole

/-! ## Numbers -/

/-- The least magnitude that is too large for a finite number: half a unit of the largest one
above it. -/
def beyondRange : ℚ := 2 ^ (1024 : Int) - 2 ^ (970 : Int)

/-- In units of the largest exponent. -/
theorem beyondRange_eq : beyondRange = (2 ^ 53 - 1 / 2) * 2 ^ (971 : Int) := by
  have htop : (2 : ℚ) ^ (1024 : Int) = 2 ^ 53 * 2 ^ (971 : Int) := by
    rw [show (1024 : Int) = 53 + 971 from rfl, zpow_add₀ two_ne_zero]
    rfl
  have hhalf : (2 : ℚ) ^ (971 : Int) = 2 ^ (970 : Int) * 2 := zpow_add_one₀ two_ne_zero 970
  rw [beyondRange, htop, hhalf]
  generalize (2 : ℚ) ^ (970 : Int) = unit
  ring

/-- A number is the nearest to a magnitude, with a sign. -/
structure IsNearest (negative : Bool) (q : ℚ) (x : Float) : Prop where
  /-- No finite number is nearer, and if one of another magnitude is as near, the significand is
  even. -/
  finite : q < beyondRange → ∃ m e, parts x = .finite negative m e ∧
    ∀ y sign k f, parts y = .finite sign k f →
      |(m : ℚ) * 2 ^ e - q| ≤ |(k : ℚ) * 2 ^ f - q| ∧
        (|(k : ℚ) * 2 ^ f - q| = |(m : ℚ) * 2 ^ e - q| →
          (k : ℚ) * 2 ^ f = m * 2 ^ e ∨ m % 2 = 0)
  infinite : beyondRange ≤ q → parts x = .infinite negative

section Nearest

variable {num den : Nat} {q : ℚ}

/-- At its rounding exponent a magnitude has all bits of a significand, or the exponent is the
lowest. -/
theorem scaled_between (hq : 0 < q) :
    q / 2 ^ roundingExponent q < 2 ^ 53 ∧
      (2 ^ 52 ≤ q / 2 ^ roundingExponent q ∨ roundingExponent q = -1074) := by
  have hlow : (2 : ℚ) ^ Int.log 2 q ≤ q := by
    exact_mod_cast Int.zpow_log_le_self (b := 2) (by decide) hq
  have hhigh : q < (2 : ℚ) ^ (Int.log 2 q + 1) := by
    exact_mod_cast Int.lt_zpow_succ_log_self (b := 2) (by decide) q
  have hadd (a b : Int) : (2 : ℚ) ^ a * 2 ^ b = 2 ^ (a + b) := (zpow_add₀ two_ne_zero a b).symm
  have hexponent : roundingExponent q = max (-1074) (Int.log 2 q - 52) := rfl
  constructor
  · rw [div_lt_iff₀ (two_zpow_pos _)]
    refine hhigh.trans_le ?_
    rw [show (2 : ℚ) ^ 53 = 2 ^ (53 : Int) from rfl, hadd]
    exact zpow_le_zpow_right₀ one_le_two (by omega)
  · by_cases hlowest : roundingExponent q = -1074
    · exact .inr hlowest
    · refine .inl ?_
      rw [le_div_iff₀ (two_zpow_pos _), show (2 : ℚ) ^ 52 = 2 ^ (52 : Int) from rfl, hadd]
      refine le_trans (zpow_le_zpow_right₀ one_le_two ?_) hlow
      omega

/-- `r` is what a magnitude is rounded to in units of 2^`e`, and `e` is the exponent for it. -/
structure Rounded (q : ℚ) (r : Nat) (e : Int) : Prop where
  lowest : -1074 ≤ e
  below : q / 2 ^ e < 2 ^ 53
  above : 2 ^ 52 ≤ q / 2 ^ e ∨ e = -1074
  near : |(r : ℚ) - q / 2 ^ e| ≤ 1 / 2
  even : |(r : ℚ) - q / 2 ^ e| = 1 / 2 → r % 2 = 0

theorem nearestBits_rounded (hnum : num ≠ 0) (hden : den ≠ 0) :
    ∃ r e, nearestBits num den = magnitudeBits r e ∧ Rounded (num / den) r e := by
  obtain ⟨hbelow, habove⟩ := scaled_between (ratio_pos hnum hden)
  obtain ⟨hnear, heven⟩ := roundDiv_near (scaled num den (roundingExponent (num / den))).1
    (scaled_den_ne_zero hden num (roundingExponent (num / den)))
  rw [scaled_value] at hnear heven
  exact ⟨_, _, nearestBits_eq hnum hden, le_max_left _ _, hbelow, habove, hnear, heven⟩

namespace Rounded

variable {r : Nat} {e : Int} (h : Rounded q r e)

include h

/-- The significand may have been rounded up to the next power of two. -/
theorem significand_le : r ≤ 2 ^ 53 := by
  have hlt : (r : ℚ) < (2 ^ 53 + 1 : Nat) := by
    push_cast
    linarith [h.below, (abs_le.1 h.near).2]
  exact Nat.lt_succ_iff.1 (by exact_mod_cast hlt)

theorem le_significand (habove : 2 ^ 52 ≤ q / 2 ^ e) : 2 ^ 52 ≤ r := by
  have hlt : ((2 ^ 52 : Nat) : ℚ) < (r + 1 : Nat) := by
    push_cast
    linarith [(abs_le.1 h.near).1]
  exact Nat.lt_succ_iff.1 (by exact_mod_cast hlt)

/-- Below the end of the range the bits are those of a finite magnitude. -/
theorem magnitudeBits_lt_iff : magnitudeBits r e < infinityBits ↔ q < beyondRange := by
  have hle := h.significand_le
  have hbits : magnitudeBits r e < infinityBits ↔ (e + 1074).toNat * 2 ^ 52 + r < 2047 * 2 ^ 52 := by
    have hmin : magnitudeBits r e = min ((e + 1074).toNat * 2 ^ 52 + r) infinityBits := rfl
    have hinfinity : infinityBits = 2047 * 2 ^ 52 := rfl
    omega
  have hq : q = q / 2 ^ e * 2 ^ e := (div_mul_cancel₀ q (two_zpow_pos e).ne').symm
  rw [hbits]
  rcases lt_trichotomy e 971 with hlt | rfl | hgt
  · -- All significands are small enough.
    refine iff_of_true (by omega) ?_
    have hpow : (2 : ℚ) ^ (e + 1) ≤ 2 ^ (971 : Int) := zpow_le_zpow_right₀ one_le_two (by omega)
    rw [zpow_add_one₀ two_ne_zero] at hpow
    have hbelow := mul_lt_mul_of_pos_right h.below (two_zpow_pos e)
    have hpos := two_zpow_pos e
    rw [hq, beyondRange_eq]
    generalize (2 : ℚ) ^ (971 : Int) = top, (2 : ℚ) ^ e = unit at hpow hbelow hpos
    linarith
  · rw [hq, beyondRange_eq, mul_lt_mul_iff_left₀ (two_zpow_pos 971)]
    obtain ⟨hnear, heven⟩ := And.intro (abs_le.1 h.near) h.even
    have hsig : (971 + 1074 : Int).toNat * 2 ^ 52 + r < 2047 * 2 ^ 52 ↔ r < 2 ^ 53 := by omega
    rw [hsig]
    constructor
    · intro hr
      by_contra hlarge
      -- Half a unit below the power of two the even significand would have been taken.
      have hr' : (r : ℚ) ≤ 2 ^ 53 - 1 := by
        have hcast : ((r + 1 : Nat) : ℚ) ≤ (2 ^ 53 : Nat) := by exact_mod_cast hr
        push_cast at hcast
        linarith
      have hodd := heven (by rw [abs_of_neg (by linarith)]; linarith)
      have hlast : ((2 ^ 53 : Nat) : ℚ) < (r + 2 : Nat) := by
        push_cast
        linarith
      have hlast : 2 ^ 53 < r + 2 := by exact_mod_cast hlast
      omega
    · intro hsmall
      have hr : (r : ℚ) < (2 ^ 53 : Nat) := by
        push_cast
        linarith
      exact_mod_cast hr
  · -- Even the smallest significand with all bits is too large.
    have habove := h.above.resolve_right (by omega)
    have hr := h.le_significand habove
    refine iff_of_false (by omega) (not_lt.2 ?_)
    have hpow : (2 : ℚ) ^ (972 : Int) ≤ 2 ^ e := zpow_le_zpow_right₀ one_le_two (by omega)
    have hmul := mul_le_mul habove hpow (two_zpow_pos _).le (by linarith)
    rw [← hq, show (972 : Int) = 971 + 1 from rfl, zpow_add_one₀ two_ne_zero] at hmul
    rw [beyondRange_eq]
    have hpos := two_zpow_pos 971
    generalize (2 : ℚ) ^ (971 : Int) = top at hmul hpos
    linarith

omit h in
theorem distance_eq (q : ℚ) (e : Int) (x : ℚ) : |x * 2 ^ e - q| = |x - q / 2 ^ e| * 2 ^ e := by
  have hpow := two_zpow_pos e
  rw [← abs_of_pos hpow, ← abs_mul, abs_of_pos hpow, sub_mul, div_mul_cancel₀ q hpow.ne']

/-- No finite number is nearer, and as near only if the significand is even. -/
theorem nearest {k : Nat} {f : Int} (hk : k < 2 ^ 53) (hf : -1074 ≤ f) :
    |(r : ℚ) * 2 ^ e - q| ≤ |(k : ℚ) * 2 ^ f - q| ∧
      (|(k : ℚ) * 2 ^ f - q| = |(r : ℚ) * 2 ^ e - q| →
        (k : ℚ) * 2 ^ f = r * 2 ^ e ∨ r % 2 = 0) := by
  have hpow := two_zpow_pos e
  by_cases hle : e ≤ f
  · -- The other magnitude is a whole number of units.
    obtain ⟨j, hj⟩ := exists_units hle k
    rw [hj, distance_eq, distance_eq]
    by_cases hjr : j = r
    · subst hjr
      exact ⟨le_rfl, fun _ => .inl rfl⟩
    · obtain ⟨hnear, htie⟩ := near_of_half h.near hjr
      refine ⟨mul_le_mul_of_nonneg_right hnear hpow.le, fun heq => .inr (h.even (htie ?_))⟩
      exact mul_right_cancel₀ hpow.ne' heq
  · -- The other magnitude is below 2^52 units, and these are nearer.
    have habove := h.above.resolve_right (by omega)
    have hother : (k : ℚ) * 2 ^ f < 2 ^ 52 * 2 ^ e := by
      have hk' : (k : ℚ) < 2 ^ 53 := by exact_mod_cast hk
      have hpow' : (2 : ℚ) ^ (f + 1) ≤ 2 ^ e := zpow_le_zpow_right₀ one_le_two (by omega)
      rw [zpow_add_one₀ two_ne_zero] at hpow'
      calc (k : ℚ) * 2 ^ f < 2 ^ 53 * 2 ^ f := mul_lt_mul_of_pos_right hk' (two_zpow_pos f)
        _ = 2 ^ 52 * (2 ^ f * 2) := by ring
        _ ≤ 2 ^ 52 * 2 ^ e := mul_le_mul_of_nonneg_left hpow' (by norm_num)
    have hunits : (2 : ℚ) ^ 52 * 2 ^ e ≤ q := (le_div_iff₀ hpow).1 habove
    have hnearer : |(r : ℚ) * 2 ^ e - q| ≤ |(2 : ℚ) ^ 52 * 2 ^ e - q| := by
      rw [distance_eq, distance_eq]
      refine mul_le_mul_of_nonneg_right ?_ hpow.le
      by_cases hr : 2 ^ 52 = r
      · rw [← hr]
        push_cast
        exact le_rfl
      · have hnear := (near_of_half h.near hr).1
        push_cast at hnear
        exact hnear
    have hstrict : |(r : ℚ) * 2 ^ e - q| < |(k : ℚ) * 2 ^ f - q| := by
      refine hnearer.trans_lt ?_
      rw [abs_of_nonpos (by linarith), abs_of_neg (by linarith)]
      linarith
    exact ⟨hstrict.le, fun heq => absurd heq hstrict.ne'⟩

end Rounded

theorem nearestBits_le (num den : Nat) : nearestBits num den ≤ infinityBits := by
  unfold nearestBits
  split
  · decide
  · exact Nat.min_le_right _ _

/-- A ratio is rounded to a finite number just if it is below the end of the range. -/
theorem nearestBits_lt_iff (num : Nat) (hden : den ≠ 0) :
    nearestBits num den < infinityBits ↔ (num : ℚ) / den < beyondRange := by
  by_cases hnum : num = 0
  · subst hnum
    refine iff_of_true (Nat.pos_of_ne_zero (by decide)) ?_
    rw [Nat.cast_zero, zero_div, beyondRange_eq]
    exact mul_pos (by norm_num) (two_zpow_pos 971)
  · obtain ⟨r, e, hbits, hrounded⟩ := nearestBits_rounded hnum hden
    rw [hbits, hrounded.magnitudeBits_lt_iff]

/-- Rounding a ratio gives the nearest number. -/
theorem nearest_isNearest (negative : Bool) (num : Nat) (hden : den ≠ 0) :
    IsNearest negative (num / den) (nearest negative num den) := by
  refine ⟨fun hfinite => ?_, fun hinfinite => ?_⟩
  · have hlt := (nearestBits_lt_iff num hden).2 hfinite
    by_cases hnum : num = 0
    · subst hnum
      refine ⟨0, -1074, ?_, fun y sign k f hy => ?_⟩
      · rw [nearest, nearestBits_zero, parts_ofMagnitude (by decide)]
        rfl
      · refine ⟨?_, fun _ => .inr rfl⟩
        rw [Nat.cast_zero, zero_mul, zero_div, sub_zero, abs_zero]
        exact abs_nonneg _
    · obtain ⟨r, e, hbits, hrounded⟩ := nearestBits_rounded hnum hden
      rw [hbits] at hlt
      obtain ⟨m, e', hparts, hvalue, heven⟩ := parts_of_magnitudeBits negative hrounded.lowest
        hrounded.significand_le (hrounded.above.imp_left hrounded.le_significand) hlt
      refine ⟨m, e', ?_, fun y sign k f hy => ?_⟩
      · rw [nearest, hbits]
        exact hparts
      · have hother := isMagnitude_of_parts hy
        rw [hvalue]
        obtain ⟨hnear, htie⟩ := hrounded.nearest hother.high hother.lowest
        exact ⟨hnear, fun heq => (htie heq).imp_right heven⟩
  · have hbits : nearestBits num den = infinityBits := by
      have hge := mt (nearestBits_lt_iff num hden).1 (not_lt.2 hinfinite)
      exact le_antisymm (nearestBits_le num den) (not_lt.1 hge)
    rw [nearest, hbits, parts_ofMagnitude_infinite]

end Nearest

/-- Rounding a decimal gives the nearest number. -/
theorem Decimal.nearest_isNearest (negative : Bool) (d : Decimal) :
    IsNearest negative d.value (d.nearest negative) := by
  have hratio := Number.nearest_isNearest negative d.ratio.1 d.ratio_den_ne_zero
  rw [ratio_value] at hratio
  rw [nearest, nearestBits_eq]
  exact hratio

end Mandate.Number
