/-
  Mandate.Proofs.NumberBits

  Numbers and their bits. A number is told by its sign and the bits of its
  magnitude, so it can be put together again from its parts.

    * `ofMagnitude_of_parts`: a finite number is the number nearest to its value.
    * `shortest_nearest`: the shortest decimal of a finite number reads as the number.
    * `ofMagnitude_of_infinite`, `eq_nan_of_parts`: what is not finite is told by its
      sign, or not at all.

  That the bits of a number give the number back is a lemma that only the whole
  library leads to.
-/

import Mandate.Proofs.Rounding
import Mathlib

namespace Mandate.Number

/-! ## Bits -/

/-- The bits of a number are its sign, the field of its exponent and its fraction. -/
theorem bits_eq (x : Float) :
    x.toBits.toNat = (if x.toBits.toNat.testBit 63 then Nat.pow 2 63 else 0)
      + x.toBits.toNat / Nat.pow 2 52 % Nat.pow 2 11 * Nat.pow 2 52
      + x.toBits.toNat % Nat.pow 2 52 := by
  have hlt : x.toBits.toNat < 2 ^ 64 := x.toBits.toNat_lt
  have h52 : Nat.pow 2 52 = 2 ^ 52 := rfl
  have h11 : Nat.pow 2 11 = 2 ^ 11 := rfl
  have h63 : Nat.pow 2 63 = 2 ^ 63 := rfl
  rw [h52, h11, h63, Nat.testBit_eq_decide_div_mod_eq]
  generalize x.toBits.toNat = b at hlt
  simp only [decide_eq_true_eq]
  split
  · omega
  · omega

theorem ofMagnitude_eq {x : Float} {negative : Bool} {bits : Nat}
    (h : x.toBits.toNat = (if negative then Nat.pow 2 63 else 0) + bits) :
    ofMagnitude negative bits = x := by
  have hbits : (if negative then Nat.pow 2 63 + bits else bits) = x.toBits.toNat := by
    rw [h]
    split
    · rfl
    · rw [Nat.zero_add]
  rw [ofMagnitude, hbits, UInt64.ofNat_toNat, Float.ofBits_toBits]

/-- A finite number is the number nearest to its value. -/
theorem ofMagnitude_of_parts {x : Float} {negative : Bool} {m : Nat} {e : Int}
    (h : parts x = .finite negative m e) :
    ofMagnitude negative (nearestBits (scaled m 1 (-e)).1 (scaled m 1 (-e)).2) = x := by
  have hbits := bits_eq x
  have hfield : x.toBits.toNat / Nat.pow 2 52 % Nat.pow 2 11 < 2048 := Nat.mod_lt _ (by decide)
  have hfraction : x.toBits.toNat % Nat.pow 2 52 < Nat.pow 2 52 := Nat.mod_lt _ (by decide)
  have hpow : Nat.pow 2 52 = 4503599627370496 := rfl
  unfold parts at h
  dsimp only at h
  generalize x.toBits.toNat.testBit 63 = sign at h hbits
  generalize x.toBits.toNat / Nat.pow 2 52 % Nat.pow 2 11 = field at h hbits hfield
  generalize x.toBits.toNat % Nat.pow 2 52 = fraction at h hbits hfraction
  rw [hpow] at h hbits hfraction
  split at h
  · split at h
    · cases h
    · cases h
  split at h
  · next hfinite hzero =>
    injection h with hsign hm he
    subst hsign hm he
    rw [nearestBits_exact (by decide) (by omega) (.inr rfl)]
    apply ofMagnitude_eq
    rw [hbits, magnitudeBits, infinityBits, hpow]
    omega
  · next hfinite hzero =>
    injection h with hsign hm he
    subst hsign hm he
    rw [nearestBits_exact (by omega) (by omega) (.inl (by omega))]
    apply ofMagnitude_eq
    have hexponent : ((field : Int) - 1075 + 1074).toNat = field - 1 := by omega
    rw [hbits, magnitudeBits, infinityBits, hpow, hexponent]
    omega

/-- The shortest decimal of a finite number reads as the number. -/
theorem shortest_nearest {x : Float} {negative : Bool} {m : Nat} {e : Int}
    (h : parts x = .finite negative m e) : (shortest m e).nearest negative = x := by
  rw [Decimal.nearest, shortest_nearestBits, ofMagnitude_of_parts h]

/-- An infinite number is told by its sign. -/
theorem ofMagnitude_of_infinite {x : Float} {negative : Bool} (h : parts x = .infinite negative) :
    ofMagnitude negative infinityBits = x := by
  have hbits := bits_eq x
  unfold parts at h
  dsimp only at h
  split at h
  · next hfield =>
    split at h
    · next hfraction =>
      injection h with hsign
      rw [hfield, hfraction, hsign, Nat.add_zero] at hbits
      exact ofMagnitude_eq hbits
    · cases h
  · split at h
    · cases h
    · cases h

/-- There is one number that is no number. -/
theorem eq_nan_of_parts {x : Float} (h : parts x = .nan) : x = nan := by
  have hfields : x.toBits.toNat / Nat.pow 2 52 % Nat.pow 2 11 = 2047 ∧
      x.toBits.toNat % Nat.pow 2 52 ≠ 0 := by
    unfold parts at h
    dsimp only at h
    split at h
    · next hfield =>
      split at h
      · cases h
      · next hfraction => exact ⟨hfield, hfraction⟩
    · split at h
      · cases h
      · cases h
  -- A NaN with other bits is none of the bit patterns that a number may have.
  have hpacked : x.toBits.toBitVec = 0x7ff8000000000000#64 := by
    refine x.toModel.valid.eq_packedNaN ?_ ?_
    · apply BitVec.eq_of_toNat_eq
      rw [Float.Model.UnpackedFloat.unpackExponent, BitVec.toNat_cast, BitVec.extractLsb_toNat,
        Nat.shiftRight_eq_div_pow]
      exact hfields.1
    · intro hzero
      have hfraction := congrArg BitVec.toNat hzero
      rw [Float.Model.UnpackedFloat.unpackMantissa, BitVec.toNat_cast, BitVec.extractLsb_toNat,
        Nat.shiftRight_eq_div_pow, Nat.pow_zero, Nat.div_one] at hfraction
      exact hfields.2 hfraction
  have hnan : nan.toBits.toBitVec = 0x7ff8000000000000#64 := by decide +kernel
  exact Float.toBits_inj.1 (UInt64.toBitVec_inj.1 (hpacked.trans hnan.symm))

end Mandate.Number
