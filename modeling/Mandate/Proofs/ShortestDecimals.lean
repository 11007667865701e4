/-
  Mandate.Proofs.ShortestDecimals

  The decimal that a number is written as reads as the number, has the fewest digits of
  all that do, and is the nearest to the number among those.

    * `nearestBits_mono`: rounding keeps the order. So what lies between a number and a
      decimal that reads as it reads as the number too.
    * `Between`: a magnitude lies between two neighbours of one decimal place. At the
      place that `n` digits reach, no other decimal of `n` digits is closer on its side
      (`Between.apart`), so only these two have to be tried (`shortestWith_complete`).
    * `shortestWith_seventeen`: numbers are so far apart that seventeen digits are enough.
    * `shortest_isShortest`: the search over the counts of digits finds the shortest one.
-/

import Mandate.Proofs.NearestNumbers

namespace Mandate.Number

/-! ## Rounding keeps the order -/

section Order

variable {q q' : ℚ} {r r' : Nat} {e e' : Int}

/-- A larger magnitude is not rounded at a lower exponent. -/
theorem Rounded.exponent_le (h : Rounded q r e) (h' : Rounded q' r' e') (hle : q ≤ q') :
    e ≤ e' := by
  by_contra hlt
  have habove := h.above.resolve_right (by linarith [h'.lowest])
  have hpow : (2 : ℚ) ^ (e' + 1) ≤ 2 ^ e := zpow_le_zpow_right₀ one_le_two (by omega)
  rw [zpow_add_one₀ two_ne_zero] at hpow
  have hlow := (le_div_iff₀ (two_zpow_pos e)).1 habove
  have hhigh := (div_lt_iff₀ (two_zpow_pos e')).1 h'.below
  linarith

/-- At one exponent a larger magnitude has no smaller significand. -/
theorem Rounded.significand_mono (h : Rounded q r e) (h' : Rounded q' r' e) (hle : q ≤ q') :
    r ≤ r' := by
  by_contra hlt
  have hdiv : q / 2 ^ e ≤ q' / 2 ^ e := div_le_div_of_nonneg_right hle (two_zpow_pos e).le
  have hnear := abs_le.1 h.near
  have hnear' := abs_le.1 h'.near
  have hstep : (r' : ℚ) + 1 ≤ r := by exact_mod_cast (by omega : r' + 1 ≤ r)
  -- Both would be ties, and the significands next to each other are not both even.
  have heven := h.even (by rw [abs_of_nonneg (by linarith)]; linarith)
  have heven' := h'.even (by rw [abs_of_nonpos (by linarith)]; linarith)
  have hnext : (r : ℚ) = r' + 1 := by linarith
  have hnext : r = r' + 1 := by exact_mod_cast hnext
  omega

theorem Rounded.magnitudeBits_mono (h : Rounded q r e) (h' : Rounded q' r' e') (hle : q ≤ q') :
    magnitudeBits r e ≤ magnitudeBits r' e' := by
  have hlowest := h.lowest
  have hexponent := h.exponent_le h' hle
  have hsum : (e + 1074).toNat * 2 ^ 52 + r ≤ (e' + 1074).toNat * 2 ^ 52 + r' := by
    rcases hexponent.lt_or_eq with hlt | rfl
    · have hr := h.significand_le
      have hr' := h'.le_significand (h'.above.resolve_right (by omega))
      omega
    · have hr := h.significand_mono h' hle
      omega
  exact min_le_min_right _ hsum

end Order

theorem nearestBits_mono {num den num' den' : Nat} (hden : den ≠ 0) (hden' : den' ≠ 0)
    (h : (num : ℚ) / den ≤ num' / den') : nearestBits num den ≤ nearestBits num' den' := by
  by_cases hnum : num = 0
  · rw [hnum, nearestBits_zero]
    exact Nat.zero_le _
  have hnum' : num' ≠ 0 := by
    rintro rfl
    rw [Nat.cast_zero, zero_div] at h
    exact absurd (ratio_pos hnum hden) (not_lt.2 h)
  obtain ⟨r, e, hbits, hrounded⟩ := nearestBits_rounded hnum hden
  obtain ⟨r', e', hbits', hrounded'⟩ := nearestBits_rounded hnum' hden'
  rw [hbits, hbits']
  exact hrounded.magnitudeBits_mono hrounded' h

namespace Decimal

variable {d d' : Decimal} {num den : Nat}

theorem nearestBits_le (hden : den ≠ 0) (h : d.value ≤ num / den) :
    d.nearestBits ≤ Number.nearestBits num den := by
  rw [nearestBits_eq]
  exact nearestBits_mono d.ratio_den_ne_zero hden (d.ratio_value.trans_le h)

theorem le_nearestBits (hden : den ≠ 0) (h : num / den ≤ d.value) :
    Number.nearestBits num den ≤ d.nearestBits := by
  rw [nearestBits_eq]
  exact nearestBits_mono hden d.ratio_den_ne_zero (h.trans_eq d.ratio_value.symm)

theorem nearestBits_le_nearestBits (h : d.value ≤ d'.value) : d.nearestBits ≤ d'.nearestBits := by
  rw [nearestBits_eq d']
  exact nearestBits_le d'.ratio_den_ne_zero (h.trans_eq d'.ratio_value.symm)

end Decimal

/-! ## Neighbours of one decimal place -/

theorem ten_zpow_pos (e : Int) : (0 : ℚ) < 10 ^ e := zpow_pos (by norm_num) e

/-- A magnitude lies between a whole number of units of a decimal place and the next one. -/
structure Between (q : ℚ) (place : Int) (below : Nat) : Prop where
  le : (below : ℚ) * 10 ^ place ≤ q
  lt : q < (below + 1) * 10 ^ place

namespace Between

variable {q : ℚ} {place : Int} {below n : Nat} {d : Decimal} (h : Between q place below)

include h

/-- No decimal of few digits is strictly between the two neighbours: at this place or a higher one
it is a whole number of units, and at a lower place it is too small. -/
theorem apart (hn : 0 < n) (hplace : (10 : ℚ) ^ (place + n - 1) ≤ q) (hd : d.digits < 10 ^ n) :
    d.value ≤ below * 10 ^ place ∨ (below + 1) * 10 ^ place ≤ d.value := by
  have hunit := ten_zpow_pos place
  by_cases hexponent : place ≤ d.exponent
  · obtain ⟨k, hk⟩ : ∃ k : Nat, d.value = k * 10 ^ place := by
      refine ⟨d.digits * 10 ^ (d.exponent - place).toNat, ?_⟩
      have hsplit : d.exponent = ((d.exponent - place).toNat : Int) + place := by omega
      rw [Decimal.value, hsplit, zpow_add₀ (by norm_num), zpow_natCast]
      push_cast
      simp only [add_sub_cancel_right, Int.toNat_natCast]
      ring
    rw [hk]
    rcases Nat.lt_or_ge below k with hlt | hle
    · refine .inr (mul_le_mul_of_nonneg_right ?_ hunit.le)
      exact_mod_cast hlt
    · refine .inl (mul_le_mul_of_nonneg_right ?_ hunit.le)
      exact_mod_cast hle
  · refine .inl ?_
    have hpower : (10 : ℚ) ^ (place + n - 1) = (10 ^ (n - 1) : Nat) * 10 ^ place := by
      rw [show place + n - 1 = ((n - 1 : Nat) : Int) + place by omega, zpow_add₀ (by norm_num),
        zpow_natCast]
      push_cast
      ring
    have hbelow : 10 ^ (n - 1) ≤ below := by
      have hlt : ((10 ^ (n - 1) : Nat) : ℚ) * 10 ^ place < (below + 1 : Nat) * 10 ^ place := by
        push_cast
        push_cast at hpower
        linarith [h.lt]
      have hlt : 10 ^ (n - 1) < below + 1 := by exact_mod_cast (mul_lt_mul_iff_left₀ hunit).1 hlt
      omega
    have hdigits : (d.digits : ℚ) ≤ 10 ^ (n : Int) := by
      rw [zpow_natCast]
      exact_mod_cast hd.le
    calc d.value ≤ 10 ^ (n : Int) * 10 ^ (place - 1) :=
          mul_le_mul hdigits (zpow_le_zpow_right₀ (by norm_num) (by omega)) (ten_zpow_pos _).le
            (ten_zpow_pos _).le
      _ = 10 ^ (place + n - 1) := by
          rw [← zpow_add₀ (by norm_num)]
          congr 1
          omega
      _ = (10 ^ (n - 1) : Nat) * 10 ^ place := hpower
      _ ≤ below * 10 ^ place := mul_le_mul_of_nonneg_right (by exact_mod_cast hbelow) hunit.le

omit h in
/-- If a decimal of few digits reads as the magnitude, so does the neighbour on its side. -/
theorem neighbour_reads {num den : Nat} (h : Between (num / den) place below) (hden : den ≠ 0)
    (hn : 0 < n) (hplace : (10 : ℚ) ^ (place + n - 1) ≤ num / den) (hd : d.digits < 10 ^ n)
    (hreads : d.nearestBits = nearestBits num den) :
    d.value ≤ below * 10 ^ place ∧ Decimal.nearestBits ⟨below, place⟩ = nearestBits num den ∨
      (below + 1) * 10 ^ place ≤ d.value ∧
        Decimal.nearestBits ⟨below + 1, place⟩ = nearestBits num den := by
  have hlow : Decimal.value ⟨below, place⟩ = below * 10 ^ place := rfl
  have hhigh : Decimal.value ⟨below + 1, place⟩ = (below + 1) * 10 ^ place := by
    rw [Decimal.value, Nat.cast_add_one]
  rcases h.apart hn hplace hd with hside | hside
  · refine .inl ⟨hside, le_antisymm (Decimal.nearestBits_le hden (hlow.trans_le h.le)) ?_⟩
    rw [← hreads]
    exact Decimal.nearestBits_le_nearestBits (hside.trans_eq hlow.symm)
  · refine .inr ⟨hside, le_antisymm ?_ (Decimal.le_nearestBits hden (h.lt.le.trans_eq hhigh.symm))⟩
    rw [← hreads]
    exact Decimal.nearestBits_le_nearestBits (hhigh.trans_le hside)

end Between

/-! ## Counts of digits -/

theorem digitCount_le_iff {n k : Nat} (hk : 0 < k) :
    Decimal.digitCount n ≤ k ↔ n < 10 ^ k := Nat.length_toDigits_le_iff (by decide) hk

theorem digitCount_pos (n : Nat) : 0 < Decimal.digitCount n := Nat.length_toDigits_pos

theorem pow_le_of_digitCount {n : Nat} (hn : n ≠ 0) : 10 ^ (Decimal.digitCount n - 1) ≤ n := by
  by_cases hone : Decimal.digitCount n = 1
  · rw [hone]
    exact Nat.pos_of_ne_zero hn
  · have hpos := digitCount_pos n
    have hnot : ¬n < 10 ^ (Decimal.digitCount n - 1) := by
      rw [← digitCount_le_iff (by omega)]
      omega
    exact not_lt.1 hnot

/-- The quotient of whole numbers is the largest one below the ratio. -/
theorem div_between (num : Nat) {den : Nat} (hden : den ≠ 0) :
    ((num / den : Nat) : ℚ) ≤ num / den ∧ (num : ℚ) / den < (num / den : Nat) + 1 := by
  have hd : (0 : ℚ) < den := by exact_mod_cast Nat.pos_of_ne_zero hden
  refine ⟨Nat.cast_div_le, ?_⟩
  rw [div_lt_iff₀ hd, mul_comm]
  exact_mod_cast Nat.lt_mul_div_succ num (Nat.pos_of_ne_zero hden)

/-- The decimal exponent of a ratio, up to a power of ten that counts to the one below. -/
theorem decimalExponent_between {num den : Nat} (hnum : num ≠ 0) (hden : den ≠ 0) :
    (10 : ℚ) ^ decimalExponent num den ≤ num / den ∧
      (num : ℚ) / den ≤ 10 ^ (decimalExponent num den + 1) := by
  have hbounds {a b : Nat} (hb : b ≠ 0) (hle : b ≤ a) :
      (10 : ℚ) ^ ((Decimal.digitCount (a / b) : Int) - 1) ≤ a / b ∧
        (a : ℚ) / b < 10 ^ (Decimal.digitCount (a / b) : Int) := by
    obtain ⟨hlow, hhigh⟩ := div_between a hb
    have hne : a / b ≠ 0 := (Nat.div_pos hle (Nat.pos_of_ne_zero hb)).ne'
    have hcount := digitCount_pos (a / b)
    constructor
    · refine le_trans ?_ hlow
      rw [show (Decimal.digitCount (a / b) : Int) - 1 = ((Decimal.digitCount (a / b) - 1 : Nat) : Int)
        by omega, zpow_natCast]
      exact_mod_cast pow_le_of_digitCount hne
    · refine hhigh.trans_le ?_
      rw [zpow_natCast]
      exact_mod_cast Decimal.lt_pow_digitCount (a / b)
  unfold decimalExponent
  by_cases hle : den ≤ num
  · rw [if_pos hle, sub_add_cancel]
    exact (hbounds hden hle).imp_right le_of_lt
  · -- Below one the bounds are those of the inverse.
    obtain ⟨hlow, hhigh⟩ := hbounds hnum (Nat.le_of_not_le hle)
    have hratio : (num : ℚ) / den = ((den : ℚ) / num)⁻¹ := (inv_div _ _).symm
    have hpos := ratio_pos hden hnum
    rw [if_neg hle, hratio]
    constructor
    · rw [zpow_neg]
      exact inv_anti₀ hpos hhigh.le
    · rw [show -(Decimal.digitCount (den / num) : Int) + 1 =
        -((Decimal.digitCount (den / num) : Int) - 1) by omega, zpow_neg]
      exact inv_anti₀ (ten_zpow_pos _) hlow

/-! ## The search at one count of digits -/

/-- The two decimals of a place around a magnitude, the nearer one first. -/
structure Candidates (q : ℚ) (place : Int) (near far : Nat) : Prop where
  neighbours : ∃ below, Between q place below ∧
    (near = below ∧ far = below + 1 ∨ near = below + 1 ∧ far = below)
  half : |(near : ℚ) * 10 ^ place - q| ≤ 10 ^ place / 2

theorem roundDiv_cases (num den : Nat) :
    roundDiv num den = num / den ∨ roundDiv num den = num / den + 1 := by
  unfold roundDiv
  dsimp only
  split
  · exact .inl rfl
  · exact .inr rfl

/-- Rounding a ratio in units of a place, and the other neighbour. -/
theorem candidates_of_roundDiv {q : ℚ} {place : Int} {a b : Nat} (hb : b ≠ 0)
    (h : (a : ℚ) / b = q / 10 ^ place) :
    Candidates q place (roundDiv a b)
      (if roundDiv a b = a / b then roundDiv a b + 1 else a / b) := by
  have hunit := ten_zpow_pos place
  obtain ⟨hlow, hhigh⟩ := div_between a hb
  rw [h] at hlow hhigh
  refine ⟨⟨a / b, ⟨(le_div_iff₀ hunit).1 hlow, (div_lt_iff₀ hunit).1 hhigh⟩, ?_⟩, ?_⟩
  · rcases roundDiv_cases a b with heq | heq
    · rw [if_pos heq, heq]
      exact .inl ⟨rfl, rfl⟩
    · rw [if_neg (by omega), heq]
      exact .inr ⟨rfl, rfl⟩
  · have hnear := (roundDiv_near a hb).1
    rw [h] at hnear
    calc |(roundDiv a b : ℚ) * 10 ^ place - q|
        = |(roundDiv a b : ℚ) - q / 10 ^ place| * 10 ^ place := by
          rw [← abs_of_pos hunit, ← abs_mul, abs_of_pos hunit, sub_mul,
            div_mul_cancel₀ q hunit.ne']
      _ ≤ 1 / 2 * 10 ^ place := mul_le_mul_of_nonneg_right hnear hunit.le
      _ = 10 ^ place / 2 := by ring

theorem findSome?_pair {α : Type} {p : Nat → Prop} [DecidablePred p] (f : Nat → α) (a b : Nat) :
    ([a, b].findSome? fun n => if p n then some (f n) else none) =
      if p a then some (f a) else if p b then some (f b) else none := by
  by_cases ha : p a
  · simp [ha]
  · simp [ha]

/-- Two candidates are tried, the nearer one first. -/
theorem shortestWith_eq (num n : Nat) {den : Nat} (hden : den ≠ 0) :
    ∃ near far, Candidates (num / den) (decimalExponent num den + 1 - n) near far ∧
      shortestWith num den n =
        if Decimal.nearestBits ⟨near, decimalExponent num den + 1 - n⟩ = nearestBits num den
        then some ⟨near, decimalExponent num den + 1 - n⟩
        else if Decimal.nearestBits ⟨far, decimalExponent num den + 1 - n⟩ = nearestBits num den
        then some ⟨far, decimalExponent num den + 1 - n⟩ else none := by
  unfold shortestWith
  generalize decimalExponent num den + 1 - n = place
  dsimp only
  rw [findSome?_pair]
  refine ⟨_, _, candidates_of_roundDiv ?_ ?_, rfl⟩
  · split
    · exact Nat.mul_ne_zero hden (Nat.pow_pos (by decide)).ne'
    · exact hden
  · split
    · next hplace => rw [zpow_of_nonneg Nat.cast_ofNat hplace, Nat.cast_mul, div_div]
    · next hplace =>
      rw [zpow_of_neg Nat.cast_ofNat hplace, Nat.cast_mul, div_inv_eq_mul, div_mul_eq_mul_div]

section Search

variable {num den n near far : Nat} {place : Int} {d c : Decimal}

/-- The nearer candidate is the nearer one. -/
theorem Candidates.nearer {q : ℚ} (h : Candidates q place near far) :
    |(near : ℚ) * 10 ^ place - q| ≤ |(far : ℚ) * 10 ^ place - q| := by
  have hunit := ten_zpow_pos place
  have hapart : |(far : ℚ) * 10 ^ place - near * 10 ^ place| = 10 ^ place := by
    obtain ⟨below, -, ⟨rfl, rfl⟩ | ⟨rfl, rfl⟩⟩ := h.neighbours
    · rw [Nat.cast_add_one, ← sub_mul, add_sub_cancel_left, one_mul, abs_of_pos hunit]
    · rw [Nat.cast_add_one, ← sub_mul, sub_add_cancel_left, neg_one_mul, abs_neg, abs_of_pos hunit]
  have htriangle := abs_sub_le ((far : ℚ) * 10 ^ place) q (near * 10 ^ place)
  rw [hapart, abs_sub_comm q] at htriangle
  linarith [h.half]

/-- If a decimal of few digits reads as the magnitude, so does a candidate that is no farther
away. -/
theorem Candidates.reads (h : Candidates (num / den) place near far) (hden : den ≠ 0) (hn : 0 < n)
    (hplace : (10 : ℚ) ^ (place + n - 1) ≤ num / den) (hd : d.digits < 10 ^ n)
    (hreads : d.nearestBits = nearestBits num den) :
    ∃ digits ∈ [near, far], Decimal.nearestBits ⟨digits, place⟩ = nearestBits num den ∧
      |(digits : ℚ) * 10 ^ place - num / den| ≤ |d.value - num / den| := by
  obtain ⟨below, hbetween, hcandidates⟩ := h.neighbours
  have hmem : below ∈ [near, far] ∧ below + 1 ∈ [near, far] := by
    rcases hcandidates with ⟨rfl, rfl⟩ | ⟨rfl, rfl⟩
    · simp
    · simp
  rcases hbetween.neighbour_reads hden hn hplace hd hreads with ⟨hside, hbits⟩ | ⟨hside, hbits⟩
  · refine ⟨below, hmem.1, hbits, ?_⟩
    rw [abs_of_nonpos (by linarith [hbetween.le]), abs_of_nonpos (by linarith [hbetween.le])]
    linarith
  · refine ⟨below + 1, hmem.2, hbits, ?_⟩
    rw [Nat.cast_add_one, abs_of_nonneg (by linarith [hbetween.lt]),
      abs_of_nonneg (by linarith [hbetween.lt])]
    linarith

/-- The candidates of a ratio are at the place that its digits reach. -/
theorem pow_place_le (hnum : num ≠ 0) (hden : den ≠ 0) :
    (10 : ℚ) ^ (decimalExponent num den + 1 - n + n - 1) ≤ num / den := by
  rw [sub_add_cancel, add_sub_cancel_right]
  exact (decimalExponent_between hnum hden).1

/-- If a decimal of `n` digits reads as a ratio, one is found, and it is no farther away. -/
theorem shortestWith_complete (hnum : num ≠ 0) (hden : den ≠ 0) (hn : 0 < n)
    (hd : d.digits < 10 ^ n) (hreads : d.nearestBits = nearestBits num den) :
    ∃ c, shortestWith num den n = some c ∧ |c.value - num / den| ≤ |d.value - num / den| := by
  obtain ⟨near, far, hcandidates, heq⟩ := shortestWith_eq num n hden
  obtain ⟨digits, hmem, hbits, hclose⟩ :=
    hcandidates.reads hden hn (pow_place_le hnum hden) hd hreads
  rw [heq]
  by_cases hnear : Decimal.nearestBits ⟨near, decimalExponent num den + 1 - n⟩ = nearestBits num den
  · refine ⟨⟨near, decimalExponent num den + 1 - n⟩, if_pos hnear, ?_⟩
    rcases List.mem_pair.1 hmem with rfl | rfl
    · exact hclose
    · exact hcandidates.nearer.trans hclose
  · obtain rfl : digits = far := by
      rcases List.mem_pair.1 hmem with rfl | rfl
      · exact absurd hbits hnear
      · rfl
    refine ⟨⟨digits, decimalExponent num den + 1 - n⟩, ?_, hclose⟩
    rw [if_neg hnear, if_pos hbits]

/-- What is found has `n` digits, or is the power of ten after them. -/
theorem digits_le_of_shortestWith (hnum : num ≠ 0) (hden : den ≠ 0)
    (h : shortestWith num den n = some c) : c.digits ≤ 10 ^ n := by
  obtain ⟨near, far, hcandidates, heq⟩ := shortestWith_eq num n hden
  have hhigh := (decimalExponent_between hnum hden).2
  rw [show decimalExponent num den + 1 = n + (decimalExponent num den + 1 - n) by omega,
    zpow_add₀ (by norm_num), zpow_natCast] at hhigh
  generalize decimalExponent num den + 1 - n = place at hcandidates heq hhigh
  have hunit := ten_zpow_pos place
  obtain ⟨below, hbetween, hneighbours⟩ := hcandidates.neighbours
  rw [heq] at h
  by_cases hsmall : below + 1 ≤ 10 ^ n
  · split at h
    · cases h
      show near ≤ 10 ^ n
      omega
    · split at h
      · cases h
        show far ≤ 10 ^ n
        omega
      · cases h
  · -- The ratio is the power of ten itself, which is nearer than its other neighbour.
    have hle : (10 ^ n : ℚ) ≤ below := by exact_mod_cast (by omega : 10 ^ n ≤ below)
    have hlow := mul_le_mul_of_nonneg_right hle hunit.le
    have hvalue : (num : ℚ) / den = below * 10 ^ place := by linarith [hbetween.le]
    have hbelow : below = 10 ^ n := by
      have heq : (below : ℚ) * 10 ^ place = 10 ^ n * 10 ^ place := by linarith
      have heq := mul_right_cancel₀ hunit.ne' heq
      exact_mod_cast heq
    obtain ⟨rfl, -⟩ | ⟨rfl, -⟩ := hneighbours
    · have hreads : Decimal.nearestBits ⟨near, place⟩ = nearestBits num den :=
        Decimal.nearestBits_of_value hden hvalue.symm
      rw [if_pos hreads] at h
      cases h
      exact hbelow.le
    · have hhalf := hcandidates.half
      rw [hvalue, Nat.cast_add_one, ← sub_mul, add_sub_cancel_left, one_mul, abs_of_pos hunit]
        at hhalf
      linarith

end Search

/-! ## Zeros at the end -/

namespace Decimal

theorem trimmed_digits_le (n : Nat) (d : Decimal) : (trim.go n d).digits ≤ d.digits := by
  induction n generalizing d with
  | zero => exact Nat.le_refl _
  | succ n ih =>
    unfold trim.go
    split
    · exact (ih _).trans (Nat.div_le_self _ _)
    · exact Nat.le_refl _

/-- Without the zeros at the end, the last digit is another one. -/
theorem trimmed_mod (n : Nat) {d : Decimal} (hd : d.digits ≠ 0) (hn : d.digits < 10 ^ n) :
    (trim.go n d).digits % 10 ≠ 0 := by
  induction n generalizing d with
  | zero => exact absurd (Nat.lt_one_iff.1 hn) hd
  | succ n ih =>
    unfold trim.go
    split
    · next hzero =>
      refine ih (by dsimp only; omega) ?_
      rw [Nat.pow_succ] at hn
      exact Nat.div_lt_of_lt_mul (by omega)
    · next hother => exact fun hmod => hother ⟨hd, hmod⟩

/-- A power of ten keeps one digit, and other decimals at most what they had. -/
theorem digitCount_trim_le {d : Decimal} {n : Nat} (hn : 0 < n) (h : d.digits ≤ 10 ^ n) :
    digitCount d.trim.digits ≤ n := by
  rw [digitCount_le_iff hn]
  have hle : d.trim.digits ≤ d.digits := trimmed_digits_le _ d
  by_cases hd : d.digits = 0
  · have hpos : 0 < 10 ^ n := Nat.pow_pos (by decide)
    omega
  · have hmod : d.trim.digits % 10 ≠ 0 := trimmed_mod _ hd (lt_pow_digitCount d.digits)
    have hten : 10 ^ n % 10 = 0 := Nat.mod_eq_zero_of_dvd (dvd_pow_self 10 hn.ne')
    refine lt_of_le_of_ne (hle.trans h) fun heq => hmod ?_
    rw [heq, hten]

end Decimal

/-! ## Seventeen digits -/

section Seventeen

variable {x : Float} {negative : Bool} {m k : Nat} {e f : Int} {d : Decimal}

/-- Numbers are farther apart than sixteen digits tell. -/
theorem IsMagnitude.gap (hm : IsMagnitude m e) (hk : IsMagnitude k f)
    (hne : (k : ℚ) * 2 ^ f ≠ m * 2 ^ e) :
    (m : ℚ) * 2 ^ e < 10 ^ 16 * |(k : ℚ) * 2 ^ f - m * 2 ^ e| := by
  have hunit := two_zpow_pos e
  by_cases hle : e ≤ f
  · -- The other one is a whole number of units away.
    obtain ⟨j, hj⟩ := exists_units hle k
    have hjm : j ≠ m := by
      rintro rfl
      exact hne hj
    have hapart : (1 : ℚ) ≤ |(j : ℚ) - m| := by
      have hint : (1 : ℤ) ≤ |(j : ℤ) - m| := Int.one_le_abs (by omega)
      exact_mod_cast hint
    have hhigh : (m : ℚ) < 2 ^ 53 := by exact_mod_cast hm.high
    rw [hj, ← sub_mul, abs_mul, abs_of_pos hunit, ← mul_assoc]
    refine mul_lt_mul_of_pos_right ?_ hunit
    linarith
  · -- The other one is below, at most at the half unit before the least significand.
    have hlow : (2 : ℚ) ^ 52 ≤ m := by
      exact_mod_cast hm.low.resolve_right fun he => hle (he ▸ hk.lowest)
    have hhigh : (k : ℚ) ≤ 2 ^ 53 - 1 := by
      have hcast : ((k + 1 : Nat) : ℚ) ≤ (2 ^ 53 : Nat) := by exact_mod_cast hk.high
      push_cast at hcast
      linarith
    have hhalf : (2 : ℚ) ^ e = 2 ^ (e - 1) * 2 := by
      rw [← zpow_add_one₀ two_ne_zero, sub_add_cancel]
    have hpos := two_zpow_pos (e - 1)
    have hother : (k : ℚ) * 2 ^ f ≤ (2 ^ 53 - 1) * 2 ^ (e - 1) :=
      mul_le_mul hhigh (zpow_le_zpow_right₀ one_le_two (by omega)) (two_zpow_pos f).le (by norm_num)
    have hself := mul_le_mul_of_nonneg_right hlow hpos.le
    rw [hhalf]
    generalize (k : ℚ) * 2 ^ f = y at hother
    have hassoc : (m : ℚ) * (2 ^ (e - 1) * 2) = 2 * (m * 2 ^ (e - 1)) := by ring
    rw [hassoc, abs_sub_comm, abs_of_pos (by linarith)]
    linarith

theorem nearest_eq_iff (hx : parts x = .finite negative m e) :
    d.nearest negative = x ↔
      d.nearestBits = nearestBits (scaled m 1 (-e)).1 (scaled m 1 (-e)).2 := by
  have hparts := ofMagnitude_of_parts hx
  constructor
  · intro h
    have hbits : (ofMagnitude negative d.nearestBits).toBits.toNat =
        (ofMagnitude negative
          (nearestBits (scaled m 1 (-e)).1 (scaled m 1 (-e)).2)).toBits.toNat := by
      rw [hparts]
      exact congrArg (fun x => x.toBits.toNat) h
    rw [toBits_ofMagnitude (nearestBits_le _ _), Decimal.nearestBits_eq,
      toBits_ofMagnitude (nearestBits_le _ _)] at hbits
    rw [Decimal.nearestBits_eq]
    omega
  · intro h
    rw [Decimal.nearest, h, hparts]

/-- A decimal that agrees with a number to seventeen digits reads as it. -/
theorem nearest_of_close (hx : parts x = .finite negative m e)
    (h : 2 * 10 ^ 16 * |d.value - m * 2 ^ e| ≤ m * 2 ^ e) : d.nearest negative = x := by
  have hm := isMagnitude_of_parts hx
  have hunit := two_zpow_pos e
  have hhigh : (m : ℚ) * 2 ^ e ≤ (2 ^ 53 - 1) * 2 ^ e := by
    refine mul_le_mul_of_nonneg_right ?_ hunit.le
    have hcast : ((m + 1 : Nat) : ℚ) ≤ (2 ^ 53 : Nat) := by exact_mod_cast hm.high
    push_cast at hcast
    linarith
  have hrange : d.value < beyondRange := by
    have htop : (2 : ℚ) ^ e ≤ 2 ^ (971 : Int) := zpow_le_zpow_right₀ one_le_two hm.highest
    have habs := le_abs_self (d.value - m * 2 ^ e)
    rw [beyondRange_eq]
    generalize (2 : ℚ) ^ (971 : Int) = top at htop
    linarith
  obtain ⟨k, f, hparts, hnearest⟩ := (d.nearest_isNearest negative).finite hrange
  have hsame : (k : ℚ) * 2 ^ f = m * 2 ^ e := by
    by_contra hne
    have hgap := hm.gap (isMagnitude_of_parts hparts) hne
    have hnear := (hnearest x negative m e hx).1
    have htriangle := abs_sub_le ((k : ℚ) * 2 ^ f) d.value (m * 2 ^ e)
    rw [abs_sub_comm ((m : ℚ) * 2 ^ e)] at hnear
    linarith
  rw [← ofMagnitude_of_parts hx, ← ofMagnitude_of_parts hparts]
  refine congrArg (ofMagnitude negative) (nearestBits_congr ?_ ?_ ?_)
  · exact scaled_den_ne_zero Nat.one_ne_zero k (-f)
  · exact scaled_den_ne_zero Nat.one_ne_zero m (-e)
  · rw [magnitude_value, magnitude_value, hsame]

/-- Seventeen digits are enough for every number. -/
theorem shortestWith_seventeen (hx : parts x = .finite negative m e) (hm : m ≠ 0) :
    ∃ c, shortestWith (scaled m 1 (-e)).1 (scaled m 1 (-e)).2 17 = some c := by
  have hden := scaled_den_ne_zero Nat.one_ne_zero m (-e)
  obtain ⟨near, far, hcandidates, heq⟩ := shortestWith_eq (scaled m 1 (-e)).1 17 hden
  have hplace := pow_place_le (n := 17) (mt (scaled_num_eq_zero_iff m 1 (-e)).1 hm) hden
  generalize decimalExponent (scaled m 1 (-e)).1 (scaled m 1 (-e)).2 + 1 - (17 : Nat) = place
    at hcandidates heq hplace
  have hhalf := hcandidates.half
  have hpow : (10 : ℚ) ^ (place + (17 : Nat) - 1) = 10 ^ 16 * 10 ^ place := by
    rw [← zpow_natCast, ← zpow_add₀ (by norm_num)]
    congr 1
    omega
  rw [magnitude_value] at hplace hhalf
  rw [hpow] at hplace
  have hclose : 2 * 10 ^ 16 * |Decimal.value ⟨near, place⟩ - m * 2 ^ e| ≤ m * 2 ^ e := by
    rw [Decimal.value]
    linarith
  have hreads := (nearest_eq_iff hx).1 (nearest_of_close hx hclose)
  rw [heq, if_pos hreads]
  exact ⟨_, rfl⟩

end Seventeen

/-! ## The shortest decimal -/

/-- A decimal reads as a number of this sign and magnitude, has the fewest digits of all that do,
and is the nearest to the number among those. -/
structure IsShortest (negative : Bool) (q : ℚ) (x : Float) (d : Decimal) : Prop where
  reads : d.nearest negative = x
  fewest : ∀ d' : Decimal, d'.nearest negative = x →
    Decimal.digitCount d.digits ≤ Decimal.digitCount d'.digits
  closest : ∀ d' : Decimal, d'.nearest negative = x →
    Decimal.digitCount d'.digits = Decimal.digitCount d.digits → |d.value - q| ≤ |d'.value - q|

/-- The first of the counts that are tried. -/
theorem exists_first_of_findSome?_range {α : Type} {f : Nat → Option α} {n : Nat} {a : α}
    (h : (List.range n).findSome? f = some a) : ∃ k < n, f k = some a ∧ ∀ j < k, f j = none := by
  induction n with
  | zero => cases h
  | succ n ih =>
    rw [List.range_succ, List.findSome?_append] at h
    cases hfirst : (List.range n).findSome? f with
    | some b =>
      rw [hfirst] at h
      obtain ⟨k, hk, hfound, hnone⟩ := ih (hfirst.trans h)
      exact ⟨k, Nat.lt_succ_of_lt hk, hfound, hnone⟩
    | none =>
      rw [hfirst, Option.none_or, List.findSome?_singleton] at h
      refine ⟨n, Nat.lt_succ_self n, h, fun j hj => ?_⟩
      exact List.findSome?_eq_none_iff.1 hfirst j (List.mem_range.2 hj)

theorem shortest_isShortest {x : Float} {negative : Bool} {m : Nat} {e : Int}
    (hx : parts x = .finite negative m e) : IsShortest negative (m * 2 ^ e) x (shortest m e) := by
  have hreads := shortest_nearest hx
  by_cases hm : m = 0
  · have hzero : shortest m e = ⟨0, 0⟩ := if_pos hm
    refine ⟨hreads, fun d' _ => ?_, fun d' _ _ => ?_⟩
    · rw [hzero]
      exact digitCount_pos d'.digits
    · have hself : |Decimal.value ⟨0, 0⟩ - (0 : Nat) * 2 ^ e| = 0 := by simp [Decimal.value]
      rw [hzero, hm, hself]
      exact abs_nonneg _
  have hnum := mt (scaled_num_eq_zero_iff m 1 (-e)).1 hm
  have hden := scaled_den_ne_zero Nat.one_ne_zero m (-e)
  -- The search ends at seventeen digits or before, and with fewer nothing was found.
  obtain ⟨k, c, hfound, hnone, hshortest⟩ : ∃ k c,
      shortestWith (scaled m 1 (-e)).1 (scaled m 1 (-e)).2 (k + 1) = some c ∧
      (∀ j < k, shortestWith (scaled m 1 (-e)).1 (scaled m 1 (-e)).2 (j + 1) = none) ∧
      shortest m e = c.trim := by
    have hsome : ((List.range 17).findSome? fun n =>
        shortestWith (scaled m 1 (-e)).1 (scaled m 1 (-e)).2 (n + 1)).isSome = true := by
      obtain ⟨c, hc⟩ := shortestWith_seventeen hx hm
      rw [List.findSome?_isSome_iff]
      exact ⟨16, List.mem_range.2 (by decide), by rw [hc]; rfl⟩
    obtain ⟨c, hc⟩ := Option.isSome_iff_exists.1 hsome
    obtain ⟨k, -, hfound, hnone⟩ := exists_first_of_findSome?_range hc
    refine ⟨k, c, hfound, hnone, ?_⟩
    rw [shortest, if_neg hm]
    dsimp only
    rw [hc, Option.getD_some]
  have hcomplete {d' : Decimal} {n : Nat} (hd' : d'.nearest negative = x) (hn : 0 < n)
      (hdigits : d'.digits < 10 ^ n) :=
    shortestWith_complete hnum hden hn hdigits ((nearest_eq_iff hx).1 hd')
  have hleast (d' : Decimal) (hd' : d'.nearest negative = x) :
      k + 1 ≤ Decimal.digitCount d'.digits := by
    by_contra hlt
    have hpos := digitCount_pos d'.digits
    obtain ⟨c', hc', -⟩ := hcomplete hd' hpos (Decimal.lt_pow_digitCount d'.digits)
    have hcount := hnone (Decimal.digitCount d'.digits - 1) (by omega)
    rw [Nat.sub_add_cancel hpos, hc'] at hcount
    cases hcount
  have hcount : Decimal.digitCount (shortest m e).digits ≤ k + 1 := by
    rw [hshortest]
    exact Decimal.digitCount_trim_le (Nat.succ_pos k)
      (digits_le_of_shortestWith hnum hden hfound)
  refine ⟨hreads, fun d' hd' => hcount.trans (hleast d' hd'), fun d' hd' hsame => ?_⟩
  have hdigits : d'.digits < 10 ^ (k + 1) :=
    (digitCount_le_iff (Nat.succ_pos k)).1 (hsame.le.trans hcount)
  obtain ⟨c', hc', hclose⟩ := hcomplete hd' (Nat.succ_pos k) hdigits
  rw [hfound] at hc'
  cases hc'
  rwa [magnitude_value, ← Decimal.trim_value, ← hshortest] at hclose

end Mandate.Number
