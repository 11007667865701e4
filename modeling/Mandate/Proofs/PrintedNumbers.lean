/-
  Mandate.Proofs.PrintedNumbers

  The text a program prints for a number is read as that number.

    * `IsInteger`: the number has the value of a whole number. Below 10^21 in size its
      text is that of the whole number, and otherwise its literal, which is laid out from
      its shortest decimal (`literal_isShortest`).
    * `Numeral.unsigned`: the layout of a decimal is in the grammar of decimals, with the
      value of the decimal. So is the text of every finite number (`spells_display`).
    * `SpellsDecimal.read_eq`: no digit of any script is blank, so reading takes nothing
      away from such a text, and gives the nearest number.
    * `printed_numbers_read_back`: a number that is one is read back from its text, up to
      the sign of zero, and `toNumber` gives it for what `toString` gives.
-/

import Mandate.Proofs.DocumentText
import Mandate.Proofs.NumberConversion
import Mandate.Proofs.ShortestDecimals

namespace Mandate

namespace Number

/-! ## Whole numbers -/

/-- A finite number that has the value of a whole number. -/
def IsInteger (x : Float) (i : Int) : Prop :=
  ∃ negative m e, parts x = .finite negative m e ∧
    (i : ℚ) = (if negative then -1 else 1) * (m * 2 ^ e)

theorem magnitude_nonneg (m : Nat) (e : Int) : (0 : ℚ) ≤ m * 2 ^ e :=
  mul_nonneg (Nat.cast_nonneg m) (two_zpow_pos e).le

/-- A whole number with the value of a sign and a magnitude has that sign and that size. -/
theorem natAbs_of_signed {i : Int} {negative : Bool} {v : ℚ} (hv : 0 ≤ v)
    (hi : (i : ℚ) = (if negative then -1 else 1) * v) :
    (i.natAbs : ℚ) = v ∧ i = if negative then -(i.natAbs : Int) else i.natAbs := by
  cases negative with
  | false =>
    rw [if_neg Bool.false_ne_true, one_mul] at hi
    have hnonneg : 0 ≤ i := by exact_mod_cast hi ▸ hv
    rw [if_neg Bool.false_ne_true, Nat.cast_natAbs, abs_of_nonneg hnonneg]
    exact ⟨hi, by omega⟩
  | true =>
    rw [if_pos rfl, neg_one_mul] at hi
    have hnonpos : i ≤ 0 := by
      have hcast : (i : ℚ) ≤ 0 := by linarith
      exact_mod_cast hcast
    rw [if_pos rfl, Nat.cast_natAbs, abs_of_nonpos hnonpos, Int.cast_neg, hi, neg_neg]
    exact ⟨rfl, by omega⟩

/-- The size of a whole magnitude: a negative exponent has to divide the significand. -/
theorem size_eq_some_iff {m n : Nat} {e : Int} :
    (if 0 ≤ e then some (m * Nat.pow 2 e.toNat)
      else if m % Nat.pow 2 (-e).toNat = 0 then some (m / Nat.pow 2 (-e).toNat) else none) = some n ↔
      (n : ℚ) = m * 2 ^ e := by
  split
  · next he =>
    rw [zpow_of_nonneg Nat.cast_ofNat he, Option.some.injEq]
    norm_cast
    exact eq_comm
  · next he =>
    have hpos : 0 < Nat.pow 2 (-e).toNat := Nat.pow_pos two_pos
    have hne : ((Nat.pow 2 (-e).toNat : Nat) : ℚ) ≠ 0 := by exact_mod_cast hpos.ne'
    rw [zpow_of_neg Nat.cast_ofNat he, eq_mul_inv_iff_mul_eq₀ hne]
    norm_cast
    generalize Nat.pow 2 (-e).toNat = p at hpos
    split
    · next hdvd =>
      rw [Option.some.injEq, Nat.div_eq_iff_eq_mul_left hpos (Nat.dvd_of_mod_eq_zero hdvd)]
      exact eq_comm
    · next hdvd =>
      refine iff_of_false (fun h => by cases h) ?_
      rintro rfl
      exact hdvd (Nat.mul_mod_left n p)

theorem toInt?_eq_some_iff {x : Float} {i : Int} : toInt? x = some i ↔ IsInteger x i := by
  unfold toInt? IsInteger
  cases hx : parts x with
  | nan => simp
  | infinite negative => simp
  | finite negative m e =>
    simp only [Option.map_eq_some_iff, Option.bind_eq_bind, Option.bind_eq_some_iff,
      Option.pure_def, Option.some.injEq, Parts.finite.injEq]
    constructor
    · rintro ⟨-, ⟨n, hn, rfl⟩, rfl⟩
      refine ⟨negative, m, e, ⟨rfl, rfl, rfl⟩, ?_⟩
      rw [← size_eq_some_iff.1 hn]
      cases negative with
      | false => rw [if_neg Bool.false_ne_true, if_neg Bool.false_ne_true, one_mul, Int.cast_natCast]
      | true => rw [if_pos rfl, if_pos rfl, neg_one_mul, Int.cast_neg, Int.cast_natCast]
    · rintro ⟨negative, m, e, ⟨rfl, rfl, rfl⟩, hi⟩
      obtain ⟨hsize, hsign⟩ := natAbs_of_signed (magnitude_nonneg m e) hi
      exact ⟨i.natAbs, ⟨i.natAbs, size_eq_some_iff.2 hsize, rfl⟩, hsign.symm⟩

/-- A whole number of moderate size is printed as its digits. -/
theorem display_of_integer {x : Float} {i : Int} (h : IsInteger x i) (hi : i.natAbs < 10 ^ 21) :
    display x = toString i := by
  rw [display, toInt?_eq_some_iff.2 h]
  exact if_pos hi

theorem display_of_other {x : Float} (h : ∀ i, IsInteger x i → 10 ^ 21 ≤ i.natAbs) :
    display x = documentLiteral x := by
  unfold display
  split
  · next i hi => exact if_neg (not_lt.2 (h i (toInt?_eq_some_iff.1 hi)))
  · rfl

theorem documentLiteral_of_finite {x : Float} {negative : Bool} {m : Nat} {e : Int}
    (h : parts x = .finite negative m e) : documentLiteral x = literal x := by
  rw [documentLiteral, literal, literalWith, literalWith, h]

/-- The literal of a finite number is laid out from its shortest decimal. -/
theorem literal_isShortest {x : Float} {negative : Bool} {m : Nat} {e : Int}
    (h : parts x = .finite negative m e) :
    ∃ d, literal x = String.ofList ((if negative then ['-'] else []) ++ decimalText d) ∧
      IsShortest negative (m * 2 ^ e) x d := by
  refine ⟨shortest m e, ?_, shortest_isShortest h⟩
  rw [literal, literalWith, h]

theorem display_of_infinite {x : Float} {negative : Bool} (h : parts x = .infinite negative) :
    display x = if negative then "-Infinity" else "Infinity" := by
  have hother : ∀ i, IsInteger x i → 10 ^ 21 ≤ i.natAbs := by
    rintro i ⟨sign, m, e, hx, -⟩
    rw [h] at hx
    cases hx
  rw [display_of_other hother, documentLiteral, literalWith, h]
  rfl

/-! ## Texts of decimals -/

theorem Digits.exists_of_ascii {cs : List Char} (h : ∀ c ∈ cs, c.isDigit = true) :
    ∃ ds, Digits cs ds := by
  refine exists_of_isDigit fun c hc => ?_
  rw [Text.isDigit, digitValue?_of_isDigit (h c hc)]
  rfl

theorem signed_text (negative : Bool) (body : List Char) :
    Signed body negative ((if negative then ['-'] else []) ++ body) := by
  cases negative with
  | false => exact .bare
  | true => exact .minus

theorem Numeral.exponent_powerText (exponent? : Option Int) :
    Exponent (exponent?.getD 0) (powerText exponent?) := by
  cases exponent? with
  | none => exact .absent
  | some e =>
    obtain ⟨ds, hds⟩ : ∃ ds, Digits (exponentText e).tail ds :=
      Digits.exists_of_ascii fun c hc => Json.isDigit_of_mem_exponent hc
    have hvalue : positional 10 ds = e.natAbs := by
      rw [← hds.wholeOf_eq_positional]
      exact Json.wholeOf_exponent e.natAbs
    have hne : ds ≠ [] := mt hds.eq_nil_iff.2 (Json.tail_exponentText_ne_nil e)
    have hsign : Signed (exponentText e).tail (decide (e < 0)) (exponentText e) := by
      have hsigned := signed_signOf (exponentText e ++ [])
      rwa [Json.signOf_exponentText, List.append_nil, List.append_nil] at hsigned
    have hpower := Exponent.present (.inl rfl : 'e' = 'e' ∨ 'e' = 'E') hsign hds hne
    have hexponent : (if decide (e < 0) then -(positional 10 ds : Int) else positional 10 ds) = e := by
      rw [hvalue]
      split
      · next he => rw [decide_eq_true_eq] at he; omega
      · next he => rw [decide_eq_true_eq] at he; omega
    rwa [hexponent] at hpower

/-- The layout of a decimal is in the grammar of decimals. -/
theorem Numeral.unsigned {n : Numeral} (h : n.WellFormed) : Unsigned n.decimal n.text := by
  obtain ⟨ds, hds⟩ := Digits.exists_of_ascii h.whole.digits
  obtain ⟨es, hes⟩ := Digits.exists_of_ascii h.fraction
  have hne : ds ≠ [] := mt hds.eq_nil_iff.2 h.whole.nonempty
  have hlength : n.fraction.length = es.length := List.Forall₂.length_eq hes
  rw [decimal, text, (hds.append hes).wholeOf_eq_positional, hlength, ← List.append_assoc]
  refine .mk ?_ (exponent_powerText n.exponent?)
  unfold pointText
  split
  · next hempty =>
    rw [List.isEmpty_iff] at hempty
    have hes' := hes.eq_nil_iff.1 hempty
    subst hes'
    rw [List.append_nil, List.append_nil]
    exact .whole hds hne
  · exact .pointed hds hes (.inl hne)

/-! ## Texts without blanks -/

/-- The digits of no script are among the blanks. -/
theorem isBlank_of_isDigit {c : Char} (h : Text.isDigit c = true) : Text.isBlank c = false := by
  obtain ⟨z, hz, hlow, hhigh⟩ : ∃ z ∈ Text.zeros, z ≤ c.toNat ∧ c.toNat < z + 10 := by
    unfold Text.isDigit Text.digitValue? at h
    split at h
    · split at h
      · next hc =>
        rw [Char.le_def, Char.le_def, UInt32.le_iff_toNat_le, UInt32.le_iff_toNat_le] at hc
        exact ⟨0x30, List.mem_cons_self, hc.1, Nat.lt_succ_of_le hc.2⟩
      · cases h
    · rw [Option.isSome_map, List.find?_isSome] at h
      obtain ⟨z, hz, hc⟩ := h
      exact ⟨z, hz, of_decide_eq_true hc⟩
  have hapart : Text.zeros.all (fun z =>
      Text.blankRanges.all fun r => r.2 < z || z + 10 ≤ r.1) = true := by decide
  rw [Text.isBlank, List.any_eq_false]
  rintro ⟨lo, hi⟩ hr
  have hrange := List.all_eq_true.1 (List.all_eq_true.1 hapart z hz) _ hr
  simp only [Bool.or_eq_true, decide_eq_true_eq, Bool.and_eq_true] at hrange ⊢
  omega

theorem trim_of_not_blank {cs : List Char} (h : ∀ c ∈ cs, Text.isBlank c = false) :
    Text.trim cs = cs := by
  refine Text.Strips.eq_trim ⟨⟨[], [], ?_, ?_, ?_⟩, ?_, ?_⟩
  · rw [List.nil_append, List.append_nil]
  · exact List.forall_mem_nil _
  · exact List.forall_mem_nil _
  · exact fun c hc => h c (List.mem_of_head? hc)
  · exact fun c hc => h c (List.mem_of_getLast? hc)

theorem Signed.not_blank {body text : List Char} {negative : Bool} (h : Signed body negative text)
    (hbody : ∀ c ∈ body, Text.isBlank c = false) : ∀ c ∈ text, Text.isBlank c = false := by
  cases h with
  | bare => exact hbody
  | plus => exact List.forall_mem_cons.2 ⟨by decide, hbody⟩
  | minus => exact List.forall_mem_cons.2 ⟨by decide, hbody⟩

theorem Digits.not_blank {cs : List Char} {ds : List Nat} (h : Digits cs ds) :
    ∀ c ∈ cs, Text.isBlank c = false := fun c hc => isBlank_of_isDigit (h.isDigit c hc)

theorem Unsigned.not_blank {d : Decimal} {body : List Char} (h : Unsigned d body) :
    ∀ c ∈ body, Text.isBlank c = false := by
  obtain ⟨hmantissa, hexponent⟩ := h
  refine List.forall_mem_append.2 ⟨?_, ?_⟩
  · cases hmantissa with
    | whole hds => exact hds.not_blank
    | pointed hds hes =>
      exact List.forall_mem_append.2
        ⟨hds.not_blank, List.forall_mem_cons.2 ⟨by decide, hes.not_blank⟩⟩
  · cases hexponent with
    | absent => exact List.forall_mem_nil _
    | present hletter hsign hds =>
      refine List.forall_mem_cons.2 ⟨?_, hsign.not_blank hds.not_blank⟩
      rcases hletter with rfl | rfl
      · decide
      · decide

/-- A decimal is read as the number nearest to it. -/
theorem SpellsDecimal.read_eq {negative : Bool} {d : Decimal} {text : List Char}
    (h : SpellsDecimal negative d text) : read text = .ok (some (d.nearest negative)) := by
  refine read_of_decimal? ?_
  obtain ⟨body, hsigned, hbody⟩ := h
  rw [trim_of_not_blank (hsigned.not_blank hbody.not_blank)]
  exact SpellsDecimal.decimal?_eq ⟨body, hsigned, hbody⟩

theorem SpellsInfinity.read_eq {negative : Bool} {text : List Char}
    (h : SpellsInfinity negative text) :
    read text = .ok (some (ofMagnitude negative infinityBits)) := by
  have hword : "Infinity".toList.all (fun c => !Text.isBlank c) = true := by decide
  refine read_of_decimal? ?_
  rw [trim_of_not_blank (Signed.not_blank h fun c hc => ?_), h.decimal?_eq]
  simpa using List.all_eq_true.1 hword c hc

/-! ## Texts of numbers -/

theorem spells_digitsText (n : Nat) : Unsigned ⟨n, 0⟩ (digitsText n) := by
  obtain ⟨ds, hds⟩ := Digits.exists_of_ascii fun c (hc : c ∈ digitsText n) => isDigit_of_mem_digitsText hc
  have hne : ds ≠ [] := mt hds.eq_nil_iff.2 Nat.toDigits_ne_nil
  have h := Unsigned.mk (.whole hds hne) .absent
  rwa [List.append_nil, ← hds.wholeOf_eq_positional, wholeOf_digitsText] at h

/-- The literal of a finite number is a decimal that reads as it. -/
theorem spells_documentLiteral {x : Float} {negative : Bool} {m : Nat} {e : Int}
    (h : parts x = .finite negative m e) :
    ∃ d, SpellsDecimal negative d (documentLiteral x).toList ∧ d.nearest negative = x := by
  refine ⟨(Numeral.ofDecimal (shortest m e)).decimal, ⟨decimalText (shortest m e), ?_, ?_⟩, ?_⟩
  · rw [Json.toList_documentLiteral h]
    exact signed_text negative _
  · rw [Numeral.decimalText_eq]
    exact Numeral.unsigned (Numeral.ofDecimal_wellFormed _)
  · rw [← shortest_nearest h, Decimal.nearest, Decimal.nearest,
      Decimal.nearestBits_congr (Numeral.ofDecimal_value _)]

/-- A whole number reads as the number that has its value, but for a minus before zero. -/
theorem nearest_of_integer {x : Float} {i : Int} (h : IsInteger x i) :
    Decimal.nearest (decide (i < 0)) ⟨i.natAbs, 0⟩ = x ∨
      Decimal.nearest (decide (i < 0)) ⟨i.natAbs, 0⟩ = ofMagnitude false 0 ∧
        x = ofMagnitude true 0 := by
  obtain ⟨negative, m, e, hx, hi⟩ := h
  obtain ⟨hsize, hsign⟩ := natAbs_of_signed (magnitude_nonneg m e) hi
  have hvalue : Decimal.value ⟨i.natAbs, 0⟩ = (scaled m 1 (-e)).1 / (scaled m 1 (-e)).2 := by
    rw [magnitude_value, Decimal.value, zpow_zero, mul_one, hsize]
  have hbits := Decimal.nearestBits_of_value (scaled_den_ne_zero Nat.one_ne_zero m (-e)) hvalue
  have hparts := ofMagnitude_of_parts hx
  rw [Decimal.nearest, hbits]
  by_cases hm : m = 0
  · have hnum : (scaled m 1 (-e)).1 = 0 := (scaled_num_eq_zero_iff m 1 (-e)).2 hm
    have hzero : i.natAbs = 0 := by
      rw [hm, Nat.cast_zero, zero_mul] at hsize
      exact_mod_cast hsize
    obtain rfl : i = 0 := Int.natAbs_eq_zero.1 hzero
    rw [hnum, nearestBits_zero] at hparts ⊢
    cases negative with
    | false => exact .inl hparts
    | true => exact .inr ⟨rfl, hparts.symm⟩
  · -- A whole number other than zero has the sign of the number.
    have hpos : 0 < i.natAbs := by
      have hcast : (0 : ℚ) < i.natAbs := by
        rw [hsize]
        exact mul_pos (Nat.cast_pos.2 (Nat.pos_of_ne_zero hm)) (two_zpow_pos e)
      exact_mod_cast hcast
    have hnegative : decide (i < 0) = negative := by
      cases negative with
      | false => exact decide_eq_false (by rw [if_neg Bool.false_ne_true] at hsign; omega)
      | true => exact decide_eq_true (by rw [if_pos rfl] at hsign; omega)
    rw [hnegative]
    exact .inl hparts

/-- The text of a finite number is a decimal that reads as it, but for a minus before zero. -/
theorem spells_display {x : Float} {negative : Bool} {m : Nat} {e : Int}
    (h : parts x = .finite negative m e) :
    ∃ sign d, SpellsDecimal sign d (display x).toList ∧ (d.nearest sign = x ∨
      d.nearest sign = ofMagnitude false 0 ∧ x = ofMagnitude true 0) := by
  by_cases hsmall : ∃ i, IsInteger x i ∧ i.natAbs < 10 ^ 21
  · obtain ⟨i, hinteger, hi⟩ := hsmall
    refine ⟨decide (i < 0), ⟨i.natAbs, 0⟩, ⟨digitsText i.natAbs, ?_, spells_digitsText _⟩,
      nearest_of_integer hinteger⟩
    rw [display_of_integer hinteger hi, Json.toList_toString_int]
    exact signed_text _ _
  · have hother : ∀ i, IsInteger x i → 10 ^ 21 ≤ i.natAbs := fun i hi =>
      not_lt.1 fun hlt => hsmall ⟨i, hi, hlt⟩
    obtain ⟨d, hd, hnearest⟩ := spells_documentLiteral h
    rw [display_of_other hother]
    exact ⟨negative, d, hd, .inl hnearest⟩

theorem beq_self_of_parts {x : Float} (h : parts x ≠ .nan) : (x == x) = true := by
  rw [Float.beq_self_iff]
  rintro rfl
  exact h (by decide +kernel)

/-- What is printed for a number is read as that number. -/
theorem read_display {x : Float} (h : parts x ≠ .nan) :
    ∃ y, read (display x).toList = .ok (some y) ∧ (y == x) = true ∧
      (y = x ∨ parts x = .finite true 0 (-1074)) := by
  cases hx : parts x with
  | nan => exact absurd hx h
  | infinite negative =>
    have htext : SpellsInfinity negative (display x).toList := by
      rw [display_of_infinite hx]
      cases negative with
      | false => exact .bare
      | true => exact .minus
    refine ⟨x, ?_, beq_self_of_parts h, .inl rfl⟩
    rw [htext.read_eq, ofMagnitude_of_infinite hx]
  | finite negative m e =>
    obtain ⟨sign, d, hd, hnearest⟩ := spells_display hx
    refine ⟨_, hd.read_eq, ?_⟩
    rcases hnearest with hnearest | ⟨hnearest, hzero⟩
    · rw [hnearest]
      exact ⟨beq_self_of_parts h, .inl rfl⟩
    · rw [hnearest, ← hx, hzero]
      exact ⟨by decide +kernel, .inr (by decide +kernel)⟩

end Number

/-! ## The words -/

/-- A number becomes the text that is printed for it, also where its datatype is not known. -/
theorem toString_of_number {fuel : Nat} {self : Option Payload} {operand : Node} {m m' : Machine}
    {x : Float} {t : Datatype} {place : Origin} (ht : t = Datatype.number ∨ t = Datatype.any)
    (h : (engine fuel).compute self operand m = .ok ⟨.number x, t, place⟩ m') (o : Origin) :
    (engine (fuel + 1)).compute self (.builtin .toString operand o) m =
      .ok ⟨.text (Number.display x), Datatype.string, o⟩ m' := by
  show Semantics.builtin (engine fuel) self .toString operand o m = _
  refine (Run.bind_of_ok h _).trans ?_
  rcases ht with rfl | rfl
  · rfl
  · rfl

/-- Every number but NaN is read back from the text that is printed for it, up to the sign of
zero. That text is the whole number if it is one below 10^21 in size, and otherwise the literal,
which has the fewest digits that read back; it is a decimal in either case. Infinities are words.
So `toNumber` undoes `toString`. -/
theorem printed_numbers_read_back (x : Float) (hx : Number.parts x ≠ .nan) :
    (∃ y, Number.read (Number.display x).toList = .ok (some y) ∧ (y == x) = true ∧
      (y = x ∨ Number.parts x = .finite true 0 (-1074))) ∧
    (∀ i, Number.IsInteger x i → i.natAbs < 10 ^ 21 → Number.display x = toString i) ∧
    (∀ negative m e, Number.parts x = .finite negative m e →
      (∃ sign d, Number.SpellsDecimal sign d (Number.display x).toList) ∧
      ((∀ i, Number.IsInteger x i → 10 ^ 21 ≤ i.natAbs) → Number.display x = Number.literal x ∧
        ∃ d, Number.literal x =
            String.ofList ((if negative then ['-'] else []) ++ Number.decimalText d) ∧
          Number.IsShortest negative (m * 2 ^ e) x d)) ∧
    (∀ negative, Number.parts x = .infinite negative →
      Number.display x = if negative then "-Infinity" else "Infinity") ∧
    ∀ (fuel : Nat) (self : Option Payload) (operand : Node) (m m' : Machine) (t : Datatype)
      (place o o' : Origin), t = Datatype.number ∨ t = Datatype.any →
      (engine fuel).compute self operand m = .ok ⟨.number x, t, place⟩ m' →
      ∃ y, (engine (fuel + 2)).compute self (.builtin .toNumber (.builtin .toString operand o) o') m
        = .ok ⟨.number y, Datatype.number, o'⟩ m' ∧ (y == x) = true := by
  refine ⟨Number.read_display hx, fun i => Number.display_of_integer, ?_,
    fun negative => Number.display_of_infinite, ?_⟩
  · intro negative m e hparts
    obtain ⟨sign, d, hd, -⟩ := Number.spells_display hparts
    refine ⟨⟨sign, d, hd⟩, fun hother => ⟨?_, Number.literal_isShortest hparts⟩⟩
    rw [Number.display_of_other hother, Number.documentLiteral_of_finite hparts]
  · intro fuel self operand m m' t place o o' ht h
    obtain ⟨y, hread, hy, -⟩ := Number.read_display hx
    rw [← Text.chars_ofString] at hread
    exact ⟨y, toNumber_of_number (toString_of_number ht h o) o' hread, hy⟩

/-- The least size that is not printed as a whole number, with a minus. -/
theorem large_number_reads_back :
    Number.display (Number.ofMagnitude true 0x444b1ae4d6e2ef50) = "-1e+21" ∧
      ∃ y, Number.read "-1e+21".toList = .ok (some y) ∧
        (y == Number.ofMagnitude true 0x444b1ae4d6e2ef50) = true := by
  have hnumber : Number.parts (Number.ofMagnitude true 0x444b1ae4d6e2ef50) ≠ .nan := by
    decide +kernel
  have hdisplay : Number.display (Number.ofMagnitude true 0x444b1ae4d6e2ef50) = "-1e+21" := by
    decide +kernel
  obtain ⟨⟨y, hread, hy, -⟩, -⟩ := printed_numbers_read_back _ hnumber
  rw [hdisplay] at hread
  exact ⟨hdisplay, y, hread, hy⟩

end Mandate
