/-
  Mandate.Proofs.Numerals

  The texts of numbers, part by part: the digits before the point, those after it,
  and the exponent.

    * `Numeral.ofDecimal` is the layout of a decimal. It keeps the value
      (`Numeral.ofDecimal_value`) and is one that a document may hold
      (`Numeral.ofDecimal_wellFormed`).
    * `Json.readNumber_numeral`, `Json.readNumber_whole`: reading such a text at the
      front of another one gives the number back.
-/

import Mandate.Document.Json
import Mandate.Proofs.Rounding

namespace Mandate

namespace Number

/-! ## Digits -/

theorem digitValue?_of_isDigit {c : Char} (h : c.isDigit = true) :
    Text.digitValue? c = some (c.toNat - '0'.toNat) := by
  have hrange := Char.isDigit_iff_toNat.1 h
  have hsmall : c.toNat < 128 := Nat.lt_of_le_of_lt hrange.2 (by decide)
  have hdigit : '0' ≤ c ∧ c ≤ '9' := by
    rw [Char.le_def, Char.le_def, UInt32.le_iff_toNat_le, UInt32.le_iff_toNat_le]
    exact hrange
  rw [Text.digitValue?, if_pos hsmall, if_pos hdigit]

theorem foldl_digits {cs : List Char} (h : ∀ c ∈ cs, c.isDigit = true) (n : Nat) :
    cs.foldl (fun acc c => acc * 10 + (Text.digitValue? c).getD 0) n
      = Nat.ofDigitChars 10 cs n := by
  induction cs generalizing n with
  | nil => rfl
  | cons c cs ih =>
    rw [List.forall_mem_cons] at h
    rw [List.foldl_cons, ih h.2, Nat.ofDigitChars_cons, digitValue?_of_isDigit h.1,
      Option.getD_some, Nat.mul_comm]

theorem wholeOf_eq {cs : List Char} (h : ∀ c ∈ cs, c.isDigit = true) :
    wholeOf cs = Nat.ofDigitChars 10 cs 0 := foldl_digits h 0

theorem isDigit_of_mem_digitsText {n : Nat} {c : Char} (h : c ∈ digitsText n) :
    c.isDigit = true := Nat.isDigit_of_mem_toDigits (by decide) (by decide) h

theorem wholeOf_digitsText (n : Nat) : wholeOf (digitsText n) = n := by
  rw [wholeOf_eq fun c hc => isDigit_of_mem_digitsText hc]
  exact Nat.ofDigitChars_ten_toDigits

/-- A positive number is written without zeros before it. -/
theorem head?_digitsText {n : Nat} (hn : n ≠ 0) : (digitsText n).head? ≠ some '0' := by
  induction n using Nat.strongRecOn with
  | ind n ih =>
    rw [digitsText, Nat.toDigits_eq_if (by decide)]
    split
    · next hlt =>
      have key : ∀ n < 10, n ≠ 0 → [n.digitChar].head? ≠ some '0' := by decide
      exact key n hlt hn
    · next hge =>
      have hhead := ih (n / 10) (by omega) (by omega)
      rw [List.head?_append_of_ne_nil _ Nat.toDigits_ne_nil]
      exact hhead

/-! ## Layouts -/

/-- The parts of the text of a decimal. -/
structure Numeral where
  /-- The digits before the point. -/
  whole : List Char
  /-- The digits after the point; there is no point without them. -/
  fraction : List Char
  exponent? : Option Int

namespace Numeral

/-- The point with the digits after it. -/
def pointText (fraction : List Char) : List Char :=
  if fraction.isEmpty then [] else '.' :: fraction

/-- The text of an exponent, if there is one. -/
def powerText (exponent? : Option Int) : List Char :=
  exponent?.elim [] fun e => 'e' :: exponentText e

/-- The text of a numeral. -/
def text (n : Numeral) : List Char := n.whole ++ (pointText n.fraction ++ powerText n.exponent?)

/-- The decimal that a numeral stands for. -/
def decimal (n : Numeral) : Decimal :=
  ⟨wholeOf (n.whole ++ n.fraction), n.exponent?.getD 0 - n.fraction.length⟩

/-- Digits with no zero before them, as the whole part of a number has them. -/
structure IsWhole (ds : List Char) : Prop where
  digits : ∀ c ∈ ds, c.isDigit = true
  nonempty : ds ≠ []
  leading : ds.head? = some '0' → ds = ['0']

/-- A numeral that a document may hold for a number that is not whole. -/
structure WellFormed (n : Numeral) : Prop where
  whole : IsWhole n.whole
  fraction : ∀ c ∈ n.fraction, c.isDigit = true
  /-- With neither point nor exponent it would be a whole number. -/
  marked : n.fraction = [] → n.exponent? ≠ none

/-- How a decimal is laid out. -/
def ofDecimal (d : Decimal) : Numeral :=
  let ds := digitsText d.digits
  let point : Int := ds.length + d.exponent
  if d.digits = 0 then ⟨['0'], ['0'], none⟩
  else if -4 < point ∧ point ≤ 16 then
    if 0 ≤ d.exponent then ⟨ds ++ List.replicate d.exponent.toNat '0', ['0'], none⟩
    else if 0 < point then ⟨ds.take point.toNat, ds.drop point.toNat, none⟩
    else ⟨['0'], List.replicate (-point).toNat '0' ++ ds, none⟩
  else ⟨ds.take 1, ds.drop 1, some (point - 1)⟩

theorem decimalText_eq (d : Decimal) : decimalText d = (ofDecimal d).text := by
  unfold decimalText ofDecimal
  dsimp only
  split
  · rfl
  split
  · split
    · simp [text, pointText, powerText]
    split
    · next hexponent hpoint =>
      have hdrop : (digitsText d.digits).drop
          ((digitsText d.digits).length + d.exponent).toNat ≠ [] := by
        rw [ne_eq, List.drop_eq_nil_iff]
        omega
      simp [text, pointText, powerText, hdrop]
    · next hexponent hpoint =>
      have hdigits : digitsText d.digits ≠ [] := Nat.toDigits_ne_nil
      simp [text, pointText, powerText, hdigits]
  · simp [text, pointText, powerText]

theorem IsWhole.of_head {ds : List Char} (hdigits : ∀ c ∈ ds, c.isDigit = true)
    (hhead : ∀ c, ds.head? = some c → c ≠ '0') (hne : ds ≠ []) : IsWhole ds :=
  ⟨hdigits, hne, fun hzero => absurd rfl (hhead '0' hzero)⟩

theorem isDigit_of_mem_zero : ∀ c ∈ ['0'], c.isDigit = true := by
  intro c hc
  rw [List.mem_singleton.1 hc]
  rfl

theorem isWhole_zero : IsWhole ['0'] :=
  ⟨isDigit_of_mem_zero, List.cons_ne_nil _ _, fun _ => rfl⟩

theorem isDigit_of_mem_zeros {n : Nat} {c : Char} (h : c ∈ List.replicate n '0') :
    c.isDigit = true := by
  rw [List.eq_of_mem_replicate h]
  rfl

/-- The first digits of a positive number, with any digits after them. -/
theorem isWhole_take {n k : Nat} (hn : n ≠ 0) (hk : 0 < k) {ds : List Char}
    (hds : ∀ c ∈ ds, c.isDigit = true) : IsWhole ((digitsText n).take k ++ ds) := by
  have hne : (digitsText n).take k ≠ [] := by
    rw [ne_eq, List.take_eq_nil_iff]
    rintro (hzero | hnil)
    · omega
    · exact absurd hnil Nat.toDigits_ne_nil
  refine .of_head ?_ ?_ (List.append_ne_nil_of_left_ne_nil hne ds)
  · intro c hc
    rcases List.mem_append.1 hc with hc | hc
    · exact isDigit_of_mem_digitsText (List.mem_of_mem_take hc)
    · exact hds c hc
  · rintro c hc rfl
    rw [List.head?_append_of_ne_nil _ hne, List.head?_take, if_neg hk.ne'] at hc
    exact head?_digitsText hn hc

/-- Every decimal is laid out as a number that is not whole. -/
theorem ofDecimal_wellFormed (d : Decimal) : (ofDecimal d).WellFormed := by
  have hdrop : ∀ k, ∀ c ∈ (digitsText d.digits).drop k, c.isDigit = true := fun k c hc =>
    isDigit_of_mem_digitsText (List.mem_of_mem_drop hc)
  unfold ofDecimal
  dsimp only
  split
  · exact ⟨isWhole_zero, isDigit_of_mem_zero, fun h => by cases h⟩
  next hd =>
  split
  · split
    · have hwhole : IsWhole ((digitsText d.digits).take (digitsText d.digits).length
          ++ List.replicate d.exponent.toNat '0') :=
        isWhole_take hd Nat.length_toDigits_pos fun c hc => isDigit_of_mem_zeros hc
      rw [List.take_length] at hwhole
      exact ⟨hwhole, isDigit_of_mem_zero, fun h => by cases h⟩
    next hexponent =>
    split
    · next hpoint =>
      have hwhole := isWhole_take hd (k := ((digitsText d.digits).length + d.exponent).toNat)
        (by omega) (List.forall_mem_nil _)
      rw [List.append_nil] at hwhole
      refine ⟨hwhole, hdrop _, fun h => ?_⟩
      have hlength := List.drop_eq_nil_iff.1 h
      omega
    · refine ⟨isWhole_zero, ?_, fun h => ?_⟩
      · intro c hc
        rcases List.mem_append.1 hc with hc | hc
        · exact isDigit_of_mem_zeros hc
        · exact isDigit_of_mem_digitsText hc
      · exact absurd (List.append_eq_nil_iff.1 h).2 Nat.toDigits_ne_nil
  · have hwhole := isWhole_take hd Nat.one_pos (List.forall_mem_nil _)
    rw [List.append_nil] at hwhole
    exact ⟨hwhole, hdrop 1, fun _ => Option.some_ne_none _⟩

/-! ## Values of layouts -/

theorem wholeOf_zeros_append (k n : Nat) :
    wholeOf (List.replicate k '0' ++ digitsText n) = n := by
  have hdigits : ∀ c ∈ List.replicate k '0' ++ digitsText n, c.isDigit = true := by
    intro c hc
    rcases List.mem_append.1 hc with hc | hc
    · exact isDigit_of_mem_zeros hc
    · exact isDigit_of_mem_digitsText hc
  rw [wholeOf_eq hdigits, Nat.ofDigitChars_append, Nat.ofDigitChars_replicate_zero, Nat.mul_zero]
  exact Nat.ofDigitChars_ten_toDigits

theorem wholeOf_append_zeros (k n : Nat) :
    wholeOf (digitsText n ++ List.replicate k '0') = 10 ^ k * n := by
  have hdigits : ∀ c ∈ digitsText n ++ List.replicate k '0', c.isDigit = true := by
    intro c hc
    rcases List.mem_append.1 hc with hc | hc
    · exact isDigit_of_mem_digitsText hc
    · exact isDigit_of_mem_zeros hc
  have hn : Nat.ofDigitChars 10 (digitsText n) 0 = n := Nat.ofDigitChars_ten_toDigits
  rw [wholeOf_eq hdigits, Nat.ofDigitChars_append, Nat.ofDigitChars_replicate_zero, hn]

/-- A layout has the value of the decimal. -/
theorem ofDecimal_value (d : Decimal) : (ofDecimal d).decimal.value = d.value := by
  have hlength : 0 < (digitsText d.digits).length := Nat.length_toDigits_pos
  unfold ofDecimal
  dsimp only
  split
  · next hd =>
    rw [Decimal.value, Decimal.value, hd]
    simp [decimal, wholeOf, Text.digitValue?]
  split
  · split
    · next hexponent =>
      -- The zeros up to the point and the one after it are digits that the decimal has not.
      have hzeros : digitsText d.digits ++ List.replicate d.exponent.toNat '0' ++ ['0']
          = digitsText d.digits ++ List.replicate (d.exponent.toNat + 1) '0' := by
        rw [List.append_assoc, List.replicate_succ']
      have hpow : (10 : ℚ) ^ d.exponent = 10 ^ d.exponent.toNat := by
        conv_lhs => rw [← Int.toNat_of_nonneg hexponent]
        rw [zpow_natCast]
      rw [Decimal.value, Decimal.value, decimal]
      dsimp only
      rw [hzeros, wholeOf_append_zeros, hpow]
      push_cast
      rw [pow_succ]
      norm_num
      ring
    next hexponent =>
    split
    · next hpoint =>
      have hsame : decimal ⟨(digitsText d.digits).take
            ((digitsText d.digits).length + d.exponent).toNat,
          (digitsText d.digits).drop ((digitsText d.digits).length + d.exponent).toNat, none⟩
          = d := by
        rw [decimal, List.take_append_drop, wholeOf_digitsText, List.length_drop]
        exact congrArg (Decimal.mk d.digits) (by rw [Option.getD_none]; omega)
      rw [hsame]
    · next hpoint =>
      have hsame : decimal ⟨['0'], List.replicate
          (-((digitsText d.digits).length + d.exponent)).toNat '0' ++ digitsText d.digits, none⟩
          = d := by
        rw [decimal]
        have hdigits := wholeOf_zeros_append
          ((-((digitsText d.digits).length + d.exponent)).toNat + 1) d.digits
        rw [List.replicate_succ, List.cons_append] at hdigits
        rw [List.singleton_append, hdigits, List.length_append, List.length_replicate]
        exact congrArg (Decimal.mk d.digits) (by rw [Option.getD_none]; omega)
      rw [hsame]
  · have hsame : decimal ⟨(digitsText d.digits).take 1, (digitsText d.digits).drop 1,
        some ((digitsText d.digits).length + d.exponent - 1)⟩ = d := by
      rw [decimal, List.take_append_drop, wholeOf_digitsText, List.length_drop]
      exact congrArg (Decimal.mk d.digits) (by rw [Option.getD_some]; omega)
    rw [hsame]

end Numeral

end Number

/-! ## Reading numbers -/

namespace Json

open Number

/-- A number is read part by part. -/
theorem readNumber_eq {negative : Bool} {cs whole fraction rest rest' after : List Char}
    {exponent? : Option Int} (hwhole : wholePart cs = (whole, rest)) (hne : whole ≠ [])
    (hfraction : fractionPart rest = (fraction, rest'))
    (hexponent : exponentPart rest' = (exponent?, after)) :
    readNumber negative cs =
      if fraction = [] ∧ exponent? = none then
        if digitLimit < whole.length then .error .tooManyDigits
        else .ok (.int (if negative then -(wholeOf whole : Int) else wholeOf whole), after)
      else
        .ok (.number ((Numeral.mk whole fraction exponent?).decimal.nearest negative), after) := by
  unfold readNumber
  rw [hwhole]
  dsimp only
  rw [if_neg (by rwa [List.isEmpty_iff]), hfraction]
  dsimp only
  rw [hexponent]
  dsimp only
  simp only [Bool.and_eq_true, List.isEmpty_iff, Option.isNone_iff_eq_none]
  rfl

/-! ### Parts -/

/-- What does not start with a digit. -/
def NoDigit (rest : List Char) : Prop := ∀ c, rest.head? = some c → c.isDigit = false

theorem spanAscii_append {ds rest : List Char} (hds : ∀ c ∈ ds, c.isDigit = true)
    (hrest : NoDigit rest) : spanAscii (ds ++ rest) = (ds, rest) := by
  have htake : rest.takeWhile Char.isDigit = [] := by
    cases rest with
    | nil => rfl
    | cons c cs => rw [List.takeWhile_cons_of_neg (by rw [hrest c rfl]; decide)]
  have hdrop : rest.dropWhile Char.isDigit = rest := by
    cases rest with
    | nil => rfl
    | cons c cs => rw [List.dropWhile_cons_of_neg (by rw [hrest c rfl]; decide)]
  rw [spanAscii, List.takeWhile_append_of_pos hds, List.dropWhile_append_of_pos hds, htake, hdrop,
    List.append_nil]

theorem wholePart_append {ds rest : List Char} (hds : Numeral.IsWhole ds) (hrest : NoDigit rest) :
    wholePart (ds ++ rest) = (ds, rest) := by
  obtain ⟨c, cs, rfl⟩ := List.exists_cons_of_ne_nil hds.nonempty
  by_cases hc : c = '0'
  · subst hc
    have hsingle := hds.leading rfl
    rw [hsingle]
    rfl
  · have hspan := spanAscii_append hds.digits hrest
    rw [List.cons_append] at hspan ⊢
    unfold wholePart
    split
    · next heq =>
      cases heq
      exact absurd rfl hc
    · exact hspan

theorem fractionPart_append {ds rest : List Char} (hds : ∀ c ∈ ds, c.isDigit = true)
    (hrest : NoDigit rest) (hpoint : rest.head? ≠ some '.') :
    fractionPart (Numeral.pointText ds ++ rest) = (ds, rest) := by
  cases ds with
  | nil =>
    show fractionPart rest = ([], rest)
    unfold fractionPart
    split
    · exact absurd rfl hpoint
    · rfl
  | cons d ds =>
    have hpoint : fractionPart ('.' :: (d :: ds ++ rest))
        = if (spanAscii (d :: ds ++ rest)).1.isEmpty then ([], '.' :: (d :: ds ++ rest))
          else spanAscii (d :: ds ++ rest) := rfl
    rw [spanAscii_append hds hrest] at hpoint
    exact hpoint

theorem isDigit_of_mem_exponent {n : Nat} {c : Char}
    (h : c ∈ if (digitsText n).length < 2 then '0' :: digitsText n else digitsText n) :
    c.isDigit = true := by
  split at h
  · rcases List.mem_cons.1 h with rfl | h
    · rfl
    · exact isDigit_of_mem_digitsText h
  · exact isDigit_of_mem_digitsText h

/-- A zero before the digits of an exponent changes nothing. -/
theorem wholeOf_exponent (n : Nat) :
    wholeOf (if (digitsText n).length < 2 then '0' :: digitsText n else digitsText n) = n := by
  split
  · exact Numeral.wholeOf_zeros_append 1 n
  · exact wholeOf_digitsText n

theorem tail_exponentText_ne_nil (e : Int) : (exponentText e).tail ≠ [] := by
  show (if (digitsText e.natAbs).length < 2 then '0' :: digitsText e.natAbs
    else digitsText e.natAbs) ≠ []
  split
  · exact List.cons_ne_nil _ _
  · exact Nat.toDigits_ne_nil

theorem signOf_exponentText (e : Int) (rest : List Char) :
    signOf (exponentText e ++ rest) = (decide (e < 0), (exponentText e).tail ++ rest) := by
  unfold exponentText
  dsimp only
  split
  · next he =>
    rw [decide_eq_true he]
    rfl
  · next he =>
    rw [decide_eq_false he]
    rfl

theorem exponentPart_append {exponent? : Option Int} {rest : List Char} (hrest : NoDigit rest)
    (he : rest.head? ≠ some 'e') (hE : rest.head? ≠ some 'E') :
    exponentPart (Numeral.powerText exponent? ++ rest) = (exponent?, rest) := by
  cases exponent? with
  | none =>
    show exponentPart rest = (none, rest)
    cases rest with
    | nil => rfl
    | cons c cs =>
      have hc : ¬(c = 'e' || c = 'E') = true := by
        rw [Bool.or_eq_true, decide_eq_true_eq, decide_eq_true_eq]
        rintro (rfl | rfl)
        · exact he rfl
        · exact hE rfl
      exact if_neg hc
  | some e =>
    have hpart : exponentPart ('e' :: (exponentText e ++ rest))
        = if (spanAscii (signOf (exponentText e ++ rest)).2).1.isEmpty
          then (none, 'e' :: (exponentText e ++ rest))
          else (some (if (signOf (exponentText e ++ rest)).1
              then -(wholeOf (spanAscii (signOf (exponentText e ++ rest)).2).1 : Int)
              else wholeOf (spanAscii (signOf (exponentText e ++ rest)).2).1),
            (spanAscii (signOf (exponentText e ++ rest)).2).2) := rfl
    have hspan : spanAscii ((exponentText e).tail ++ rest) = ((exponentText e).tail, rest) :=
      spanAscii_append (fun c hc => isDigit_of_mem_exponent hc) hrest
    have hvalue : wholeOf (exponentText e).tail = e.natAbs := wholeOf_exponent e.natAbs
    have hne : (exponentText e).tail.isEmpty = false :=
      List.isEmpty_eq_false_iff.2 (tail_exponentText_ne_nil e)
    rw [signOf_exponentText, hspan, hvalue, hne] at hpart
    show exponentPart ('e' :: (exponentText e ++ rest)) = (some e, rest)
    rw [hpart, if_neg Bool.false_ne_true]
    simp only [decide_eq_true_eq, Prod.mk.injEq, Option.some.injEq, and_true]
    split
    · omega
    · omega

/-! ### Whole texts -/

/-- What may follow a value in a document: nothing, a comma or a line end. -/
def Follows (rest : List Char) : Prop :=
  ∀ c, rest.head? = some c → c = ',' ∨ c = '\n'

namespace Follows

variable {rest : List Char}

theorem nil : Follows [] := fun _ h => by cases h

theorem comma (rest : List Char) : Follows (',' :: rest) := fun c h => by
  cases h
  exact .inl rfl

theorem line (rest : List Char) : Follows ('\n' :: rest) := fun c h => by
  cases h
  exact .inr rfl

theorem noDigit (h : Follows rest) : NoDigit rest := by
  intro c hc
  rcases h c hc with rfl | rfl
  · rfl
  · rfl

theorem head_ne (h : Follows rest) {c : Char} (hcomma : c ≠ ',') (hline : c ≠ '\n') :
    rest.head? ≠ some c := by
  intro hc
  rcases h c hc with rfl | rfl
  · exact hcomma rfl
  · exact hline rfl

end Follows

theorem noDigit_powerText {exponent? : Option Int} {rest : List Char} (h : Follows rest) :
    NoDigit (Numeral.powerText exponent? ++ rest) := by
  cases exponent? with
  | none => exact h.noDigit
  | some e =>
    intro c hc
    cases hc
    rfl

theorem head_powerText_ne {exponent? : Option Int} {rest : List Char} (h : Follows rest) :
    (Numeral.powerText exponent? ++ rest).head? ≠ some '.' := by
  cases exponent? with
  | none => exact h.head_ne (by decide) (by decide)
  | some e => exact fun hc => by cases hc

theorem noDigit_pointText {ds : List Char} {exponent? : Option Int} {rest : List Char}
    (h : Follows rest) :
    NoDigit (Numeral.pointText ds ++ (Numeral.powerText exponent? ++ rest)) := by
  cases ds with
  | nil => exact noDigit_powerText h
  | cons d ds =>
    intro c hc
    cases hc
    rfl

/-- A numeral is read as the number nearest to it. -/
theorem readNumber_numeral {n : Numeral} (hn : n.WellFormed) {rest : List Char}
    (hrest : Follows rest) (negative : Bool) :
    readNumber negative (n.text ++ rest)
      = .ok (.number (n.decimal.nearest negative), rest) := by
  have htext : n.text ++ rest = n.whole ++ (Numeral.pointText n.fraction
      ++ (Numeral.powerText n.exponent? ++ rest)) := by
    rw [Numeral.text, List.append_assoc, List.append_assoc]
  rw [htext, readNumber_eq (wholePart_append hn.whole (noDigit_pointText hrest)) hn.whole.nonempty
    (fractionPart_append hn.fraction (noDigit_powerText hrest) (head_powerText_ne hrest))
    (exponentPart_append hrest.noDigit (hrest.head_ne (by decide) (by decide))
      (hrest.head_ne (by decide) (by decide)))]
  exact if_neg fun h => hn.marked h.1 h.2

/-- The text of a decimal is read as the number nearest to it. -/
theorem readNumber_decimalText (d : Decimal) {rest : List Char} (hrest : Follows rest)
    (negative : Bool) :
    readNumber negative (decimalText d ++ rest) = .ok (.number (d.nearest negative), rest) := by
  rw [Numeral.decimalText_eq, readNumber_numeral (Numeral.ofDecimal_wellFormed d) hrest,
    Decimal.nearest, Decimal.nearest, Decimal.nearestBits_congr (Numeral.ofDecimal_value d)]

theorem isWhole_digitsText (n : Nat) : Numeral.IsWhole (digitsText n) := by
  by_cases hn : n = 0
  · subst hn
    exact Numeral.isWhole_zero
  · exact .of_head (fun c hc => isDigit_of_mem_digitsText hc)
      (fun c hc => fun h => head?_digitsText hn (h ▸ hc)) Nat.toDigits_ne_nil

/-- The digits of a whole number are read as that number, unless there are too many. -/
theorem readNumber_whole {n : Nat} (hn : n < 10 ^ digitLimit) {rest : List Char}
    (hrest : Follows rest) (negative : Bool) :
    readNumber negative (digitsText n ++ rest)
      = .ok (.int (if negative then -(n : Int) else n), rest) := by
  have hlength : ¬digitLimit < (digitsText n).length := by
    rw [Nat.not_lt]
    exact (Nat.length_toDigits_le_iff (by decide) (by decide)).2 hn
  have hfraction : fractionPart rest = ([], rest) :=
    fractionPart_append (List.forall_mem_nil _) hrest.noDigit
      (hrest.head_ne (by decide) (by decide))
  have hexponent : exponentPart (Numeral.powerText none ++ rest) = (none, rest) :=
    exponentPart_append hrest.noDigit (hrest.head_ne (by decide) (by decide))
      (hrest.head_ne (by decide) (by decide))
  rw [readNumber_eq (wholePart_append (isWhole_digitsText n) hrest.noDigit) Nat.toDigits_ne_nil
    hfraction hexponent, if_pos ⟨rfl, rfl⟩, if_neg hlength, wholeOf_digitsText]

end Json

end Mandate
