/-
  Mandate.Proofs.NumberGrammar

  Which texts are read as numbers, and as which.

    * `Text.Strips`: a text without the blanks around it, which is what is looked at.
    * `Prefixed`: `0x`, `0o` or `0b` in either case, and digits of that base.
    * `SpellsInfinity`, `SpellsDecimal`: an optional sign, and `Infinity` or a decimal
      with an optional exponent. The digits may be of any script.
    * `prefixed?_eq_some_iff`, `decimal?_eq_some_iff`: each reader accepts just its
      form, and no text has both (`Prefixed.decimal?_eq`).
    * `reads_its_grammar`: so a text is read as a number just if it has one of the
      forms, and then as the nearest number to what it stands for.
-/

import Mandate.Number.Reading
import Mandate.Proofs.NearestNumbers

namespace Mandate

/-! ## Blanks around a text -/

namespace Text

/-- What is left of a text without the blanks around it. -/
structure Strips (text body : List Char) : Prop where
  around : ∃ before after, text = before ++ (body ++ after) ∧
    (∀ c ∈ before, isBlank c = true) ∧ ∀ c ∈ after, isBlank c = true
  first : ∀ c, body.head? = some c → isBlank c = false
  last : ∀ c, body.getLast? = some c → isBlank c = false

section Trimming

variable {p : Char → Bool}

/-- Dropping stops at the first character that is not of the sort. -/
theorem dropWhile_append_of_head {before rest : List Char} (hbefore : ∀ c ∈ before, p c = true)
    (hrest : ∀ c, rest.head? = some c → p c = false) : (before ++ rest).dropWhile p = rest := by
  rw [List.dropWhile_append_of_pos hbefore]
  cases rest with
  | nil => rfl
  | cons c cs => rw [List.dropWhile_cons_of_neg (by rw [hrest c rfl]; decide)]

theorem head?_dropWhile_eq_some {cs : List Char} {c : Char} (h : (cs.dropWhile p).head? = some c) :
    p c = false := by
  have hhead := List.head?_dropWhile_not p cs
  rw [h] at hhead
  simpa using hhead

/-- Taking the blanks away leaves what is between them. -/
theorem strips_trim (text : List Char) : Strips text (trim text) := by
  have hfront := List.takeWhile_append_dropWhile (p := isBlank) (l := text)
  have hback := List.takeWhile_append_dropWhile (p := isBlank) (l := (text.dropWhile isBlank).reverse)
  have hbody : text.dropWhile isBlank
      = trim text ++ ((text.dropWhile isBlank).reverse.takeWhile isBlank).reverse := by
    have hreverse := congrArg List.reverse hback
    rw [List.reverse_append, List.reverse_reverse] at hreverse
    exact hreverse.symm
  refine ⟨⟨text.takeWhile isBlank, ((text.dropWhile isBlank).reverse.takeWhile isBlank).reverse,
    ?_, ?_, ?_⟩, ?_, ?_⟩
  · rw [← hbody, hfront]
  · exact List.all_eq_true.1 List.all_takeWhile
  · intro c hc
    exact List.all_eq_true.1 List.all_takeWhile c (List.mem_reverse.1 hc)
  · intro c hc
    have hhead : (text.dropWhile isBlank).head? = some c := by
      rw [hbody, List.head?_append, hc]
      rfl
    exact head?_dropWhile_eq_some hhead
  · intro c hc
    rw [trim, trimWhile, List.getLast?_reverse] at hc
    exact head?_dropWhile_eq_some hc

/-- There is one way to take the blanks away. -/
theorem Strips.eq_trim {text body : List Char} (h : Strips text body) : trim text = body := by
  obtain ⟨⟨before, after, rfl, hbefore, hafter⟩, hfirst, hlast⟩ := h
  unfold trim trimWhile
  by_cases hbody : body = []
  · subst hbody
    have hall : ∀ c ∈ before ++ after, isBlank c = true := fun c hc =>
      (List.mem_append.1 hc).elim (hbefore c) (hafter c)
    rw [List.nil_append, List.dropWhile_eq_nil_iff.2 hall]
    rfl
  · have hhead : ∀ c, (body ++ after).head? = some c → isBlank c = false := by
      intro c hc
      rw [List.head?_append_of_ne_nil _ hbody] at hc
      exact hfirst c hc
    have hback : ∀ c, body.reverse.head? = some c → isBlank c = false := by
      intro c hc
      rw [List.head?_reverse] at hc
      exact hlast c hc
    rw [dropWhile_append_of_head hbefore hhead, List.reverse_append,
      dropWhile_append_of_head (fun c hc => hafter c (List.mem_reverse.1 hc)) hback,
      List.reverse_reverse]

theorem strips_iff {text body : List Char} : Strips text body ↔ body = trim text :=
  ⟨fun h => h.eq_trim.symm, fun h => h ▸ strips_trim text⟩

end Trimming

end Text

namespace Number

/-! ## Digits by their places -/

/-- The number that digits of a base stand for, by their places. -/
def positional (base : Nat) (digits : List Nat) : Nat := Nat.ofDigits base digits.reverse

/-- Reading digits from the front adds them up by their places. -/
theorem foldl_eq_positional (base : Nat) (digits : List Nat) :
    digits.foldl (fun acc d => acc * base + d) 0 = positional base digits := by
  induction digits using List.reverseRecOn with
  | nil => rfl
  | append_singleton digits d ih =>
    rw [List.foldl_append, List.foldl_cons, List.foldl_nil, ih, positional, positional,
      List.reverse_append, List.reverse_singleton, List.singleton_append, Nat.ofDigits_cons,
      Nat.mul_comm, Nat.add_comm]

/-! ## Prefixed numbers -/

/-- The letters that may follow the zero, with their bases. -/
def prefixLetters : List (Char × Nat) :=
  [('x', 16), ('X', 16), ('o', 8), ('O', 8), ('b', 2), ('B', 2)]

/-- A character is the digit of a base with this value. -/
def IsDigitOf (base : Nat) (c : Char) (d : Nat) : Prop :=
  d < base ∧ ("0123456789abcdef".toList[d]? = some c ∨ "0123456789ABCDEF".toList[d]? = some c)

/-- A whole number written with a prefix: its base and its digits. -/
inductive Prefixed (base : Nat) (digits : List Nat) : List Char → Prop where
  | mk {letter : Char} {cs : List Char} (hletter : (letter, base) ∈ prefixLetters)
      (hdigits : List.Forall₂ (IsDigitOf base) cs digits) (hne : digits ≠ []) :
      Prefixed base digits ('0' :: letter :: cs)

theorem baseOf_eq_some_iff {c : Char} {base : Nat} :
    baseOf c = some base ↔ (c, base) ∈ prefixLetters := by
  unfold baseOf prefixLetters
  simp only [List.mem_cons, Prod.mk.injEq, List.not_mem_nil, or_false, Bool.or_eq_true,
    decide_eq_true_eq]
  constructor
  · intro h
    split at h
    · next hc => cases h; rcases hc with hc | hc <;> simp [hc]
    · split at h
      · next hc => cases h; rcases hc with hc | hc <;> simp [hc]
      · split at h
        · next hc => cases h; rcases hc with hc | hc <;> simp [hc]
        · cases h
  · rintro (⟨rfl, rfl⟩ | ⟨rfl, rfl⟩ | ⟨rfl, rfl⟩ | ⟨rfl, rfl⟩ | ⟨rfl, rfl⟩ | ⟨rfl, rfl⟩) <;> rfl

theorem base_le_of_mem {c : Char} {base : Nat} (h : (c, base) ∈ prefixLetters) : base ≤ 16 := by
  have hall : prefixLetters.all (fun l => l.2 ≤ 16) = true := rfl
  exact of_decide_eq_true (List.all_eq_true.1 hall _ h)

/-- The value of a digit of the largest base. -/
theorem digitOf_sixteen {c : Char} {d : Nat} : digitOf 16 c = some d ↔ IsDigitOf 16 c d := by
  have hlower : ∀ d < 16, ("0123456789abcdef".toList[d]?).bind (digitOf 16) = some d := by decide
  have hupper : ∀ d < 16, ("0123456789ABCDEF".toList[d]?).bind (digitOf 16) = some d := by decide
  constructor
  · intro h
    unfold digitOf at h
    simp only [Option.filter_eq_some_iff, decide_eq_true_eq, Char.le_def,
      UInt32.le_iff_toNat_le] at h
    obtain ⟨hvalue, hd⟩ := h
    have hchar : Char.ofNat c.toNat = c := Char.ofNat_toNat c
    -- The digits of each range stand side by side.
    have hnine : ∀ k < 10, "0123456789abcdef".toList[k]? = some (Char.ofNat (48 + k)) := by decide
    have hsmall : ∀ k < 6, "0123456789abcdef".toList[k + 10]? = some (Char.ofNat (97 + k)) := by
      decide
    have hlarge : ∀ k < 6, "0123456789ABCDEF".toList[k + 10]? = some (Char.ofNat (65 + k)) := by
      decide
    split at hvalue
    · next hc =>
      cases hvalue
      have hrange : 48 ≤ c.toNat ∧ c.toNat ≤ 57 := hc
      have hk := hnine (c.toNat - 48) (by omega)
      rw [Nat.add_sub_cancel' hrange.1, hchar] at hk
      exact ⟨hd, .inl hk⟩
    split at hvalue
    · next hc =>
      cases hvalue
      have hrange : 97 ≤ c.toNat ∧ c.toNat ≤ 102 := hc
      have hk := hsmall (c.toNat - 97) (by omega)
      rw [Nat.add_sub_cancel' hrange.1, hchar] at hk
      exact ⟨hd, .inl hk⟩
    split at hvalue
    · next hc =>
      cases hvalue
      have hrange : 65 ≤ c.toNat ∧ c.toNat ≤ 70 := hc
      have hk := hlarge (c.toNat - 65) (by omega)
      rw [Nat.add_sub_cancel' hrange.1, hchar] at hk
      exact ⟨hd, .inr hk⟩
    · cases hvalue
  · rintro ⟨hd, hc | hc⟩
    · have hvalue := hlower d hd
      rwa [hc, Option.bind_some] at hvalue
    · have hvalue := hupper d hd
      rwa [hc, Option.bind_some] at hvalue

theorem digitOf_eq_some_iff {base : Nat} (hbase : base ≤ 16) {c : Char} {d : Nat} :
    digitOf base c = some d ↔ IsDigitOf base c d := by
  have hfilter : digitOf base c = some d ↔ d < base ∧ digitOf 16 c = some d := by
    unfold digitOf
    simp only [Option.filter_eq_some_iff, decide_eq_true_eq]
    constructor
    · rintro ⟨hvalue, hd⟩
      exact ⟨hd, hvalue, hd.trans_le hbase⟩
    · rintro ⟨hd, hvalue, -⟩
      exact ⟨hvalue, hd⟩
  rw [hfilter, digitOf_sixteen]
  exact ⟨fun h => ⟨h.1, h.2.2⟩, fun h => ⟨h.1, h.1.trans_le hbase, h.2⟩⟩

theorem valueOf_eq_some_iff {base : Nat} {digit : Char → Option Nat} {acc n : Nat}
    {cs : List Char} :
    valueOf base digit acc cs = some n ↔
      ∃ ds, List.Forall₂ (fun c d => digit c = some d) cs ds ∧
        ds.foldl (fun acc d => acc * base + d) acc = n := by
  induction cs generalizing acc with
  | nil =>
    constructor
    · intro h
      exact ⟨[], .nil, Option.some.inj h⟩
    · rintro ⟨ds, hds, hn⟩
      cases hds
      exact congrArg some hn
  | cons c cs ih =>
    unfold valueOf
    constructor
    · intro h
      cases hc : digit c with
      | none =>
        rw [hc] at h
        cases h
      | some d =>
        rw [hc] at h
        obtain ⟨ds, hds, hn⟩ := ih.1 h
        exact ⟨d :: ds, .cons hc hds, hn⟩
    · rintro ⟨ds, hds, hn⟩
      cases hds with
      | cons hc hds =>
        rw [hc]
        exact ih.2 ⟨_, hds, hn⟩

/-- A text is read as a prefixed number just if it is one. -/
theorem prefixed?_eq_some_iff {body : List Char} {n : Nat} :
    prefixed? body = some n ↔ ∃ base ds, Prefixed base ds body ∧ positional base ds = n := by
  have hvalue {base : Nat} (hbase : base ≤ 16) {cs : List Char} :
      valueOf base (digitOf base) 0 cs = some n ↔
        ∃ ds, List.Forall₂ (IsDigitOf base) cs ds ∧ positional base ds = n := by
    simp only [valueOf_eq_some_iff, digitOf_eq_some_iff hbase, foldl_eq_positional]
  constructor
  · intro h
    unfold prefixed? at h
    split at h
    · next letter cs =>
      split at h
      · next base hletter =>
        split at h
        · cases h
        · next hne =>
          have hmem := baseOf_eq_some_iff.1 hletter
          obtain ⟨ds, hds, hn⟩ := (hvalue (base_le_of_mem hmem)).1 h
          refine ⟨base, ds, .mk hmem hds ?_, hn⟩
          rintro rfl
          cases hds
          exact hne rfl
      · cases h
    · cases h
  · rintro ⟨base, ds, ⟨hmem, hds, hne⟩, hn⟩
    next letter cs =>
    have hcs : ¬cs.isEmpty = true := by
      rw [List.isEmpty_iff]
      rintro rfl
      cases hds
      exact hne rfl
    rw [prefixed?, baseOf_eq_some_iff.2 hmem]
    dsimp only
    rw [if_neg hcs]
    exact (hvalue (base_le_of_mem hmem)).2 ⟨ds, hds, hn⟩

/-! ## Decimals -/

/-- A text with an optional sign in front of it. -/
inductive Signed (body : List Char) : Bool → List Char → Prop where
  | bare : Signed body false body
  | plus : Signed body false ('+' :: body)
  | minus : Signed body true ('-' :: body)

/-- Digits of any script, with their values. -/
def Digits (cs : List Char) (ds : List Nat) : Prop :=
  List.Forall₂ (fun c d => Text.digitValue? c = some d) cs ds

/-- Digits with a point or without: all of them, and how many come after the point. -/
inductive Mantissa : List Nat → Nat → List Char → Prop where
  | whole {cs : List Char} {ds : List Nat} (h : Digits cs ds) (hne : ds ≠ []) : Mantissa ds 0 cs
  | pointed {cs fs : List Char} {ds es : List Nat} (h : Digits cs ds) (hfraction : Digits fs es)
      (hne : ds ≠ [] ∨ es ≠ []) : Mantissa (ds ++ es) es.length (cs ++ '.' :: fs)

/-- An optional exponent. -/
inductive Exponent : Int → List Char → Prop where
  | absent : Exponent 0 []
  | present {letter : Char} (hletter : letter = 'e' ∨ letter = 'E') {negative : Bool}
      {cs text : List Char} {ds : List Nat} (hsign : Signed cs negative text) (h : Digits cs ds)
      (hne : ds ≠ []) :
      Exponent (if negative then -(positional 10 ds : Int) else positional 10 ds) (letter :: text)

/-- A decimal without a sign. -/
inductive Unsigned : Decimal → List Char → Prop where
  | mk {ds : List Nat} {places : Nat} {mantissa : List Char} {e : Int} {exponent : List Char}
      (hmantissa : Mantissa ds places mantissa) (hexponent : Exponent e exponent) :
      Unsigned ⟨positional 10 ds, e - places⟩ (mantissa ++ exponent)

/-- A decimal with an optional sign. -/
def SpellsDecimal (negative : Bool) (d : Decimal) (text : List Char) : Prop :=
  ∃ body, Signed body negative text ∧ Unsigned d body

/-- `Infinity` with an optional sign. -/
def SpellsInfinity (negative : Bool) (text : List Char) : Prop :=
  Signed "Infinity".toList negative text

/-! ### Signs and digits -/

theorem signed_signOf (cs : List Char) : Signed (signOf cs).2 (signOf cs).1 cs := by
  unfold signOf
  split
  · exact .minus
  · exact .plus
  · exact .bare

/-- What comes after the sign does not start with another. -/
theorem Signed.signOf_eq {body text : List Char} {negative : Bool} (h : Signed body negative text)
    (hplus : body.head? ≠ some '+') (hminus : body.head? ≠ some '-') :
    signOf text = (negative, body) := by
  cases h with
  | bare =>
    unfold signOf
    split
    · exact absurd rfl hminus
    · exact absurd rfl hplus
    · rfl
  | plus => rfl
  | minus => rfl

namespace Digits

variable {cs : List Char} {ds : List Nat}

theorem isDigit (h : Digits cs ds) : ∀ c ∈ cs, Text.isDigit c = true := by
  induction h with
  | nil => exact List.forall_mem_nil _
  | cons hc _ ih =>
    refine List.forall_mem_cons.2 ⟨?_, ih⟩
    rw [Text.isDigit, hc]
    rfl

/-- Digits have values. -/
theorem exists_of_isDigit (h : ∀ c ∈ cs, Text.isDigit c = true) : ∃ ds, Digits cs ds := by
  induction cs with
  | nil => exact ⟨[], .nil⟩
  | cons c cs ih =>
    rw [List.forall_mem_cons] at h
    obtain ⟨d, hd⟩ := Option.isSome_iff_exists.1 h.1
    obtain ⟨ds, hds⟩ := ih h.2
    exact ⟨d :: ds, .cons hd hds⟩

theorem eq_nil_iff (h : Digits cs ds) : cs = [] ↔ ds = [] := by
  cases h with
  | nil => exact iff_of_true rfl rfl
  | cons => exact iff_of_false (List.cons_ne_nil _ _) (List.cons_ne_nil _ _)

theorem append {cs' : List Char} {ds' : List Nat} (h : Digits cs ds) (h' : Digits cs' ds') :
    Digits (cs ++ cs') (ds ++ ds') := List.rel_append h h'

theorem wholeOf_eq_positional (h : Digits cs ds) : wholeOf cs = positional 10 ds := by
  have hfold (acc : Nat) : cs.foldl (fun acc c => acc * 10 + (Text.digitValue? c).getD 0) acc
      = ds.foldl (fun acc d => acc * 10 + d) acc := by
    induction h generalizing acc with
    | nil => rfl
    | cons hc _ ih => rw [List.foldl_cons, List.foldl_cons, hc, ih, Option.getD_some]
  exact (hfold 0).trans (foldl_eq_positional 10 ds)

end Digits

/-- Digits before what does not start with one. -/
theorem spanDigits_append {cs rest : List Char} (hcs : ∀ c ∈ cs, Text.isDigit c = true)
    (hrest : ∀ c, rest.head? = some c → Text.isDigit c = false) :
    spanDigits (cs ++ rest) = (cs, rest) := by
  have htake : rest.takeWhile Text.isDigit = [] := by
    cases rest with
    | nil => rfl
    | cons c rest => rw [List.takeWhile_cons_of_neg (by rw [hrest c rfl]; decide)]
  rw [spanDigits, Text.dropWhile_append_of_head hcs hrest, List.takeWhile_append_of_pos hcs, htake,
    List.append_nil]

theorem spanDigits_eq {cs front rest : List Char} (h : spanDigits cs = (front, rest)) :
    cs = front ++ rest ∧ ∃ ds, Digits front ds := by
  injection h with hfront hrest
  rw [← hfront, ← hrest]
  exact ⟨List.takeWhile_append_dropWhile.symm,
    Digits.exists_of_isDigit (List.all_eq_true.1 List.all_takeWhile)⟩

/-- Digits are no other characters. -/
theorem Digits.head?_ne {cs rest : List Char} {ds : List Nat} (h : Digits cs ds) (hne : cs ≠ [])
    {c : Char} (hc : Text.isDigit c = false) : (cs ++ rest).head? ≠ some c := by
  rw [List.head?_append_of_ne_nil _ hne]
  intro hhead
  rw [h.isDigit c (List.mem_of_head? hhead)] at hc
  cases hc

/-! ### Exponents -/

theorem exponentOf_eq_some_iff {e : Int} {cs : List Char} :
    exponentOf cs = some e ↔ Exponent e cs := by
  constructor
  · intro h
    cases cs with
    | nil =>
      cases h
      exact .absent
    | cons letter text =>
      unfold exponentOf at h
      dsimp only at h
      split at h
      · next hletter =>
        split at h
        · cases h
        · next hdigits =>
          rw [Bool.or_eq_true, Bool.not_eq_true', not_or, List.isEmpty_iff, Bool.not_eq_false,
            List.all_eq_true] at hdigits
          obtain ⟨ds, hds⟩ := Digits.exists_of_isDigit hdigits.2
          cases h
          rw [hds.wholeOf_eq_positional]
          refine .present ?_ (signed_signOf text) hds (mt hds.eq_nil_iff.2 hdigits.1)
          rwa [Bool.or_eq_true, decide_eq_true_eq, decide_eq_true_eq] at hletter
      · cases h
  · intro h
    cases h with
    | absent => rfl
    | @present letter hletter negative cs text ds hsign hds hne =>
      have hcs := mt hds.eq_nil_iff.1 hne
      have hhead {c : Char} (hc : Text.isDigit c = false) : cs.head? ≠ some c := by
        rw [← List.append_nil cs]
        exact hds.head?_ne hcs hc
      have hsign := hsign.signOf_eq (hhead (by decide)) (hhead (by decide))
      have hletter : (decide (letter = 'e') || decide (letter = 'E')) = true := by
        rwa [Bool.or_eq_true, decide_eq_true_eq, decide_eq_true_eq]
      have hdigits : ¬(cs.isEmpty || !cs.all Text.isDigit) = true := by
        rw [Bool.or_eq_true, Bool.not_eq_true', not_or, List.isEmpty_iff, Bool.not_eq_false,
          List.all_eq_true]
        exact ⟨hcs, hds.isDigit⟩
      unfold exponentOf
      dsimp only
      rw [if_pos hletter, hsign]
      dsimp only
      rw [if_neg hdigits, hds.wholeOf_eq_positional]

/-- An exponent does not start like the rest of the digits. -/
theorem Exponent.head {e : Int} {cs : List Char} (h : Exponent e cs) {c : Char}
    (hc : cs.head? = some c) : Text.isDigit c = false ∧ c ≠ '.' := by
  cases h with
  | absent => cases hc
  | present hletter =>
    cases hc
    rcases hletter with rfl | rfl
    · exact ⟨by decide, by decide⟩
    · exact ⟨by decide, by decide⟩

/-! ### Decimals without a sign -/

/-- What is read up to the exponent: digits, and the digits after a point if there is one. -/
def FractionOf (rest fraction rest' : List Char) : Prop :=
  (∃ after, rest = '.' :: after ∧ spanDigits after = (fraction, rest')) ∨
    rest.head? ≠ some '.' ∧ fraction = [] ∧ rest' = rest

theorem decimalOf_eq {cs whole rest fraction rest' : List Char}
    (hwhole : spanDigits cs = (whole, rest)) (hfraction : FractionOf rest fraction rest') :
    decimalOf cs = if whole = [] ∧ fraction = [] then none
      else (exponentOf rest').map fun e => ⟨wholeOf (whole ++ fraction), e - fraction.length⟩ := by
  unfold decimalOf
  rw [hwhole]
  dsimp only
  rcases hfraction with ⟨after, rfl, hspan⟩ | ⟨hpoint, rfl, rfl⟩
  · simp only [hspan, Bool.and_eq_true, List.isEmpty_iff]
  · split
    · exact absurd rfl hpoint
    · simp only [Bool.and_eq_true, List.isEmpty_iff]

theorem exists_fractionOf (rest : List Char) : ∃ fraction rest', FractionOf rest fraction rest' := by
  by_cases hpoint : rest.head? = some '.'
  · cases rest with
    | nil => cases hpoint
    | cons c after =>
      cases hpoint
      exact ⟨_, _, .inl ⟨after, rfl, rfl⟩⟩
  · exact ⟨[], rest, .inr ⟨hpoint, rfl, rfl⟩⟩

/-- A text is read as a decimal just if it is one. -/
theorem decimalOf_eq_some_iff {d : Decimal} {cs : List Char} :
    decimalOf cs = some d ↔ Unsigned d cs := by
  constructor
  · intro h
    obtain ⟨whole, rest, hspan⟩ : ∃ whole rest, spanDigits cs = (whole, rest) := ⟨_, _, rfl⟩
    obtain ⟨fraction, rest', hfraction⟩ := exists_fractionOf rest
    rw [decimalOf_eq hspan hfraction] at h
    split at h
    · cases h
    next hne =>
    obtain ⟨e, he, rfl⟩ := Option.map_eq_some_iff.1 h
    have hexponent := exponentOf_eq_some_iff.1 he
    obtain ⟨rfl, ds, hds⟩ := spanDigits_eq hspan
    -- With a point the digits after it may be missing or be all there are.
    rcases hfraction with ⟨after, rfl, hspan'⟩ | ⟨-, rfl, rfl⟩
    · obtain ⟨rfl, es, hes⟩ := spanDigits_eq hspan'
      have hlength : fraction.length = es.length := List.Forall₂.length_eq hes
      rw [(hds.append hes).wholeOf_eq_positional, hlength, ← List.cons_append,
        ← List.append_assoc]
      refine .mk (.pointed hds hes ?_) hexponent
      rw [not_and_or] at hne
      exact hne.imp (mt hds.eq_nil_iff.2) (mt hes.eq_nil_iff.2)
    · rw [List.append_nil, hds.wholeOf_eq_positional]
      refine .mk (.whole hds ?_) hexponent
      exact mt hds.eq_nil_iff.2 fun hnil => hne ⟨hnil, rfl⟩
  · rintro ⟨hmantissa, hexponent⟩
    next e exponent =>
    -- An exponent starts with neither digit nor point, so the digits end where it starts.
    cases hmantissa with
    | whole hds hne =>
      have hfraction : FractionOf exponent [] exponent :=
        .inr ⟨fun hc => (hexponent.head hc).2 rfl, rfl, rfl⟩
      rw [decimalOf_eq (spanDigits_append hds.isDigit fun c hc => (hexponent.head hc).1) hfraction,
        if_neg fun hnil => hne (hds.eq_nil_iff.1 hnil.1), exponentOf_eq_some_iff.2 hexponent,
        List.append_nil, hds.wholeOf_eq_positional]
      rfl
    | @pointed cs fs ds es hds hes hne =>
      have hfraction : FractionOf ('.' :: (fs ++ exponent)) fs exponent :=
        .inl ⟨_, rfl, spanDigits_append hes.isDigit fun c hc => (hexponent.head hc).1⟩
      have hwhole : spanDigits (cs ++ '.' :: (fs ++ exponent)) = (cs, '.' :: (fs ++ exponent)) :=
        spanDigits_append hds.isDigit fun c hc => by
          cases hc
          decide
      have hlength : fs.length = es.length := List.Forall₂.length_eq hes
      rw [List.append_assoc, List.cons_append, decimalOf_eq hwhole hfraction, if_neg,
        exponentOf_eq_some_iff.2 hexponent, (hds.append hes).wholeOf_eq_positional, hlength]
      · rfl
      · rintro ⟨hcs, hfs⟩
        exact hne.elim (fun hd => hd (hds.eq_nil_iff.1 hcs)) fun hf => hf (hes.eq_nil_iff.1 hfs)

/-! ### Decimals and infinities -/

/-- A decimal without a sign starts with a digit or a point. -/
theorem Unsigned.head {d : Decimal} {body : List Char} (h : Unsigned d body) :
    ∃ c, body.head? = some c ∧ (Text.isDigit c = true ∨ c = '.') := by
  have hfirst {cs : List Char} {ds : List Nat} (hds : Digits cs ds) (hne : cs ≠ [])
      (rest : List Char) : ∃ c, (cs ++ rest).head? = some c ∧ (Text.isDigit c = true ∨ c = '.') := by
    obtain ⟨c, cs, rfl⟩ := List.exists_cons_of_ne_nil hne
    exact ⟨c, rfl, .inl (hds.isDigit c List.mem_cons_self)⟩
  obtain ⟨hmantissa, -⟩ := h
  cases hmantissa with
  | whole hds hne => exact hfirst hds (mt hds.eq_nil_iff.1 hne) _
  | @pointed cs fs ds es hds hes hne =>
    by_cases hnil : cs = []
    · subst hnil
      exact ⟨'.', rfl, .inr rfl⟩
    · rw [List.append_assoc]
      exact hfirst hds hnil _

/-- A decimal without a sign starts with no other character. -/
theorem Unsigned.head?_ne {d : Decimal} {body : List Char} (h : Unsigned d body) {c : Char}
    (hdigit : Text.isDigit c = false) (hpoint : c ≠ '.') : body.head? ≠ some c := by
  obtain ⟨first, hfirst, hcases⟩ := h.head
  rw [hfirst]
  intro heq
  cases heq
  rcases hcases with hcases | hcases
  · rw [hdigit] at hcases
    cases hcases
  · exact hpoint hcases

theorem SpellsInfinity.decimal?_eq {negative : Bool} {text : List Char}
    (h : SpellsInfinity negative text) : decimal? text = some (ofMagnitude negative infinityBits) := by
  have hsign : signOf text = (negative, "Infinity".toList) :=
    Signed.signOf_eq h (by decide) (by decide)
  rw [decimal?, hsign]
  exact if_pos rfl

theorem SpellsDecimal.decimal?_eq {negative : Bool} {d : Decimal} {text : List Char}
    (h : SpellsDecimal negative d text) : decimal? text = some (d.nearest negative) := by
  obtain ⟨body, hsigned, hbody⟩ := h
  have hsign := hsigned.signOf_eq (hbody.head?_ne (by decide) (by decide))
    (hbody.head?_ne (by decide) (by decide))
  have hword : body ≠ "Infinity".toList := by
    rintro rfl
    exact hbody.head?_ne (by decide) (by decide) rfl
  rw [decimal?, hsign]
  dsimp only
  rw [if_neg hword, decimalOf_eq_some_iff.2 hbody, Option.map_some]

/-- A text is read as infinite or as a decimal just if it is one. -/
theorem decimal?_eq_some_iff {text : List Char} {x : Float} :
    decimal? text = some x ↔
      (∃ negative, SpellsInfinity negative text ∧ x = ofMagnitude negative infinityBits) ∨
        ∃ negative d, SpellsDecimal negative d text ∧ x = d.nearest negative := by
  constructor
  · intro h
    -- The sign is taken off once for both forms.
    have hsigned := signed_signOf text
    unfold decimal? at h
    dsimp only at h
    split at h
    · next hword =>
      rw [hword] at hsigned
      exact .inl ⟨_, hsigned, (Option.some.inj h).symm⟩
    · obtain ⟨d, hd, rfl⟩ := Option.map_eq_some_iff.1 h
      exact .inr ⟨_, d, ⟨_, hsigned, decimalOf_eq_some_iff.1 hd⟩, rfl⟩
  · rintro (⟨negative, h, rfl⟩ | ⟨negative, d, h, rfl⟩)
    · exact h.decimal?_eq
    · exact h.decimal?_eq

/-- A prefixed number is no decimal: no digit, point or exponent starts with its letter. -/
theorem Prefixed.decimal?_eq {base : Nat} {ds : List Nat} {body : List Char}
    (h : Prefixed base ds body) : decimal? body = none := by
  obtain ⟨hletter, -, -⟩ := h
  next letter cs =>
  have hall : prefixLetters.all (fun l =>
      !Text.isDigit l.1 && l.1 != '.' && !(l.1 = 'e' || l.1 = 'E')) = true := by decide
  have hnot := List.all_eq_true.1 hall _ hletter
  rw [Bool.and_eq_true, Bool.and_eq_true, Bool.not_eq_true', bne_iff_ne, Bool.not_eq_true'] at hnot
  obtain ⟨⟨hdigit, hpoint⟩, hexponent⟩ := hnot
  have hspan : spanDigits ('0' :: letter :: cs) = (['0'], letter :: cs) := by
    have hzero : ∀ c ∈ ['0'], Text.isDigit c = true := by
      intro c hc
      rw [List.mem_singleton.1 hc]
      rfl
    refine spanDigits_append hzero fun c hc => ?_
    cases hc
    exact hdigit
  have hfraction : FractionOf (letter :: cs) [] (letter :: cs) :=
    .inr ⟨fun hc => hpoint (Option.some.inj hc), rfl, rfl⟩
  have hnone : exponentOf (letter :: cs) = none := by
    rw [exponentOf, if_neg (by rw [hexponent]; decide)]
  have hdecimal : decimalOf ('0' :: letter :: cs) = none := by
    rw [decimalOf_eq hspan hfraction, hnone, Option.map_none, ite_self]
  have hword : '0' :: letter :: cs ≠ "Infinity".toList := fun h => by cases h
  have hsign : signOf ('0' :: letter :: cs) = (false, '0' :: letter :: cs) := rfl
  rw [decimal?, hsign]
  dsimp only
  rw [if_neg hword, hdecimal, Option.map_none]

/-! ## Numbers -/

section Read

variable {text : List Char} {negative : Bool} {base : Nat} {ds : List Nat} {d : Decimal}

theorem read_of_prefixed (h : Prefixed base ds (Text.trim text)) :
    read text = if (positional base ds : ℚ) < beyondRange
      then .ok (some (nearest false (positional base ds) 1)) else .error .tooLarge := by
  have hrange := nearestBits_lt_iff (positional base ds) Nat.one_ne_zero
  rw [Nat.cast_one, div_one] at hrange
  have hbase : prefixed? (Text.trim text) = some (positional base ds) :=
    prefixed?_eq_some_iff.2 ⟨base, ds, h, rfl⟩
  rw [read, hbase]
  dsimp only
  rw [ofInt?, Int.natAbs_natCast]
  by_cases hlt : (positional base ds : ℚ) < beyondRange
  · rw [if_pos (hrange.2 hlt), if_pos hlt, decide_eq_false (Int.natCast_nonneg _).not_gt]
    rfl
  · rw [if_neg (mt hrange.1 hlt), if_neg hlt]

theorem read_of_not_prefixed (h : ∀ base ds, ¬Prefixed base ds (Text.trim text)) :
    read text = .ok (decimal? (Text.trim text)) := by
  have hnone : prefixed? (Text.trim text) = none := by
    rw [Option.eq_none_iff_forall_ne_some]
    intro n hn
    obtain ⟨base, ds, hprefixed, -⟩ := prefixed?_eq_some_iff.1 hn
    exact h base ds hprefixed
  rw [read, hnone]

/-- What has another form is read as that. -/
theorem read_of_decimal? {x : Float} (h : decimal? (Text.trim text) = some x) :
    read text = .ok (some x) := by
  rw [read_of_not_prefixed, h]
  intro base ds hprefixed
  rw [hprefixed.decimal?_eq] at h
  cases h

/-- A text is read as no number just if it has none of the forms. -/
theorem read_eq_none_iff : read text = .ok none ↔
    (∀ base ds, ¬Prefixed base ds (Text.trim text)) ∧
      (∀ negative, ¬SpellsInfinity negative (Text.trim text)) ∧
        ∀ negative d, ¬SpellsDecimal negative d (Text.trim text) := by
  constructor
  · intro h
    have hdecimal {x : Float} (hx : decimal? (Text.trim text) = some x) : False := by
      rw [read_of_decimal? hx] at h
      cases h
    refine ⟨fun base ds hprefixed => ?_, fun negative hinfinity => hdecimal hinfinity.decimal?_eq,
      fun negative d hd => hdecimal hd.decimal?_eq⟩
    -- Beyond the range a prefixed number is not read at all, which is not none either.
    rw [read_of_prefixed hprefixed] at h
    split at h
    · cases h
    · cases h
  · rintro ⟨hprefixed, hinfinity, hd⟩
    have hnone : decimal? (Text.trim text) = none := by
      rw [Option.eq_none_iff_forall_ne_some]
      intro x hx
      rcases decimal?_eq_some_iff.1 hx with ⟨negative, h, -⟩ | ⟨negative, d, h, -⟩
      · exact hinfinity negative h
      · exact hd negative d h
    rw [read_of_not_prefixed hprefixed, hnone]

end Read

/-- A text is read as a number just if, without the blanks around it, it is a prefixed number, an
infinity or a decimal; and it is read as the nearest number to what it stands for. -/
theorem reads_its_grammar (text : List Char) :
    ∃ body, (∀ stripped, Text.Strips text stripped ↔ stripped = body) ∧
      (read text = .ok none ↔ (∀ base ds, ¬Prefixed base ds body) ∧
        (∀ negative, ¬SpellsInfinity negative body) ∧ ∀ negative d, ¬SpellsDecimal negative d body) ∧
      (∀ base ds, Prefixed base ds body → (positional base ds : ℚ) < beyondRange →
        ∃ x, read text = .ok (some x) ∧ IsNearest false (positional base ds) x) ∧
      (∀ negative, SpellsInfinity negative body →
        ∃ x, read text = .ok (some x) ∧ parts x = .infinite negative) ∧
      ∀ negative d, SpellsDecimal negative d body →
        ∃ x, read text = .ok (some x) ∧ IsNearest negative d.value x := by
  refine ⟨Text.trim text, fun _ => Text.strips_iff, read_eq_none_iff, ?_, ?_, ?_⟩
  · intro base ds hprefixed hrange
    have hnearest := nearest_isNearest false (positional base ds) Nat.one_ne_zero
    rw [Nat.cast_one, div_one] at hnearest
    rw [read_of_prefixed hprefixed, if_pos hrange]
    exact ⟨_, rfl, hnearest⟩
  · intro negative hinfinity
    exact ⟨_, read_of_decimal? hinfinity.decimal?_eq, parts_ofMagnitude_infinite negative⟩
  · intro negative d hd
    exact ⟨_, read_of_decimal? hd.decimal?_eq, d.nearest_isNearest negative⟩

/-- Digits of either case after the prefix, and digits of another script before a bare point. -/
theorem reads_hexadecimal_and_arabic :
    (∃ x, read " 0x1F\n".toList = .ok (some x) ∧ IsNearest false 31 x) ∧
      ∃ x, read "-١٢.e2".toList = .ok (some x) ∧ IsNearest true 1200 x := by
  constructor
  · obtain ⟨body, hbody, -, hread, -⟩ := reads_its_grammar " 0x1F\n".toList
    obtain rfl : ['0', 'x', '1', 'F'] = body := (hbody _).1 (Text.strips_iff.2 (by decide))
    have hdigits : List.Forall₂ (IsDigitOf 16) ['1', 'F'] [1, 15] :=
      .cons ⟨by decide, .inl rfl⟩ (.cons ⟨by decide, .inr rfl⟩ .nil)
    have hrange : ((positional 16 [1, 15] : Nat) : ℚ) < beyondRange := by
      rw [← div_one ((positional 16 [1, 15] : Nat) : ℚ), ← Nat.cast_one]
      exact (nearestBits_lt_iff _ Nat.one_ne_zero).1 (by decide +kernel)
    exact hread 16 [1, 15] (.mk (by decide) hdigits (by decide)) hrange
  · obtain ⟨body, hbody, -, -, -, hread⟩ := reads_its_grammar "-١٢.e2".toList
    obtain rfl : '-' :: (['١', '٢'] ++ '.' :: [] ++ ['e', '2']) = body :=
      (hbody _).1 (Text.strips_iff.2 (by decide +kernel))
    have hmantissa : Mantissa [1, 2] 0 (['١', '٢'] ++ '.' :: []) :=
      .pointed (.cons (by decide +kernel) (.cons (by decide +kernel) .nil)) .nil (.inl (by decide))
    have hexponent : Exponent 2 ['e', '2'] :=
      .present (.inl rfl) .bare (.cons (by decide +kernel) .nil) (by decide)
    have hvalue : Decimal.value ⟨12, 2⟩ = 1200 := by
      norm_num [Decimal.value]
    rw [← hvalue]
    exact hread true ⟨12, 2⟩ ⟨_, .minus, .mk hmantissa hexponent⟩

end Number

end Mandate
