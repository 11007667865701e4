/-
  Mandate.Proofs.SpacedText

  Texts made of tokens with single spaces between them.

    * `Token.isSpelled`: the text of a token is one that its terminal stands for,
      and a name is no keyword.
    * `Lexeme.scan_spelled`: wherever the parser allows it, a spelled token before a
      space or the end is scanned as itself.
    * `Layout.separate_spaced`: there is nothing to lay out in a spaced text; its line
      ends are inside strings.
    * `Stack.Derives.parseFrom_spaced`: what tokens lead to, the spaced text leads to,
      wherever its tokens start.
-/

import Mandate.Proofs.Comments
import Mandate.Proofs.Derivations

namespace Mandate

/-! ## Spelling -/

namespace Terminal

/-- Whether a text is a letter or underscore, then letters, digits and underscores. -/
def isWord : List Char → Bool
  | [] => false
  | c :: cs => isWordStart c && cs.all isWordPart

/-- Whether a text is digits, a fraction, or digits with a fraction. -/
def isNumeral (cs : List Char) : Bool :=
  match cs.dropWhile Text.isDigit with
  | [] => !cs.isEmpty
  | c :: ds => c == '.' && !ds.isEmpty && ds.all Text.isDigit

/-- Whether a text is the rest of a string: a quote ends it, and a backslash takes the next
character with it, which must not be a line end. -/
def isStringTail : List Char → Bool
  | [] => false
  | ['\\'] => false
  | '\\' :: c :: cs => c != '\n' && isStringTail cs
  | c :: cs => if c = '"' then cs.isEmpty else isStringTail cs

/-- Whether a text is one that a terminal stands for. -/
def spells (t : Terminal) (cs : List Char) : Bool :=
  match t with
  | .name => isWord cs
  | .number => isNumeral cs
  | .string => cs.head? == some '"' && isStringTail cs.tail
  | .finish => false
  | t => cs == t.text.toList

/-- Whether a text is a keyword. -/
def isReserved (cs : List Char) : Bool := keywords.any fun t => cs == t.text.toList

end Terminal

/-- Whether the text of a token is one that its terminal stands for. -/
def Token.isSpelled (t : Token) : Bool := t.terminal.spells t.text.toList

/-- The texts of some tokens with single spaces between them. -/
def Token.spaced (ts : List Token) : List Char :=
  List.intercalate [' '] (ts.map fun t => t.text.toList)

/-- What comes after a token in a spaced text. -/
def Token.spacedRest : List Token → List Char
  | [] => []
  | t :: ts => ' ' :: Token.spaced (t :: ts)

theorem Token.spaced_cons (t : Token) (ts : List Token) :
    Token.spaced (t :: ts) = t.text.toList ++ Token.spacedRest ts := by
  cases ts with
  | nil => simp [spaced, spacedRest, List.intercalate]
  | cons u us => simp [spaced, spacedRest, List.intercalate]

theorem Token.head_spacedRest (ts : List Token) : ∀ c ∈ (Token.spacedRest ts).head?, c = ' ' := by
  cases ts with
  | nil => simp [spacedRest]
  | cons t ts => simp [spacedRest]

/-! ## Scanning a token before a space -/

namespace Lexeme

open Terminal

variable {w rest : List Char}

theorem takeWhile_before {p : Char → Bool} (hw : ∀ c ∈ w, p c = true) (hspace : p ' ' = false)
    (hrest : ∀ c ∈ rest.head?, c = ' ') : (w ++ rest).takeWhile p = w := by
  have hnone : rest.takeWhile p = [] := by
    cases rest with
    | nil => rfl
    | cons c cs =>
      have hc := hrest c rfl
      subst hc
      rw [List.takeWhile_cons_of_neg (by rw [hspace]; decide)]
  rw [List.takeWhile_append_of_pos hw, hnone, List.append_nil]

theorem nameLength_of_not {c : Char} (hc : isWordStart c = false) (cs : List Char) :
    nameLength (c :: cs) = 0 := by
  simp [nameLength, Layout.leadingWord, hc]

theorem nameLength_before (hw : isWord w = true) (hrest : ∀ c ∈ rest.head?, c = ' ') :
    nameLength (w ++ rest) = w.length := by
  cases w with
  | nil => cases hw
  | cons c cs =>
    rw [isWord, Bool.and_eq_true, List.all_eq_true] at hw
    have hpart : ∀ d ∈ c :: cs, isWordPart d = true :=
      List.forall_mem_cons.2 ⟨isWordPart_of_isWordStart hw.1, hw.2⟩
    have hword : Layout.leadingWord (c :: cs ++ rest) = (c :: cs ++ rest).takeWhile isWordPart :=
      if_pos hw.1
    rw [nameLength, hword, takeWhile_before hpart (by decide) hrest]

theorem digitsLength_before (hw : ∀ c ∈ w, Text.isDigit c = true)
    (hrest : ∀ c ∈ rest.head?, c = ' ') : digitsLength (w ++ rest) = w.length := by
  rw [digitsLength, takeWhile_before hw (by decide) hrest]

theorem fractionLength_before (hrest : ∀ c ∈ rest.head?, c = ' ') : fractionLength rest = 0 := by
  cases rest with
  | nil => rfl
  | cons c cs =>
    rw [hrest c rfl]
    rfl

theorem numberLength_of_not {c : Char} (hc : Text.isDigit c = false) (cs : List Char) :
    numberLength (c :: cs) = fractionLength (c :: cs) := by
  have hdigits : digitsLength (c :: cs) = 0 := by
    rw [digitsLength, List.takeWhile_cons_of_neg (by rw [hc]; decide), List.length_nil]
  rw [numberLength, hdigits, Nat.zero_add, List.drop_zero]

/-- A numeral is digits with nothing or a fraction after them. -/
theorem isNumeral_cases (hw : isNumeral w = true) :
    ∃ whole, (∀ c ∈ whole, Text.isDigit c = true) ∧ (w = whole ∧ w ≠ [] ∨
      ∃ ds, w = whole ++ '.' :: ds ∧ ds ≠ [] ∧ ∀ c ∈ ds, Text.isDigit c = true) := by
  have hwhole := List.takeWhile_append_dropWhile (p := Text.isDigit) (l := w)
  refine ⟨w.takeWhile Text.isDigit, List.all_eq_true.1 List.all_takeWhile, ?_⟩
  unfold isNumeral at hw
  split at hw
  · next hnil =>
    rw [hnil, List.append_nil] at hwhole
    exact .inl ⟨hwhole.symm, by simpa using hw⟩
  · next c ds hcons =>
    simp only [Bool.and_eq_true, beq_iff_eq, List.all_eq_true] at hw
    obtain ⟨⟨rfl, hne⟩, hds⟩ := hw
    rw [hcons] at hwhole
    exact .inr ⟨ds, hwhole.symm, by simpa using hne, hds⟩

theorem numberLength_before (hw : isNumeral w = true) (hrest : ∀ c ∈ rest.head?, c = ' ') :
    numberLength (w ++ rest) = w.length := by
  obtain ⟨whole, hwhole, ⟨rfl, -⟩ | ⟨ds, rfl, hne, hds⟩⟩ := isNumeral_cases hw
  · rw [numberLength, digitsLength_before hwhole hrest, List.drop_left,
      fractionLength_before hrest, Nat.add_zero]
  · have hdigits : digitsLength (whole ++ ('.' :: ds ++ rest)) = whole.length := by
      rw [digitsLength, List.takeWhile_append_of_pos hwhole, List.cons_append,
        List.takeWhile_cons_of_neg (by decide), List.append_nil]
    have hfraction : fractionLength ('.' :: ds ++ rest) = 1 + ds.length := by
      rw [List.cons_append, fractionLength, digitsLength_before hds hrest, if_neg]
      simpa using hne
    rw [numberLength, List.append_assoc, hdigits, List.drop_left, hfraction, List.length_append,
      List.length_cons, Nat.add_comm 1]

theorem stringTail_before (hw : isStringTail w = true) (rest : List Char) (n : Nat) :
    stringTail n (w ++ rest) = n + w.length := by
  fun_induction isStringTail w generalizing n with
  | case1 => cases hw
  | case2 => cases hw
  | case3 c cs ih =>
    rw [Bool.and_eq_true, bne_iff_ne] at hw
    rw [List.cons_append, List.cons_append, stringTail, if_neg hw.1, ih hw.2, List.length_cons,
      List.length_cons]
    omega
  | case4 cs _ _ =>
    rw [List.isEmpty_iff.1 hw]
    rfl
  | case5 c cs hlast hescape hquote ih =>
    have hc := ne_escape hlast hescape
    rw [List.cons_append, stringTail, if_neg hquote, ih hw, List.length_cons]
    · omega
    · exact fun h => absurd h hc
    · exact fun _ _ h => absurd h hc

/-! ## Scanning a fixed text -/

/-- What stands at the front of a fixed text. -/
theorem head_text {t : Terminal} {c : Char} {w : List Char} (h : t.text.toList = c :: w) :
    Text.isDigit c = false ∧ c ≠ '"' ∧ c ≠ '#' ∧ isSpace c = false ∧ (c = '.' → t = .dot) ∧
      (t.isKeyword = false → isWordStart c = false) := by
  have key : t.text.toList.head?.all (fun c => !Text.isDigit c && c != '"' && c != '#' &&
      !isSpace c && (c != '.' || t == .dot) && (t.isKeyword || !isWordStart c)) = true := by
    cases t <;> decide +kernel
  rw [h, List.head?_cons, Option.all_some] at key
  simp only [Bool.and_eq_true, Bool.or_eq_true, Bool.not_eq_true', bne_iff_ne, beq_iff_eq] at key
  obtain ⟨⟨⟨⟨⟨hdigit, hquote⟩, hcomment⟩, hspace⟩, hdot⟩, hword⟩ := key
  refine ⟨hdigit, hquote, hcomment, hspace, fun hc => hdot.resolve_left (not_not_intro hc), ?_⟩
  intro hkey
  rw [hkey] at hword
  exact hword.resolve_left Bool.false_ne_true

theorem isWord_text {t : Terminal} (h : t.isKeyword = true) : isWord t.text.toList = true := by
  revert h
  cases t <;> decide +kernel

/-- A fixed text that another one starts with is shorter. -/
theorem length_text_lt {t u : Terminal} (h : u.text.toList <+: t.text.toList) (hu : u.text ≠ "")
    (hne : u ≠ t) : u.text.length < t.text.length := by
  have key : ∀ t ∈ Terminal.all, ∀ u ∈ Terminal.all, u.text.toList <+: t.text.toList →
      u.text ≠ "" → u ≠ t → u.text.length < t.text.length := by decide +kernel
  exact key t t.mem_all u u.mem_all h hu hne

/-- What a text before a space starts with, if it has no space in it, the text itself starts
with. -/
theorem prefix_before {v : List Char} (h : v <+: w ++ rest) (hspace : ' ' ∉ v)
    (hrest : ∀ c ∈ rest.head?, c = ' ') : v <+: w := by
  rcases List.prefix_or_prefix_of_prefix h (List.prefix_append w rest) with hv | ⟨v', rfl⟩
  · exact hv
  · rw [List.prefix_append_right_inj] at h
    cases v' with
    | nil => simp
    | cons c cs =>
      obtain ⟨ds, rfl⟩ := h
      exact absurd (by rw [hrest c rfl]; simp) hspace

/-- No other terminal takes as much of a fixed text before a space. -/
theorem fixedLength_lt {t u : Terminal} (hne : u ≠ t) (ht : t.text ≠ "")
    (hrest : ∀ c ∈ rest.head?, c = ' ') :
    fixedLength u (t.text.toList ++ rest) < t.text.length := by
  have hspace : ' ' ∉ u.text.toList := by cases u <;> decide +kernel
  have hlength : 0 < t.text.length := by
    rw [Nat.pos_iff_ne_zero]
    exact fun h => ht (String.length_eq_zero_iff.1 h)
  unfold fixedLength
  split
  · next hprefix =>
    by_cases hu : u.text = ""
    · rw [hu]
      exact hlength
    · exact length_text_lt (prefix_before (List.isPrefixOf_iff_prefix.1 hprefix) hspace hrest) hu hne
  · exact hlength

theorem mem_of_longestFixed {cs : List Char} {ts : List Terminal} {t : Terminal}
    (h : longestFixed cs ts = some t) : t ∈ ts := by
  induction ts with
  | nil => cases h
  | cons u us ih =>
    unfold longestFixed at h
    split at h
    · split at h
      · cases h
      · cases h
        exact List.mem_cons_self
    · next best hbest =>
      split at h
      · cases h
        exact List.mem_cons_self
      · cases h
        exact List.mem_cons_of_mem u (ih hbest)

/-- A terminal that takes more of a text than any other is the one chosen. -/
theorem longestFixed_eq {cs : List Char} {ts : List Terminal} {t : Terminal} (ht : t ∈ ts)
    (hlength : fixedLength t cs = t.text.length) (hne : t.text.length ≠ 0)
    (hother : ∀ u, u ≠ t → fixedLength u cs < t.text.length) : longestFixed cs ts = some t := by
  induction ts with
  | nil => cases ht
  | cons u us ih =>
    unfold longestFixed
    by_cases hus : t ∈ us
    · rw [ih hus]
      have hle : ¬t.text.length < fixedLength u cs := by
        by_cases hu : u = t
        · rw [hu, hlength]
          exact Nat.lt_irrefl _
        · exact Nat.not_lt.2 (Nat.le_of_lt (hother u hu))
      exact if_neg hle
    · have hu : u = t := ((List.mem_cons.1 ht).resolve_right hus).symm
      subst hu
      split
      · rw [if_neg (by omega)]
      · next best hbest =>
        have hbt : best ≠ u := fun h => hus (h ▸ mem_of_longestFixed hbest)
        have hbest : fixedLength best cs = best.text.length :=
          if_pos (isPrefixOf_of_longestFixed hbest)
        have hlt := hother best hbt
        rw [if_pos (by omega)]

theorem text_injective {t u : Terminal} (h : t.text.toList = u.text.toList) (ht : t.text ≠ "") :
    t = u := by
  refine Decidable.byContradiction fun hne => ?_
  have hlt := length_text_lt (t := u) (h ▸ List.prefix_refl _) ht hne
  rw [← String.length_toList, ← String.length_toList, h] at hlt
  exact Nat.lt_irrefl _ hlt

theorem wordTerminal_text {allowed : List Terminal} {t : Terminal} (ht : t ∈ allowed)
    (hkey : t.isKeyword = true) : wordTerminal allowed t.text.toList = t := by
  unfold wordTerminal
  cases hfind : allowed.find? fun u => u.isKeyword && u.text.toList == t.text.toList with
  | none =>
    have hnone := List.find?_eq_none.1 hfind t ht
    simp [hkey] at hnone
  | some u =>
    have hu := List.find?_some hfind
    rw [Bool.and_eq_true, beq_iff_eq] at hu
    have hne : u.text ≠ "" := by
      have hkeyword := hu.1
      revert hkeyword
      cases u <;> decide
    exact text_injective hu.2 hne

theorem wordTerminal_of_not {allowed : List Terminal} (hw : isReserved w = false) :
    wordTerminal allowed w = .name := by
  unfold wordTerminal
  cases hfind : allowed.find? fun u => u.isKeyword && u.text.toList == w with
  | none => rfl
  | some u =>
    have hu := List.find?_some hfind
    rw [Bool.and_eq_true, beq_iff_eq] at hu
    have hreserved : isReserved w = true :=
      List.any_eq_true.2 ⟨u, by simpa [isKeyword] using hu.1, by rw [hu.2, beq_self_eq_true]⟩
    rw [hw] at hreserved
    cases hreserved

theorem numberLength_fixed {t : Terminal} (htext : t.text ≠ "")
    (hrest : ∀ c ∈ rest.head?, c = ' ') : numberLength (t.text.toList ++ rest) = 0 := by
  cases hcs : t.text.toList with
  | nil => exact absurd (by simpa using hcs) htext
  | cons c w =>
    obtain ⟨hdigit, -, -, -, hdot, -⟩ := head_text hcs
    rw [List.cons_append, numberLength_of_not hdigit]
    by_cases hc : c = '.'
    · -- The point is a text by itself, and no digit comes after it.
      have htext : Terminal.dot.text.toList = ['.'] := rfl
      rw [hdot hc, htext] at hcs
      cases hcs
      rw [List.nil_append, fractionLength, if_pos]
      exact digitsLength_before (w := []) (fun c hc => absurd hc List.not_mem_nil) hrest
    · exact SameFront.fractionLength_of_ne hc _

/-- A keyword or mark before a space is scanned as itself. -/
theorem scan_fixed {allowed : List Terminal} {t : Terminal} (ht : t ∈ allowed)
    (htext : t.text ≠ "") (hrest : ∀ c ∈ rest.head?, c = ' ') :
    scan allowed (t.text.toList ++ rest) = some (.token t t.text.length) := by
  have hlength : t.text.length ≠ 0 := fun h => htext (String.length_eq_zero_iff.1 h)
  have hfixed : t ∈ fixed allowed → longestFixed (t.text.toList ++ rest) (fixed allowed) = some t := by
    intro hmem
    refine longestFixed_eq hmem ?_ hlength fun u hu => fixedLength_lt hu htext hrest
    exact if_pos (List.isPrefixOf_iff_prefix.2 (List.prefix_append _ rest))
  by_cases hkey : t.isKeyword = true ∧ allowed.contains .name = true
  · -- Where names are possible, a keyword is read as a word first.
    obtain ⟨hkey, hname⟩ := hkey
    have hword := nameLength_before (isWord_text hkey) hrest
    rw [String.length_toList] at hword
    rw [scan, hname, hword, Bool.true_and, if_pos (bne_iff_ne.2 hlength), ← String.length_toList,
      List.take_left, wordTerminal_text ht hkey]
  · have hmem : t ∈ fixed allowed := by
      rw [fixed, List.mem_filter]
      refine ⟨ht, ?_⟩
      rw [Bool.and_eq_true, bne_iff_ne, Bool.not_eq_true', Bool.eq_false_iff]
      exact ⟨htext, fun h => hkey (Bool.and_eq_true_iff.1 h).symm⟩
    have hchosen := hfixed hmem
    have hnumber : numberLength (t.text.toList ++ rest) = 0 := numberLength_fixed htext hrest
    cases hcs : t.text.toList with
    | nil => exact absurd (by simpa using hcs) htext
    | cons c w =>
      rw [hcs] at hnumber hchosen
      obtain ⟨-, hquote, hcomment, hspace, -, hword⟩ := head_text hcs
      have hname : (allowed.contains .name && nameLength (c :: w ++ rest) != 0) = false := by
        cases hallowed : allowed.contains .name with
        | false => rfl
        | true =>
          have hkeyword : t.isKeyword = false := by
            rw [Bool.eq_false_iff]
            exact fun h => hkey ⟨h, hallowed⟩
          rw [List.cons_append, nameLength_of_not (hword hkeyword)]
          rfl
      rw [scan, hname, hnumber, List.cons_append, stringLength_of_ne hquote,
        spaceLength_of_not (by rw [hspace]; decide), commentLength_of_ne hcomment]
      rw [List.cons_append] at hchosen
      simp [hchosen]

/-! ## Scanning any token -/

theorem class_cases (t : Terminal) :
    t = .name ∨ t = .number ∨ t = .string ∨ t = .finish ∨ t.text ≠ "" := by
  cases t <;> decide

theorem eq_text_of_spells {t : Terminal} (h : t.spells w = true) (ht : t.text ≠ "") :
    w = t.text.toList := by
  cases t <;> first | exact absurd rfl ht | exact beq_iff_eq.1 h

theorem spells_string (h : Terminal.string.spells w = true) :
    ∃ tail, w = '"' :: tail ∧ isStringTail tail = true := by
  rw [spells, Bool.and_eq_true, beq_iff_eq] at h
  cases w with
  | nil => cases h.1
  | cons c cs =>
    cases h.1
    exact ⟨cs, rfl, h.2⟩

/-- What starts a word is a capital, a small letter or an underscore. -/
theorem isWordStart_cases {c : Char} (h : isWordStart c = true) :
    (65 ≤ c.val.toNat ∧ c.val.toNat ≤ 90) ∨ (97 ≤ c.val.toNat ∧ c.val.toNat ≤ 122) ∨ c = '_' := by
  rw [isWordStart, Bool.or_eq_true, decide_eq_true_eq] at h
  rcases h with h | h
  · have halpha : (c.isUpper || c.isLower) = true := h
    rw [Bool.or_eq_true] at halpha
    rcases halpha with hupper | hlower
    · have hrange : decide (65 ≤ c.val ∧ c.val ≤ 90) = true := hupper
      rw [decide_eq_true_eq, UInt32.le_iff_toNat_le, UInt32.le_iff_toNat_le] at hrange
      exact .inl hrange
    · have hrange : (decide (97 ≤ c.val) && decide (c.val ≤ 122)) = true := hlower
      rw [Bool.and_eq_true, decide_eq_true_eq, decide_eq_true_eq, UInt32.le_iff_toNat_le,
        UInt32.le_iff_toNat_le] at hrange
      exact .inr (.inl hrange)
  · exact .inr (.inr h)

theorem not_isWordStart_of_isDigit {c : Char} (h : Text.isDigit c = true) :
    isWordStart c = false := by
  rw [Bool.eq_false_iff]
  intro hstart
  -- The letters and the underscore are below 128, where the digits are those from 0 to 9.
  have hrange : c.toNat < 128 ∧ ¬('0' ≤ c ∧ c ≤ '9') := by
    rw [Char.le_def, Char.le_def, UInt32.le_iff_toNat_le, UInt32.le_iff_toNat_le]
    show c.val.toNat < 128 ∧ ¬(48 ≤ c.val.toNat ∧ c.val.toNat ≤ 57)
    rcases isWordStart_cases hstart with hupper | hlower | rfl
    · omega
    · omega
    · decide
  rw [Text.isDigit, Text.digitValue?, if_pos hrange.1, if_neg hrange.2] at h
  cases h

theorem nameLength_numeral (hw : isNumeral w = true) (rest : List Char) :
    nameLength (w ++ rest) = 0 := by
  obtain ⟨whole, hwhole, ⟨rfl, hne⟩ | ⟨ds, rfl, -, -⟩⟩ := isNumeral_cases hw
  · obtain ⟨c, cs, rfl⟩ := List.exists_cons_of_ne_nil hne
    exact nameLength_of_not (not_isWordStart_of_isDigit (hwhole c List.mem_cons_self)) _
  · cases whole with
    | nil => rfl
    | cons c cs =>
      exact nameLength_of_not (not_isWordStart_of_isDigit (hwhole c List.mem_cons_self)) _

/-- Where the parser allows it, a token before a space or the end is scanned as itself. -/
theorem scan_spelled {allowed : List Terminal} {t : Terminal} (ht : t ∈ allowed)
    (hw : t.spells w = true) (hreserved : t = .name → isReserved w = false)
    (hrest : ∀ c ∈ rest.head?, c = ' ') :
    scan allowed (w ++ rest) = some (.token t w.length) := by
  have hallowed : allowed.contains t = true := List.contains_iff_mem.2 ht
  rcases class_cases t with rfl | rfl | rfl | rfl | htext
  · have hne : w.length ≠ 0 := by
      cases w with
      | nil => cases hw
      | cons c cs => exact Nat.succ_ne_zero _
    rw [scan, hallowed, nameLength_before hw hrest, Bool.true_and, if_pos (bne_iff_ne.2 hne),
      List.take_left, wordTerminal_of_not (hreserved rfl)]
  · have hne : w.length ≠ 0 := by
      cases w with
      | nil => cases hw
      | cons c cs => exact Nat.succ_ne_zero _
    rw [scan, nameLength_numeral hw, numberLength_before hw hrest, hallowed, bne_self_eq_false,
      Bool.and_false, if_neg Bool.false_ne_true, Bool.true_and, if_pos (bne_iff_ne.2 hne)]
  · obtain ⟨tail, rfl, htail⟩ := spells_string hw
    have hname : nameLength ('"' :: tail ++ rest) = 0 := rfl
    have hnumber : numberLength ('"' :: tail ++ rest) = 0 := rfl
    have hstring : stringLength ('"' :: tail ++ rest) = tail.length + 1 := by
      rw [List.cons_append, stringLength, stringTail_before htail, Nat.add_comm]
    rw [scan, hname, hnumber, hstring, hallowed]
    simp
  · cases hw
  · rw [eq_text_of_spells hw htext, String.length_toList]
    exact scan_fixed ht htext hrest

end Lexeme

/-! ## Laying out -/

namespace Layout

open Terminal Lexeme

variable {s : State} {w : List Char}

theorem read_plain (hs : s.mode = .code) {c : Char} (hc : isPlain c = true) (ahead : List Char) :
    (s.read c ahead).1 = c ∧ (s.read c ahead).2.mode = .code := by
  obtain ⟨hcomment, hstring, hline⟩ := isPlain_iff.1 hc
  have hmode := mode_read s c ahead
  rw [hs, Mode.after, if_neg hcomment, if_neg hstring] at hmode
  refine ⟨?_, hmode⟩
  rw [State.read, hs]
  exact (readCode_fst s c ahead).resolve_right fun h => hline h.1

theorem separateFrom_plain (hs : s.mode = .code) (hw : ∀ c ∈ w, isPlain c = true)
    (rest : List Char) :
    ∃ s' : State, s'.mode = .code ∧ separateFrom s (w ++ rest) = w ++ separateFrom s' rest := by
  induction w generalizing s with
  | nil => exact ⟨s, hs, rfl⟩
  | cons c w ih =>
    obtain ⟨hwritten, hmode⟩ := read_plain hs (hw c List.mem_cons_self) (w ++ rest)
    obtain ⟨s', hs', hrest⟩ := ih hmode fun d hd => hw d (List.mem_cons_of_mem c hd)
    refine ⟨s', hs', ?_⟩
    rw [List.cons_append, separateFrom_cons, hwritten, hrest, List.cons_append]

theorem separateFrom_stringTail (hs : s.mode = .string) (hw : isStringTail w = true)
    (rest : List Char) :
    ∃ s' : State, s'.mode = .code ∧ separateFrom s (w ++ rest) = w ++ separateFrom s' rest := by
  fun_induction isStringTail w generalizing s with
  | case1 => cases hw
  | case2 => cases hw
  | case3 c cs ih =>
    rw [Bool.and_eq_true] at hw
    have hfirst : s.read '\\' (c :: (cs ++ rest)) = ('\\', { s with mode := .escape }) := by
      rw [State.read, hs]
      rfl
    obtain ⟨s', hs', hrest⟩ := @ih { s with mode := .string } rfl hw.2
    refine ⟨s', hs', ?_⟩
    rw [List.cons_append, List.cons_append, separateFrom_cons, hfirst, separateFrom_cons,
      List.cons_append, List.cons_append, ← hrest]
    rfl
  | case4 cs _ _ =>
    have hread : s.read '"' rest = ('"', { s with mode := .code, behind := '"' :: s.behind }) := by
      rw [State.read, hs]
      rfl
    rw [List.isEmpty_iff.1 hw]
    refine ⟨(s.read '"' rest).2, by rw [hread], ?_⟩
    rw [List.cons_append, List.nil_append, separateFrom_cons, hread]
    rfl
  | case5 c cs hlast hescape hquote ih =>
    have hc := ne_escape hlast hescape
    have hread : s.read c (cs ++ rest) = (c, s) := by
      rw [State.read, hs]
      dsimp only
      rw [if_neg hc, if_neg hquote]
    obtain ⟨s', hs', hrest⟩ := ih hs hw
    refine ⟨s', hs', ?_⟩
    rw [List.cons_append, separateFrom_cons, hread, hrest, List.cons_append]

theorem isPlain_of_spells {t : Terminal} (hw : t.spells w = true) (ht : t ≠ .string) :
    ∀ c ∈ w, isPlain c = true := by
  have hpart : ∀ c, isWordPart c = true → isPlain c = true := isPlain_of rfl rfl rfl
  have hdigit : ∀ c, Text.isDigit c = true → isPlain c = true := isPlain_of rfl rfl rfl
  rcases class_cases t with rfl | rfl | rfl | rfl | htext
  · cases w with
    | nil => cases hw
    | cons c cs =>
      rw [spells, isWord, Bool.and_eq_true, List.all_eq_true] at hw
      exact List.forall_mem_cons.2 ⟨hpart c (isWordPart_of_isWordStart hw.1),
        fun d hd => hpart d (hw.2 d hd)⟩
  · obtain ⟨whole, hwhole, ⟨rfl, -⟩ | ⟨ds, rfl, -, hds⟩⟩ := isNumeral_cases hw
    · exact fun c hc => hdigit c (hwhole c hc)
    · exact List.forall_mem_append.2 ⟨fun c hc => hdigit c (hwhole c hc),
        List.forall_mem_cons.2 ⟨rfl, fun c hc => hdigit c (hds c hc)⟩⟩
  · exact absurd rfl ht
  · cases hw
  · rw [eq_text_of_spells hw htext]
    exact isPlain_text t

/-- A token is written as it is. -/
theorem separateFrom_spelled (hs : s.mode = .code) {t : Terminal} (hw : t.spells w = true)
    (rest : List Char) :
    ∃ s' : State, s'.mode = .code ∧ separateFrom s (w ++ rest) = w ++ separateFrom s' rest := by
  by_cases ht : t = .string
  · subst ht
    obtain ⟨tail, rfl, htail⟩ := spells_string hw
    have hmode := mode_read s '"' (tail ++ rest)
    rw [hs] at hmode
    have hwritten : (s.read '"' (tail ++ rest)).1 = '"' := by
      rw [State.read, hs]
      exact (readCode_fst s '"' _).resolve_right fun h => absurd h.1 (by decide)
    obtain ⟨s', hs', hrest⟩ := separateFrom_stringTail hmode htail rest
    refine ⟨s', hs', ?_⟩
    rw [List.cons_append, separateFrom_cons, hwritten, hrest, List.cons_append]
  · exact separateFrom_plain hs (isPlain_of_spells hw ht) rest

/-- There is nothing to lay out in a spaced text. -/
theorem separateFrom_spaced (hs : s.mode = .code) {ts : List Token}
    (hts : ∀ t ∈ ts, t.isSpelled = true) :
    separateFrom s (Token.spaced ts) = Token.spaced ts := by
  induction ts generalizing s with
  | nil => rfl
  | cons t ts ih =>
    rw [List.forall_mem_cons] at hts
    rw [Token.spaced_cons]
    obtain ⟨s', hs', hrest⟩ := separateFrom_spelled hs hts.1 (Token.spacedRest ts)
    rw [hrest]
    cases ts with
    | nil => rfl
    | cons u us =>
      obtain ⟨hwritten, hmode⟩ := read_plain hs' (c := ' ') rfl (Token.spaced (u :: us))
      rw [Token.spacedRest, separateFrom_cons, hwritten, ih hmode hts.2]

theorem separate_spaced {ts : List Token} (hts : ∀ t ∈ ts, t.isSpelled = true) :
    separate (Token.spaced ts) = Token.spaced ts :=
  separateFrom_spaced rfl hts

end Layout

/-! ## Parsing -/

theorem ItemSet.mem_expected {q : ItemSet} {t : Terminal} (h : q.action t ≠ none) :
    t ∈ q.expected := by
  refine List.mem_filter.2 ⟨t.mem_all, ?_⟩
  rw [Bool.or_eq_true]
  by_cases hreads : q.reads (.leaf t) = true
  · exact .inl hreads
  · rw [ItemSet.action, if_neg hreads, ne_eq, Option.map_eq_none_iff] at h
    obtain ⟨p, hp⟩ := Option.ne_none_iff_exists'.1 h
    have hmem := List.mem_of_find?_eq_some hp
    have hlookahead := List.find?_some hp
    rw [decide_eq_true_eq] at hlookahead
    exact .inr (List.contains_iff_mem.2 (List.mem_flatMap.2 ⟨p, hmem, hlookahead⟩))

section Spaced

variable {q : ItemSet} {stack stack' : Stack q} {ts : List Token}
  {program : Tree (.branch .program)}

/-- What can be read is expected. -/
theorem mem_expected_of_settle {r : ItemSet} {t : Terminal} {below : Stack r}
    {h : r.reads (.leaf t) = true} (hsettle : settle t stack = .shift below h) :
    t ∈ q.expected := by
  refine ItemSet.mem_expected fun hnone => ?_
  rw [settle_eq_reject hnone] at hsettle
  cases hsettle

theorem parseFrom_spacedRest (offset : Nat) (stack : Stack q) (ts : List Token) :
    ∃ offset', parseFrom offset (Token.spacedRest ts) stack
      = parseFrom offset' (Token.spaced ts) stack := by
  cases ts with
  | nil => exact ⟨offset, rfl⟩
  | cons t ts => exact ⟨offset + 1, parseFrom_space stack offset _ rfl⟩

/-- At the end of a text, what no tokens lead to has been read, wherever the tokens before it
start. -/
theorem Stack.Derives.parseFrom_nil (h : stack.Derives [] program)
    (hstack : stack.bare = stack'.bare) (offset : Nat) :
    ∃ program', parseFrom offset [] stack' = .ok program' ∧ program'.bare = program.bare := by
  cases h with
  | finish hsettle =>
    have hbare := settle_bare_eq .finish hstack
    rw [hsettle] at hbare
    generalize hx : settle .finish stack' = x at hbare
    cases x with
    | accept program' _ =>
      injection hbare with hprogram
      exact ⟨program', parseFrom_eq_ok hx, hprogram.symm⟩
    | shift below hr => cases hbare
    | reject r => cases hbare

/-- A token that is scanned as itself wherever it is allowed is read, and what the tokens after
it lead to is the same. -/
theorem Stack.Derives.parseFrom_cons {t : Token} {cs : List Char}
    (h : stack.Derives (t :: ts) program) (hstack : stack.bare = stack'.bare)
    (hscan : ∀ allowed : List Terminal, t.terminal ∈ allowed →
      Lexeme.scan allowed (t.text.toList ++ cs) = some (.token t.terminal t.text.toList.length))
    (offset : Nat) :
    ∃ (r : ItemSet) (next next' : Stack r), next.Derives ts program ∧ next.bare = next'.bare ∧
      parseFrom offset (t.text.toList ++ cs) stack'
        = parseFrom (offset + t.text.toList.length) cs next' := by
  cases h with
  | @read _ r _ below _ _ _ hreads hsettle hrest =>
    have hbare := settle_bare_eq t.terminal hstack
    rw [hsettle] at hbare
    generalize hx : settle t.terminal stack' = x at hbare
    cases x with
    | accept program' _ => cases hbare
    | reject r => cases hbare
    | @shift r' below' hr =>
      have hread := hscan _ (mem_expected_of_settle hx)
      have hne : t.text.toList ++ cs ≠ [] := by
        intro hnil
        rw [hnil] at hread
        exact absurd (congrArg List.length (List.append_eq_nil_iff.1 hnil).1)
          (Lexeme.scan_length_ne_zero hread)
      obtain ⟨hstate, hbelow⟩ := Settled.shift.inj hbare
      subst hstate
      refine ⟨_, _, below'.push (.leaf t.terminal t.text offset), hrest, ?_, ?_⟩
      · rw [Stack.bare, Stack.bare, eq_of_heq hbelow, Tree.bare, Tree.bare]
      · rw [parseFrom_eq_shift hne hread hx, List.take_left, List.drop_left, String.ofList_toList]

/-- What tokens lead to, their spaced text leads to, wherever the tokens start. -/
theorem Stack.Derives.parseFrom_spaced (h : stack.Derives ts program)
    (hts : ∀ t ∈ ts, t.isSpelled = true)
    (hnames : ∀ t ∈ ts, t.terminal = .name → Terminal.isReserved t.text.toList = false)
    (hstack : stack.bare = stack'.bare) (offset : Nat) :
    ∃ program', parseFrom offset (Token.spaced ts) stack' = .ok program' ∧
      program'.bare = program.bare := by
  induction ts generalizing q offset with
  | nil => exact h.parseFrom_nil hstack offset
  | cons t ts ih =>
    rw [List.forall_mem_cons] at hts hnames
    rw [Token.spaced_cons]
    obtain ⟨r, next, next', hnext, hbare, hread⟩ := h.parseFrom_cons hstack
      (fun allowed ht => Lexeme.scan_spelled ht hts.1 hnames.1 (Token.head_spacedRest ts)) offset
    obtain ⟨offset', hoffset⟩ := parseFrom_spacedRest (offset + t.text.toList.length) next' ts
    rw [hread, hoffset]
    exact ih hnext hts.2 hnames.2 hbare offset'

end Spaced

end Mandate
