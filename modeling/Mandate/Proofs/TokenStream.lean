/-
  Mandate.Proofs.TokenStream

  The tokens that are listed for a source and the tokens that its parser reads.

  Tokens are listed with all terminals in competition, and read with those on which
  the parser can go on. So a token that is read can be shorter than the one that is
  listed: `a.5` after `print` is listed as a name and a number, and read as a name, a
  point and a number.

    * `Token.runsOn` tells of a token that is read whether the text after it would
      have made it longer. That can happen to a keyword before the part of a word, to
      a point before a digit and to `<` before `-`.
    * `Lexeme.scan_all_of_token` compares one token. Other marks could be cut short
      as well, but the parser never goes on after them (`Lexeme.scan_of_misfit`).
    * `tokens_agree_iff`: the two streams of a program are the same just if no token
      that is read runs on, and are the same up to the first one that does.
-/

import Mandate.Proofs.ReadableText
import Mandate.Proofs.SpacedText

namespace Mandate

/-! ## Tokens that run on -/

/-- Whether a token of a terminal would be longer, with `rest` after it, if all terminals were in
competition for it. -/
def Lexeme.runsOn (t : Terminal) (rest : List Char) : Bool :=
  rest.head?.any fun c =>
    t.isKeyword && isWordPart c || t == .dot && Text.isDigit c || t == .less && c == '-'

/-- Whether a token of a text would be longer if all terminals were in competition for it. -/
def Token.runsOn (text : List Char) (t : Token) : Bool :=
  Lexeme.runsOn t.terminal (text.drop t.stop)

/-- The text of a token and where it stands. -/
def Token.cut (t : Token) : String × Nat × Nat := (t.text, t.start, t.stop)

/-- A token of a text that is a word, if it starts like one, and then all of the word. -/
def Token.Whole (text : List Char) (t : Token) : Prop :=
  ∀ c ∈ t.text.toList.head?, isWordStart c = true →
    t.text.toList = Layout.leadingWord (text.drop t.start)

/-- Whether a character would make another mark of a mark, one that cannot be meant: nothing that
comes after the mark starts with it. -/
def Terminal.misfit : Terminal → Char → Bool
  | .less, '=' | .more, '=' | .equal, '>' | .minus, '>' => true
  | _, _ => false

/-! ## What comes after a symbol -/

namespace ItemSet

/-- The items of all states that are entered by reading a symbol. -/
def entered (s : Symbol) : ItemSet := close (before s <<< 1)

theorem and_ne_zero_of_subset {a b k : Nat} (hab : ∀ i, a.testBit i = true → b.testBit i = true)
    (h : a &&& k ≠ 0) : b &&& k ≠ 0 := by
  obtain ⟨i, hi⟩ := Nat.exists_testBit_of_ne_zero h
  rw [Nat.testBit_and, Bool.and_eq_true] at hi
  intro hzero
  have hbit : (b &&& k).testBit i = true := by
    rw [Nat.testBit_and, hab i hi.1, hi.2]
    rfl
  rw [hzero, Nat.zero_testBit] at hbit
  cases hbit

/-- Closing a larger set gives a larger state. -/
theorem testBit_close_of_subset {a b i : Nat}
    (hab : ∀ i, a.testBit i = true → b.testBit i = true)
    (h : (close a).bits.testBit i = true) : (close b).bits.testBit i = true := by
  rw [testBit_close_eq, Bool.or_eq_true, List.any_eq_true] at h ⊢
  rcases h with h | ⟨n, hn, h⟩
  · exact .inl (hab i h)
  · rw [Bool.and_eq_true, bne_iff_ne] at h
    refine .inr ⟨n, hn, ?_⟩
    rw [Bool.and_eq_true, bne_iff_ne]
    exact ⟨and_ne_zero_of_subset hab h.1, h.2⟩

theorem testBit_entered {q : ItemSet} {s : Symbol} {i : Nat}
    (h : (q.goto s).bits.testBit i = true) : (entered s).bits.testBit i = true := by
  refine testBit_close_of_subset (fun j hj => ?_) h
  rw [Nat.testBit_shiftLeft, Nat.testBit_and, Bool.and_eq_true, Bool.and_eq_true] at hj
  rw [Nat.testBit_shiftLeft, Bool.and_eq_true]
  exact ⟨hj.1, hj.2.2⟩

theorem lookahead_subset {q : ItemSet} {p : Production} {t : Terminal} (h : t ∈ q.lookahead p) :
    t ∈ p.lhs.follow := by
  unfold lookahead at h
  dsimp only at h
  split at h
  · exact (List.mem_filter.1 h).1
  split at h
  · exact (List.mem_filter.1 h).1
  · exact h

/-- Whether some state can go on with a terminal right after a symbol is read. -/
def mayGoOn (s : Symbol) (t : Terminal) : Bool :=
  (entered s).reads (.leaf t) || (entered s).complete.any fun p => p.lhs.follow.contains t

theorem mayGoOn_of_expected {q : ItemSet} {s : Symbol} {t : Terminal}
    (h : t ∈ (q.goto s).expected) : mayGoOn s t = true := by
  have hgoes := (List.mem_filter.1 h).2
  rw [Bool.or_eq_true] at hgoes
  rw [mayGoOn, Bool.or_eq_true]
  rcases hgoes with hreads | hreduced
  · left
    rw [reads, bne_iff_ne] at hreads ⊢
    exact and_ne_zero_of_subset (fun _ => testBit_entered) hreads
  · right
    obtain ⟨p, hp, ht⟩ := List.mem_flatMap.1 (List.contains_iff_mem.1 hreduced)
    obtain ⟨hall, hcomplete⟩ := List.mem_filter.1 hp
    refine List.any_eq_true.2 ⟨p, List.mem_filter.2 ⟨hall, testBit_entered hcomplete⟩, ?_⟩
    exact List.contains_iff_mem.2 (lookahead_subset ht)

/-- Nothing that comes after a mark starts with a misfit. -/
theorem head_text_of_expected {q : ItemSet} {t u : Terminal} {c : Char} (hc : t.misfit c = true)
    (hu : u ∈ (q.goto (.leaf t)).expected) : u.text.toList.head? ≠ some c := by
  have key : (Terminal.all.all fun t => Terminal.all.all fun u =>
      !mayGoOn (.leaf t) u || !u.text.toList.head?.any t.misfit) = true := by decide +kernel
  have hpair := List.all_eq_true.1 (List.all_eq_true.1 key t t.mem_all) u u.mem_all
  rw [mayGoOn_of_expected hu, Bool.not_true, Bool.false_or, Bool.not_eq_true'] at hpair
  intro hhead
  rw [hhead, Option.any_some, hc] at hpair
  cases hpair

end ItemSet

/-! ## Scanning marks -/

namespace Lexeme

section Marks

variable {c : Char} {cs : List Char} {ts allowed : List Terminal} {t u : Terminal}

theorem longestFixed_eq_none (h : ∀ t ∈ ts, fixedLength t cs = 0) : longestFixed cs ts = none := by
  induction ts with
  | nil => rfl
  | cons t ts ih =>
    have ht := h t List.mem_cons_self
    rw [longestFixed, ih fun u hu => h u (List.mem_cons_of_mem t hu)]
    exact if_pos ht

/-- The fixed text that is chosen is the longest one. -/
theorem fixedLength_le_of_longestFixed (h : longestFixed cs ts = some u) (ht : t ∈ ts) :
    fixedLength t cs ≤ u.text.length := by
  induction ts generalizing u with
  | nil => cases ht
  | cons v vs ih =>
    have hv := fixedLength_le v cs
    unfold longestFixed at h
    split at h
    · next hnone =>
      split at h
      · cases h
      · cases h
        rcases List.mem_cons.1 ht with rfl | hvs
        · exact hv
        · have hzero : fixedLength t cs = 0 :=
            Decidable.byContradiction fun hne => longestFixed_ne_none hvs hne hnone
          omega
    · next best hbest =>
      split at h
      · cases h
        rcases List.mem_cons.1 ht with rfl | hvs
        · exact hv
        · have hle := ih hbest hvs
          omega
      · cases h
        rcases List.mem_cons.1 ht with rfl | hvs
        · omega
        · exact ih hbest hvs

/-- A character that starts no word, number, string or gap is scanned as a fixed text. -/
theorem scan_of_mark (hword : isWordStart c = false) (hnumber : numberLength (c :: cs) = 0)
    (hquote : c ≠ '"') (hspace : isSpace c = false) (hcomment : c ≠ '#') :
    scan allowed (c :: cs) =
      (longestFixed (c :: cs) (fixed allowed)).map fun t => .token t t.text.length := by
  have hblank : spaceLength (c :: cs) = 0 := spaceLength_of_not (by rw [hspace]; decide) cs
  simp [scan, nameLength_of_not hword, hnumber, stringLength_of_ne hquote, hblank,
    commentLength_of_ne hcomment]

/-- After a mark, a misfit ends the parse. -/
theorem scan_of_misfit {q : ItemSet} (hc : t.misfit c = true) :
    scan (q.goto (.leaf t)).expected (c :: cs) = none := by
  have hcases : c = '=' ∨ c = '>' := by
    unfold Terminal.misfit at hc
    split at hc
    · exact .inl rfl
    · exact .inl rfl
    · exact .inr rfl
    · exact .inr rfl
    · cases hc
  have hnone : longestFixed (c :: cs) (fixed (q.goto (.leaf t)).expected) = none := by
    apply longestFixed_eq_none
    intro u hu
    obtain ⟨hexpected, htext⟩ := List.mem_filter.1 hu
    rw [Bool.and_eq_true, bne_iff_ne] at htext
    refine Decidable.byContradiction fun hlength => ?_
    have hprefix := List.isPrefixOf_iff_prefix.1 (isPrefixOf_of_fixedLength hlength)
    apply ItemSet.head_text_of_expected hc hexpected
    cases hlist : u.text.toList with
    | nil => exact absurd (by simpa using hlist) htext.1
    | cons d ds =>
      rw [hlist] at hprefix
      rw [List.head?_cons, (List.cons_prefix_cons.1 hprefix).1]
  rcases hcases with rfl | rfl
  · rw [scan_of_mark (by decide) rfl (by decide) (by decide) (by decide), hnone]
    rfl
  · rw [scan_of_mark (by decide) rfl (by decide) (by decide) (by decide), hnone]
    rfl

end Marks

/-! ## One token -/

section Token

variable {cs : List Char} {allowed : List Terminal} {t : Terminal} {n : Nat}

theorem head_drop_nameLength (h : nameLength cs ≠ 0) :
    ∀ c ∈ (cs.drop (nameLength cs)).head?, isWordPart c = false := by
  cases cs with
  | nil => exact absurd rfl h
  | cons d ds =>
    have hstart : isWordStart d = true := by
      rw [← Bool.not_eq_false]
      exact fun hnot => h (nameLength_of_not hnot ds)
    have hword : nameLength (d :: ds) = ((d :: ds).takeWhile isWordPart).length := by
      rw [nameLength, Layout.leadingWord, if_pos hstart]
    intro c hc
    rw [hword, drop_takeWhile, Option.mem_def] at hc
    have hnot := List.head?_dropWhile_not isWordPart (d :: ds)
    rw [hc] at hnot
    simpa using hnot

theorem wordTerminal_cases (allowed : List Terminal) (w : List Char) :
    (wordTerminal allowed w).isKeyword = true ∨ wordTerminal allowed w = .name := by
  unfold wordTerminal
  cases hfind : allowed.find? fun t => t.isKeyword && t.text.toList == w with
  | none => exact .inr rfl
  | some t =>
    have ht := List.find?_some hfind
    exact .inl (Bool.and_eq_true_iff.1 ht).1

theorem nameLength_of_numberLength (h : numberLength cs ≠ 0) : nameLength cs = 0 := by
  cases cs with
  | nil => rfl
  | cons c cs =>
    by_cases hdigit : Text.isDigit c = true
    · exact nameLength_of_not (not_isWordStart_of_isDigit hdigit) cs
    · rw [numberLength_of_not (eq_false_of_ne_true hdigit)] at h
      by_cases hdot : c = '.'
      · rw [hdot]
        rfl
      · exact absurd (SameFront.fractionLength_of_ne hdot cs) h

theorem scan_all_word (h : nameLength cs ≠ 0) : scan Terminal.all cs =
    some (.token (wordTerminal Terminal.all (cs.take (nameLength cs))) (nameLength cs)) := by
  have hall : Terminal.all.contains .name = true := by decide
  rw [scan, hall, Bool.true_and, if_pos (bne_iff_ne.2 h)]

theorem scan_all_number (h : numberLength cs ≠ 0) :
    scan Terminal.all cs = some (.token .number (numberLength cs)) := by
  have hall : Terminal.all.contains .number = true := by decide
  rw [scan, nameLength_of_numberLength h, hall, bne_self_eq_false, Bool.and_false,
    if_neg Bool.false_ne_true, Bool.true_and, if_pos (bne_iff_ne.2 h)]

theorem nameLength_of_stringLength (h : stringLength cs ≠ 0) : nameLength cs = 0 := by
  cases cs with
  | nil => rfl
  | cons c cs =>
    by_cases hc : c = '"'
    · rw [hc]
      rfl
    · exact absurd (stringLength_of_ne hc cs) h

theorem scan_all_string (h : stringLength cs ≠ 0) :
    scan Terminal.all cs = some (.token .string (stringLength cs)) := by
  cases cs with
  | nil => exact absurd rfl h
  | cons c cs =>
    by_cases hc : c = '"'
    · subst hc
      have hall : Terminal.all.contains .string = true := by decide
      have hname : nameLength ('"' :: cs) = 0 := rfl
      have hnumber : numberLength ('"' :: cs) = 0 := rfl
      rw [scan, hname, hnumber, hall, bne_self_eq_false, Bool.and_false, Bool.and_false,
        if_neg Bool.false_ne_true, if_neg Bool.false_ne_true, Bool.true_and,
        if_pos (bne_iff_ne.2 h)]
    · exact absurd (stringLength_of_ne hc cs) h

/-- A gap is one whatever is allowed. -/
theorem scan_all_of_gap (h : scan allowed cs = some (.gap n)) :
    scan Terminal.all cs = some (.gap n) := by
  cases cs with
  | nil => exact absurd (Nat.le_zero.1 (scan_length_le h)) (scan_length_ne_zero h)
  | cons c cs =>
    by_cases hspace : isSpace c = true
    · rw [scan_space hspace] at h ⊢
      exact h
    by_cases hcomment : c = '#'
    · rw [hcomment, scan_comment] at h ⊢
      exact h
    · exact absurd h (scan_ne_gap hcomment hspace cs allowed n)

/-- A word is read up to where no part of a word comes next. -/
theorem nameLength_append {w : List Char} (hw : Terminal.isWord w = true) (rest : List Char) :
    nameLength (w ++ rest) = w.length + (rest.takeWhile isWordPart).length := by
  cases w with
  | nil => cases hw
  | cons c cs =>
    rw [Terminal.isWord, Bool.and_eq_true, List.all_eq_true] at hw
    have hpart : ∀ d ∈ c :: cs, isWordPart d = true :=
      List.forall_mem_cons.2 ⟨isWordPart_of_isWordStart hw.1, hw.2⟩
    have hword : Layout.leadingWord (c :: cs ++ rest) = (c :: cs ++ rest).takeWhile isWordPart :=
      if_pos hw.1
    rw [nameLength, hword, List.takeWhile_append_of_pos hpart, List.length_append]

theorem runsOn_keyword (hkey : t.isKeyword = true) (rest : List Char) :
    runsOn t rest = rest.head?.any isWordPart := by
  have hdot : (t == .dot) = false := by revert hkey; cases t <;> decide
  have hless : (t == .less) = false := by revert hkey; cases t <;> decide
  simp [runsOn, hkey, hdot, hless]

theorem append_drop_of_longestFixed {ts : List Terminal} (h : longestFixed cs ts = some t) :
    t.text.toList ++ cs.drop t.text.length = cs := by
  rw [← take_of_longestFixed h, List.take_append_drop]

theorem nameLength_keyword {ts : List Terminal} (h : longestFixed cs ts = some t)
    (hkey : t.isKeyword = true) : nameLength cs =
      t.text.length + ((cs.drop t.text.length).takeWhile isWordPart).length := by
  have happend := nameLength_append (isWord_text hkey) (cs.drop t.text.length)
  rwa [append_drop_of_longestFixed h, String.length_toList] at happend

/-- A keyword where no names are allowed, beside the word that all terminals make of it. -/
theorem scan_all_of_keyword {ts : List Terminal} (h : longestFixed cs ts = some t)
    (hkey : t.isKeyword = true) :
    ∃ u k, scan Terminal.all cs = some (.token u k) ∧ t.text.length ≤ k ∧
      (t.text.length < k ↔ runsOn t (cs.drop t.text.length) = true) := by
  have hlength := nameLength_keyword h hkey
  have htext := longestFixed_text h
  refine ⟨_, _, scan_all_word (by omega), by omega, ?_⟩
  rw [runsOn_keyword hkey, hlength]
  cases cs.drop t.text.length with
  | nil => simp
  | cons c rest =>
    by_cases hc : isWordPart c = true
    · simp [hc]
    · simp [hc]

/-- The marks that can be cut short, with what is cut off. -/
theorem longer_mark {u : Terminal} (hfront : t.text.toList <+: u.text.toList) (htext : t.text ≠ "")
    (hkey : t.isKeyword = false) (hlt : t.text.length < u.text.length) :
    (u.text.toList.drop t.text.length).head?.any
      (fun c => t == .less && c == '-' || t.misfit c) = true := by
  have key : (Terminal.all.all fun t => Terminal.all.all fun u =>
      !t.text.toList.isPrefixOf u.text.toList || t.text == "" || t.isKeyword ||
      decide (u.text.length ≤ t.text.length) ||
      (u.text.toList.drop t.text.length).head?.any
        fun c => t == .less && c == '-' || t.misfit c) = true := by
    decide +kernel
  have hpair := List.all_eq_true.1 (List.all_eq_true.1 key t t.mem_all) u u.mem_all
  simpa [List.isPrefixOf_iff_prefix.2 hfront, htext, hkey, Nat.not_le.2 hlt] using hpair

/-- What comes after some characters, as far as a fixed text at the front tells. -/
theorem head_drop_of_front {u : Terminal} (hu : u.text.toList <+: cs)
    (hlt : n < u.text.length) : (cs.drop n).head? = (u.text.toList.drop n).head? := by
  obtain ⟨rest, rfl⟩ := hu
  rw [List.head?_drop, List.head?_drop, List.getElem?_append_left]
  rwa [String.length_toList]

theorem mem_fixed_all (htext : t.text ≠ "") (hkey : t.isKeyword = false) :
    t ∈ fixed Terminal.all := by
  rw [fixed, List.mem_filter]
  refine ⟨t.mem_all, ?_⟩
  rw [hkey, Bool.and_false, Bool.not_false, Bool.and_true]
  exact bne_iff_ne.2 htext

/-- Of two fixed texts at the front of a text, the one that is not longer is at the front of the
other. -/
theorem text_front {u : Terminal} (ht : t.text.toList <+: cs) (hu : u.text.toList <+: cs)
    (hle : t.text.length ≤ u.text.length) : t.text.toList <+: u.text.toList := by
  refine List.prefix_of_prefix_length_le ht hu ?_
  rwa [String.length_toList, String.length_toList]

/-- A `-` after `<` makes an arrow of it. -/
theorem next_of_longestFixed_less (h : longestFixed cs (fixed Terminal.all) = some .less) :
    (cs.drop Terminal.less.text.length).head? ≠ some '-' := by
  intro hnext
  obtain ⟨rest, hrest⟩ := List.head?_eq_some_iff.1 hnext
  have harrow : Terminal.assignArrow.text.toList <+: cs := by
    rw [← append_drop_of_longestFixed h, hrest]
    exact ⟨rest, rfl⟩
  have hlonger := fixedLength_le_of_longestFixed h (t := .assignArrow) (by decide)
  rw [fixedLength, if_pos (List.isPrefixOf_iff_prefix.2 harrow)] at hlonger
  exact absurd hlonger (by decide)

/-- A mark beside the one that all terminals make of it. -/
theorem longestFixed_all {ts : List Terminal} (h : longestFixed cs ts = some t)
    (hkey : t.isKeyword = false) :
    ∃ u, longestFixed cs (fixed Terminal.all) = some u ∧
      (u = t ∧ (t = .less → (cs.drop t.text.length).head? ≠ some '-') ∨
        t.text.length < u.text.length ∧ (cs.drop t.text.length).head?.any
          (fun c => t == .less && c == '-' || t.misfit c) = true) := by
  have htext : t.text ≠ "" := fun hempty => longestFixed_text h (by rw [hempty]; rfl)
  have hfront := List.isPrefixOf_iff_prefix.1 (isPrefixOf_of_longestFixed h)
  have hfixed : fixedLength t cs = t.text.length := if_pos (isPrefixOf_of_longestFixed h)
  have hmem := mem_fixed_all htext hkey
  have hchosen : longestFixed cs (fixed Terminal.all) ≠ none :=
    longestFixed_ne_none hmem (by rw [hfixed]; exact longestFixed_text h)
  obtain ⟨u, hu⟩ := Option.ne_none_iff_exists'.1 hchosen
  have hufront := List.isPrefixOf_iff_prefix.1 (isPrefixOf_of_longestFixed hu)
  have hle : t.text.length ≤ u.text.length := by
    rw [← hfixed]
    exact fixedLength_le_of_longestFixed hu hmem
  refine ⟨u, hu, ?_⟩
  by_cases hlt : t.text.length < u.text.length
  · -- The longer mark starts with the shorter one, and what it adds comes next in the text.
    refine .inr ⟨hlt, ?_⟩
    rw [head_drop_of_front hufront hlt]
    exact longer_mark (text_front hfront hufront hle) htext hkey hlt
  · have hsame : t.text.toList = u.text.toList := by
      apply (text_front hfront hufront hle).eq_of_length
      rw [String.length_toList, String.length_toList]
      omega
    have htu : t = u := text_injective hsame htext
    refine .inl ⟨htu.symm, fun hless => ?_⟩
    subst hless
    rw [← htu] at hu
    exact next_of_longestFixed_less hu

/-- A point starts a number just if a digit comes next. -/
theorem numberLength_point (rest : List Char) :
    rest.head?.any Text.isDigit = false ∧ numberLength ('.' :: rest) = 0 ∨
      rest.head?.any Text.isDigit = true ∧ 1 < numberLength ('.' :: rest) := by
  rw [numberLength_of_not (by decide)]
  cases rest with
  | nil => exact .inl ⟨rfl, rfl⟩
  | cons d ds =>
    rw [List.head?_cons, Option.any_some]
    by_cases hd : Text.isDigit d = true
    · have hdigits : digitsLength (d :: ds) = digitsLength ds + 1 := by
        rw [digitsLength, List.takeWhile_cons_of_pos hd]
        rfl
      refine .inr ⟨hd, ?_⟩
      rw [fractionLength, hdigits, if_neg (Nat.succ_ne_zero _)]
      omega
    · have hdigits : digitsLength (d :: ds) = 0 := by
        rw [digitsLength, List.takeWhile_cons_of_neg hd]
        rfl
      refine .inl ⟨eq_false_of_ne_true hd, ?_⟩
      rw [fractionLength, hdigits, if_pos rfl]

/-- A point that is scanned as a mark is one if no digit comes next. -/
theorem numberLength_of_mark {ts : List Terminal} (h : longestFixed cs ts = some t) :
    numberLength cs = 0 ∧ (t = .dot → (cs.drop t.text.length).head?.any Text.isDigit = false) ∨
      t = .dot ∧ t.text.length < numberLength cs ∧
        (cs.drop t.text.length).head?.any Text.isDigit = true := by
  have hcs := append_drop_of_longestFixed h
  by_cases hdot : t = .dot
  · subst hdot
    have hpoint : numberLength cs = numberLength ('.' :: cs.drop Terminal.dot.text.length) :=
      congrArg numberLength hcs.symm
    rw [hpoint]
    rcases numberLength_point (cs.drop Terminal.dot.text.length) with ⟨hnext, hzero⟩ | ⟨hnext, hlt⟩
    · exact .inl ⟨hzero, fun _ => hnext⟩
    · exact .inr ⟨rfl, hlt, hnext⟩
  · refine .inl ⟨?_, fun ht => absurd ht hdot⟩
    cases hlist : t.text.toList with
    | nil => exact absurd (by simpa using hlist) (longestFixed_text h)
    | cons c w =>
      obtain ⟨hdigit, -, -, -, hpoint, -⟩ := head_text hlist
      rw [← hcs, hlist, List.cons_append, numberLength_of_not hdigit]
      exact SameFront.fractionLength_of_ne (fun hc => hdot (hpoint hc)) _

theorem runsOn_mark (hkey : t.isKeyword = false) (rest : List Char) : runsOn t rest =
    rest.head?.any fun c => t == .dot && Text.isDigit c || t == .less && c == '-' := by
  simp [runsOn, hkey]

/-- Where a mark is allowed and no number starts, all terminals make a fixed text of it. -/
theorem scan_all_fixed {ts : List Terminal} (h : longestFixed cs ts = some t)
    (hkey : t.isKeyword = false) (hnumber : numberLength cs = 0) :
    scan Terminal.all cs =
      (longestFixed cs (fixed Terminal.all)).map fun u => .token u u.text.length := by
  cases hlist : t.text.toList with
  | nil => exact absurd (by simpa using hlist) (longestFixed_text h)
  | cons c w =>
    obtain ⟨-, hquote, hcomment, hspace, -, hword⟩ := head_text hlist
    have hcs := append_drop_of_longestFixed h
    rw [hlist, List.cons_append] at hcs
    rw [← hcs] at hnumber ⊢
    exact scan_of_mark (hword hkey) hnumber hquote hspace hcomment

/-- A mark beside the token that all terminals make of it. -/
theorem scan_all_of_mark {ts : List Terminal} (h : longestFixed cs ts = some t)
    (hkey : t.isKeyword = false) :
    ∃ u k, scan Terminal.all cs = some (.token u k) ∧
      (k = t.text.length ∧ runsOn t (cs.drop t.text.length) = false ∨
        t.text.length < k ∧ (runsOn t (cs.drop t.text.length) = true ∨
          (cs.drop t.text.length).head?.any t.misfit = true)) := by
  rw [runsOn_mark hkey]
  rcases numberLength_of_mark h with ⟨hnumber, hdot⟩ | ⟨hdot, hlt, hdigit⟩
  · obtain ⟨u, hu, hcompare⟩ := longestFixed_all h hkey
    have hscan : scan Terminal.all cs = some (.token u u.text.length) := by
      rw [scan_all_fixed h hkey hnumber, hu]
      rfl
    refine ⟨u, _, hscan, ?_⟩
    cases hnext : (cs.drop t.text.length).head? with
    | none =>
      rw [hnext] at hcompare
      rcases hcompare with ⟨rfl, -⟩ | ⟨-, hany⟩
      · exact .inl ⟨rfl, rfl⟩
      · cases hany
    | some c =>
      rw [hnext] at hcompare hdot
      rw [Option.any_some, Option.any_some]
      rcases hcompare with ⟨rfl, hless⟩ | ⟨hlt, hany⟩
      · refine .inl ⟨rfl, ?_⟩
        rw [Bool.or_eq_false_iff, Bool.and_eq_false_iff, Bool.and_eq_false_iff]
        by_cases hd : u = .dot
        · exact ⟨.inr (hdot hd), .inl (by rw [hd]; rfl)⟩
        by_cases hl : u = .less
        · have hdash : (c == '-') = false := beq_eq_false_iff_ne.2 fun hc => hless hl (by rw [hc])
          exact ⟨.inl (by rw [hl]; rfl), .inr hdash⟩
        · exact ⟨.inl (beq_eq_false_iff_ne.2 hd), .inl (beq_eq_false_iff_ne.2 hl)⟩
      · rw [Option.any_some, Bool.or_eq_true] at hany
        refine .inr ⟨hlt, hany.imp_left fun harrow => ?_⟩
        rw [harrow, Bool.or_true]
  · refine ⟨.number, _, scan_all_number (by omega), .inr ⟨hlt, .inl ?_⟩⟩
    cases hnext : (cs.drop t.text.length).head? with
    | none =>
      rw [hnext] at hdigit
      cases hdigit
    | some c =>
      rw [hnext, Option.any_some] at hdigit
      rw [Option.any_some, hdigit, hdot]
      rfl

/-- The kinds of tokens. -/
theorem token_of_scan (h : scan allowed cs = some (.token t n)) :
    nameLength cs ≠ 0 ∧ n = nameLength cs ∧ (t.isKeyword = true ∨ t = .name) ∨
      numberLength cs ≠ 0 ∧ n = numberLength cs ∧ t = .number ∨
      stringLength cs ≠ 0 ∧ n = stringLength cs ∧ t = .string ∨
      longestFixed cs (fixed allowed) = some t ∧ n = t.text.length := by
  unfold scan at h
  split at h
  · next hname =>
    cases h
    rw [Bool.and_eq_true, bne_iff_ne] at hname
    exact .inl ⟨hname.2, rfl, wordTerminal_cases allowed _⟩
  split at h
  · next hnumber =>
    cases h
    rw [Bool.and_eq_true, bne_iff_ne] at hnumber
    exact .inr (.inl ⟨hnumber.2, rfl, rfl⟩)
  split at h
  · next hstring =>
    cases h
    rw [Bool.and_eq_true, bne_iff_ne] at hstring
    exact .inr (.inr (.inl ⟨hstring.2, rfl, rfl⟩))
  split at h
  · cases h
  split at h
  · cases h
  · obtain ⟨u, hu, heq⟩ := Option.map_eq_some_iff.1 h
    cases heq
    exact .inr (.inr (.inr ⟨hu, rfl⟩))

theorem runsOn_of_not {rest : List Char}
    (hkey : t.isKeyword = true → rest.head?.any isWordPart = false) (hdot : t ≠ .dot)
    (hless : t ≠ .less) : runsOn t rest = false := by
  cases hk : t.isKeyword with
  | true => rw [runsOn_keyword hk, hkey hk]
  | false =>
    rw [runsOn_mark hk, beq_eq_false_iff_ne.2 hdot, beq_eq_false_iff_ne.2 hless]
    cases rest.head? with
    | none => rfl
    | some c => rfl

theorem runsOn_word (h : nameLength cs ≠ 0) (ht : t.isKeyword = true ∨ t = .name) :
    runsOn t (cs.drop (nameLength cs)) = false := by
  have hnext := head_drop_nameLength h
  apply runsOn_of_not
  · intro _
    cases hhead : (cs.drop (nameLength cs)).head? with
    | none => rfl
    | some c => exact hnext c hhead
  · rintro rfl
    rcases ht with ht | ht <;> cases ht
  · rintro rfl
    rcases ht with ht | ht <;> cases ht

/-- A token beside the one that all terminals make of the same text. -/
theorem scan_all_of_token (h : scan allowed cs = some (.token t n)) :
    ∃ u k, scan Terminal.all cs = some (.token u k) ∧
      (k = n ∧ runsOn t (cs.drop n) = false ∨
        n < k ∧ (runsOn t (cs.drop n) = true ∨ (cs.drop n).head?.any t.misfit = true)) := by
  rcases token_of_scan h with ⟨hname, rfl, ht⟩ | ⟨hnumber, rfl, rfl⟩ | ⟨hstring, rfl, rfl⟩ |
    ⟨hfixed, rfl⟩
  · exact ⟨_, _, scan_all_word hname, .inl ⟨rfl, runsOn_word hname ht⟩⟩
  · exact ⟨_, _, scan_all_number hnumber, .inl ⟨rfl, runsOn_of_not nofun nofun nofun⟩⟩
  · exact ⟨_, _, scan_all_string hstring, .inl ⟨rfl, runsOn_of_not nofun nofun nofun⟩⟩
  · cases hkey : t.isKeyword with
    | true =>
      obtain ⟨u, k, hscan, hle, hruns⟩ := scan_all_of_keyword hfixed hkey
      refine ⟨u, k, hscan, ?_⟩
      by_cases hlt : t.text.length < k
      · exact .inr ⟨hlt, .inl (hruns.1 hlt)⟩
      · exact .inl ⟨by omega, eq_false_of_ne_true fun hon => hlt (hruns.2 hon)⟩
    | false => exact scan_all_of_mark hfixed hkey

/-- A token takes all of the word that a text starts with, unless it is a keyword that runs on. -/
theorem nameLength_of_scan (h : scan allowed cs = some (.token t n)) :
    nameLength cs = 0 ∧ t.isKeyword = false ∨
      nameLength cs ≠ 0 ∧ n = nameLength cs ∧ runsOn t (cs.drop n) = false ∨
      nameLength cs ≠ 0 ∧ n < nameLength cs ∧ t.isKeyword = true ∧ runsOn t (cs.drop n) = true := by
  rcases token_of_scan h with ⟨hname, rfl, ht⟩ | ⟨hnumber, rfl, rfl⟩ | ⟨hstring, rfl, rfl⟩ |
    ⟨hfixed, rfl⟩
  · exact .inr (.inl ⟨hname, rfl, runsOn_word hname ht⟩)
  · exact .inl ⟨nameLength_of_numberLength hnumber, rfl⟩
  · exact .inl ⟨nameLength_of_stringLength hstring, rfl⟩
  · have hcs := append_drop_of_longestFixed hfixed
    cases hkey : t.isKeyword with
    | false =>
      left
      refine ⟨?_, rfl⟩
      cases hlist : t.text.toList with
      | nil => exact absurd (by simpa using hlist) (longestFixed_text hfixed)
      | cons c w =>
        rw [hlist, List.cons_append] at hcs
        rw [← hcs]
        exact nameLength_of_not ((head_text hlist).2.2.2.2.2 hkey) _
    | true =>
      right
      have hlength := nameLength_keyword hfixed hkey
      have htext := longestFixed_text hfixed
      obtain ⟨u, k, hscan, hle, hruns⟩ := scan_all_of_keyword hfixed hkey
      have hname : nameLength cs ≠ 0 := by omega
      rw [scan_all_word hname] at hscan
      cases hscan
      by_cases hlt : t.text.length < nameLength cs
      · exact .inr ⟨hname, hlt, rfl, hruns.1 hlt⟩
      · exact .inl ⟨hname, by omega, eq_false_of_ne_true fun hon => hlt (hruns.2 hon)⟩

end Token

end Lexeme

/-! ## Listing and reading -/

section Streams

variable {offset n : Nat} {cs text : List Char} {t : Token} {ts us : List Token}

theorem tokensFrom_eq_gap (hcs : cs ≠ [])
    (hscan : Lexeme.scan Terminal.all cs = some (.gap n)) :
    tokensFrom offset cs = tokensFrom (offset + n) (cs.drop n) := by
  rw [tokensFrom]
  simp only [hcs, ↓reduceDIte]
  split
  · next h' =>
    cases hscan.symm.trans h'
    rfl
  · next h' => cases hscan.symm.trans h'
  · next h' => cases hscan.symm.trans h'

theorem tokensFrom_eq_token {t : Terminal} (hcs : cs ≠ [])
    (hscan : Lexeme.scan Terminal.all cs = some (.token t n)) :
    tokensFrom offset cs = (tokensFrom (offset + n) (cs.drop n)).map
      (⟨t, String.ofList (cs.take n), offset⟩ :: ·) := by
  rw [tokensFrom]
  simp only [hcs, ↓reduceDIte]
  split
  · next h' => cases hscan.symm.trans h'
  · next h' =>
    cases hscan.symm.trans h'
    rfl
  · next h' => cases hscan.symm.trans h'

theorem exists_of_tokensFrom {t : Terminal} (hcs : cs ≠ [])
    (hscan : Lexeme.scan Terminal.all cs = some (.token t n)) (h : tokensFrom offset cs = .ok ts) :
    ∃ rest, tokensFrom (offset + n) (cs.drop n) = .ok rest ∧
      ts = ⟨t, String.ofList (cs.take n), offset⟩ :: rest := by
  rw [tokensFrom_eq_token hcs hscan] at h
  cases hrest : tokensFrom (offset + n) (cs.drop n) with
  | error p =>
    rw [hrest] at h
    cases h
  | ok rest =>
    rw [hrest] at h
    cases h
    exact ⟨rest, rfl, rfl⟩

theorem Lexeme.length_taken {allowed : List Terminal} {t : Terminal}
    (h : Lexeme.scan allowed cs = some (.token t n)) : (String.ofList (cs.take n)).length = n := by
  have hle : n ≤ cs.length := Lexeme.scan_length_le h
  rw [String.length_ofList, List.length_take, Nat.min_eq_left hle]

/-- A token of a text that is scanned with some terminals. -/
def Token.ScannedIn (text : List Char) (allowed : List Terminal) (t : Token) : Prop :=
  ∃ n, Lexeme.scan allowed (text.drop t.start) = some (.token t.terminal n) ∧
    t.text = String.ofList ((text.drop t.start).take n)

theorem Token.ScannedIn.length {allowed : List Terminal} (h : t.ScannedIn text allowed) :
    Lexeme.scan allowed (text.drop t.start) = some (.token t.terminal t.text.length) ∧
      t.text.toList = (text.drop t.start).take t.text.length := by
  obtain ⟨n, hscan, htext⟩ := h
  have hlength : t.text.length = n := by rw [htext, Lexeme.length_taken hscan]
  rw [hlength]
  refine ⟨hscan, ?_⟩
  rw [htext, String.toList_ofList]

/-- The tokens of a text are scanned with all terminals. -/
theorem tokensFrom_scanned (hcs : cs = text.drop offset) (h : tokensFrom offset cs = .ok ts) :
    ∀ t ∈ ts, t.ScannedIn text Terminal.all := by
  induction offset, cs using tokensFrom.induct generalizing ts with
  | case1 offset =>
    rw [tokensFrom] at h
    cases h
    nofun
  | case2 offset cs hne n hscan ih =>
    rw [tokensFrom_eq_gap hne hscan] at h
    exact ih (by rw [hcs, List.drop_drop]) h
  | case3 offset cs hne t n hscan ih =>
    obtain ⟨rest, hrest, rfl⟩ := exists_of_tokensFrom hne hscan h
    subst hcs
    exact List.forall_mem_cons.2 ⟨⟨n, hscan, rfl⟩, ih (by rw [List.drop_drop]) hrest⟩
  | case4 offset cs hne hscan =>
    rw [tokensFrom_of_unread (Lexeme.unread_of_scan hne hscan).1] at h
    cases h

/-- The tokens of a text that the parser reads are scanned with what it can go on with. -/
theorem deliveredFrom_scanned {q : ItemSet} {stack : Stack q} (hcs : cs = text.drop offset) :
    ∀ t ∈ deliveredFrom offset cs stack, ∃ allowed, t.ScannedIn text allowed := by
  fun_induction deliveredFrom offset cs stack with
  | case1 => nofun
  | case2 => nofun
  | case3 offset cs q stack _ n hscan ih => exact ih (by rw [hcs, List.drop_drop])
  | case4 offset cs q stack _ t n hscan taken r below hreads hsettle ih =>
    subst hcs
    exact List.forall_mem_cons.2 ⟨⟨_, n, hscan, rfl⟩, ih (by rw [List.drop_drop])⟩
  | case5 offset cs q stack _ n taken tree hscan =>
    subst hcs
    exact List.forall_mem_singleton.2 ⟨_, n, hscan, rfl⟩
  | case6 offset cs q stack _ t n hscan taken =>
    subst hcs
    exact List.forall_mem_singleton.2 ⟨_, n, hscan, rfl⟩

/-- A token is all of a word, unless it is a keyword that runs on. -/
theorem Token.ScannedIn.whole_iff {allowed : List Terminal} (h : t.ScannedIn text allowed) :
    t.Whole text ↔ ¬(t.terminal.isKeyword = true ∧ t.runsOn text = true) := by
  obtain ⟨hscan, htext⟩ := h.length
  have hlength : t.text.length ≠ 0 := Lexeme.scan_length_ne_zero hscan
  have hstart : t.text.toList.head? = (text.drop t.start).head? := by
    rw [htext, List.head?_take, if_neg hlength]
  have hrest : text.drop t.stop = (text.drop t.start).drop t.text.length := by
    rw [List.drop_drop]
    rfl
  rw [Token.Whole, Token.runsOn, hstart, htext, hrest]
  generalize text.drop t.start = cs at hscan
  rcases Lexeme.nameLength_of_scan hscan with ⟨hname, hkey⟩ | ⟨hname, hn, hruns⟩ |
    ⟨hname, hlt, hkey, hruns⟩
  · refine iff_of_true (fun c hc hword => ?_) (by rw [hkey]; nofun)
    obtain ⟨rest, rfl⟩ := List.head?_eq_some_iff.1 hc
    rw [Lexeme.not_isWordStart_of_nameLength hname] at hword
    cases hword
  · refine iff_of_true (fun c hc hword => ?_) (by rw [hruns]; nofun)
    rw [hn, Lexeme.take_nameLength]
  · refine iff_of_false (fun hwhole => ?_) (not_not_intro ⟨hkey, hruns⟩)
    cases cs with
    | nil => exact hname rfl
    | cons c rest =>
      have hword : isWordStart c = true := by
        rw [← Bool.not_eq_false]
        exact fun hnot => hname (Lexeme.nameLength_of_not hnot rest)
      have hcut := congrArg List.length (hwhole c rfl hword)
      have hle := Lexeme.nameLength_le (c :: rest)
      rw [List.length_take, ← Lexeme.nameLength] at hcut
      omega

/-- A token that is scanned with all terminals never runs on. -/
theorem Token.ScannedIn.runsOn_all (h : t.ScannedIn text Terminal.all) :
    t.runsOn text = false := by
  have hscan := h.length.1
  obtain ⟨u, k, hall, hcompare⟩ := Lexeme.scan_all_of_token hscan
  rw [hscan] at hall
  cases hall
  rcases hcompare with ⟨-, hruns⟩ | ⟨hlt, -⟩
  · rwa [List.drop_drop] at hruns
  · exact absurd hlt (Nat.lt_irrefl _)

/-! ## Comparing the streams -/

/-- Two token streams of a text, the second one read token by token: they are the same up to the
first token of it that runs on, in whose place a longer one is listed. -/
inductive Token.SameUntilCut (text : List Char) : List Token → List Token → Prop where
  | nil : SameUntilCut text [] []
  | same {t u : Token} {ts us : List Token} (hcut : t.cut = u.cut) (hruns : u.runsOn text = false)
    (hrest : SameUntilCut text ts us) : SameUntilCut text (t :: ts) (u :: us)
  | longer {t u : Token} {ts us : List Token} (hstart : t.start = u.start) (hstop : u.stop < t.stop)
    (hruns : u.runsOn text = true) : SameUntilCut text (t :: ts) (u :: us)

theorem Token.SameUntilCut.map_cut_iff (h : Token.SameUntilCut text ts us) :
    ts.map Token.cut = us.map Token.cut ↔ ∀ t ∈ us, t.runsOn text = false := by
  induction h with
  | nil => exact iff_of_true rfl nofun
  | same hcut hruns hrest ih =>
    rw [List.map_cons, List.map_cons, hcut, List.cons_inj_right, ih, List.forall_mem_cons]
    exact (and_iff_right hruns).symm
  | longer hstart hstop hruns =>
    refine iff_of_false (fun hsame => ?_) fun hnone => ?_
    · have hcut := (List.cons.inj hsame).1
      exact absurd (congrArg (·.2.2) hcut) (Nat.ne_of_gt hstop)
    · rw [hnone _ List.mem_cons_self] at hruns
      cases hruns

/-- The tokens that are listed for a text and those that are read from it as a program. -/
theorem sameUntilCut_of_parseFrom {q : ItemSet} {stack : Stack q} {tree : Tree (.branch .program)}
    (hcs : cs = text.drop offset) (h : parseFrom offset cs stack = .ok tree) :
    ∀ ts, tokensFrom offset cs = .ok ts →
      Token.SameUntilCut text ts (deliveredFrom offset cs stack) := by
  induction offset, cs, q, stack using parseFrom.induct with
  | case1 offset q stack accepted hfinish hsettle =>
    intro ts htokens
    rw [tokensFrom] at htokens
    cases htokens
    rw [deliveredFrom_nil]
    exact .nil
  | case2 offset q stack r hsettle =>
    rw [parseFrom_eq_unfinished hsettle] at h
    cases h
  | case3 offset cs q stack hne n hscan ih =>
    intro ts htokens
    rw [parseFrom_eq_gap hne hscan] at h
    rw [tokensFrom_eq_gap hne (Lexeme.scan_all_of_gap hscan)] at htokens
    rw [deliveredFrom_gap hne hscan]
    exact ih (by rw [hcs, List.drop_drop]) h ts htokens
  | case4 offset cs q stack hne t n hscan taken r below hreads hsettle ih =>
    intro ts htokens
    rw [parseFrom_eq_shift hne hscan hsettle] at h
    rw [deliveredFrom_shift hne hscan hsettle]
    obtain ⟨u, k, hall, hcompare⟩ := Lexeme.scan_all_of_token hscan
    obtain ⟨rest, hrest, rfl⟩ := exists_of_tokensFrom hne hall htokens
    have hn := Lexeme.length_taken hscan
    have hruns : Token.runsOn text ⟨t, String.ofList (cs.take n), offset⟩ =
        Lexeme.runsOn t (cs.drop n) := by
      rw [Token.runsOn, Token.stop, hn, hcs, List.drop_drop]
    rcases hcompare with ⟨rfl, hstops⟩ | ⟨hlt, hon | hmisfit⟩
    · exact .same rfl (hruns.trans hstops) (ih (by rw [hcs, List.drop_drop]) h rest hrest)
    · have hk := Lexeme.length_taken hall
      refine .longer rfl ?_ (hruns.trans hon)
      rw [Token.stop, Token.stop, hn, hk]
      exact Nat.add_lt_add_left hlt offset
    · -- Any other mark that could be longer is the last token that is read.
      cases hnext : cs.drop n with
      | nil =>
        rw [hnext] at hmisfit
        cases hmisfit
      | cons c ds =>
        rw [hnext] at h hmisfit
        obtain ⟨rejection, hrejected⟩ := parseFrom_eq_unread
          (below.push (.leaf t (String.ofList (cs.take n)) offset)) (offset + n)
          (List.cons_ne_nil c ds) (Lexeme.scan_of_misfit hmisfit)
        rw [hrejected] at h
        cases h
  | case5 offset cs q stack hne t n hscan r hsettle =>
    rw [parseFrom_eq_unexpected hne hscan hsettle] at h
    cases h
  | case6 offset cs q stack hne hscan | case7 offset cs q stack hne hscan
  | case8 offset cs q stack hne hscan =>
    obtain ⟨rejection, hrejected⟩ := parseFrom_eq_unread stack offset hne hscan
    rw [hrejected] at h
    cases h

end Streams

/-- The token stream of a program is the one that its parser reads just if none of the tokens
that are read runs on. It is the same up to the first one that does. The words of the text are
never cut in the token stream, and where they are read they are cut only after a keyword that
runs on. -/
theorem tokens_agree_iff {source : List Char} {program : Node} (h : parse source = .ok program) :
    ∃ tree tokens, parseTree (Layout.separate source) = .ok tree ∧ tree.meaning = .ok program ∧
      tree.tokens = delivered (Layout.separate source) ∧ tokenize source = .ok tokens ∧
      (tokens.map Token.cut = tree.tokens.map Token.cut ↔
        ∀ t ∈ tree.tokens, t.runsOn (Layout.separate source) = false) ∧
      Token.SameUntilCut (Layout.separate source) tokens tree.tokens ∧
      (∀ t ∈ tokens, t.Whole (Layout.separate source)) ∧
      ∀ t ∈ tree.tokens, t.Whole (Layout.separate source) ↔
        ¬(t.terminal.isKeyword = true ∧ t.runsOn (Layout.separate source) = true) := by
  obtain ⟨tree, htree, hmeaning⟩ := exists_tree_of_parse h
  obtain ⟨tokens, htokens⟩ : ∃ tokens, tokensFrom 0 (Layout.separate source) = .ok tokens :=
    tokensFrom_of_readable (readable_of_parse h)
  have hread : tree.tokens = delivered (Layout.separate source) :=
    (parseFrom_sound htree fun _ => trivial).1
  have hsame : Token.SameUntilCut (Layout.separate source) tokens tree.tokens := by
    rw [hread]
    exact sameUntilCut_of_parseFrom List.drop_zero.symm htree tokens htokens
  refine ⟨tree, tokens, htree, hmeaning, hread, ?_, hsame.map_cut_iff, hsame, ?_, ?_⟩
  · rw [tokenize, htokens]
  · intro t ht
    have hscanned := tokensFrom_scanned List.drop_zero.symm htokens t ht
    rw [hscanned.whole_iff, hscanned.runsOn_all]
    rintro ⟨-, hrunsOn⟩
    cases hrunsOn
  · intro t ht
    rw [hread] at ht
    obtain ⟨allowed, hscanned⟩ := deliveredFrom_scanned List.drop_zero.symm t ht
    exact hscanned.whole_iff

/-- A word with a number after it, which is read as three tokens and listed as two. -/
def pointedNumber : List Char := "print a.5".toList

theorem isOk_parse_pointedNumber : (parse pointedNumber).isOk = true := by decide +kernel

theorem tokens_agree_iff_pointedNumber : (∃ program, parse pointedNumber = .ok program) ∧
    ∃ tree tokens, parseTree (Layout.separate pointedNumber) = .ok tree ∧
      tokenize pointedNumber = .ok tokens ∧
      Token.SameUntilCut (Layout.separate pointedNumber) tokens tree.tokens := by
  obtain ⟨program, hprogram⟩ := exists_of_isOk isOk_parse_pointedNumber
  obtain ⟨tree, tokens, htree, -, -, htokens, -, hsame, -⟩ := tokens_agree_iff hprogram
  exact ⟨⟨program, hprogram⟩, tree, tokens, htree, htokens, hsame⟩

/-- A number with a point before it is not read where the parser can go on with a point. -/
theorem tokens_disagree : (parse pointedNumber).isOk = true ∧
    (delivered (Layout.separate pointedNumber)).map Token.cut =
      [("print", 0, 5), ("a", 6, 7), (".", 7, 8), ("5", 8, 9)] ∧
    (tokenize pointedNumber).map (List.map Token.cut) =
      .ok [("print", 0, 5), ("a", 6, 7), (".5", 7, 9)] := by
  have hlisted : (tokenize pointedNumber).toOption.map (List.map Token.cut) =
      some [("print", 0, 5), ("a", 6, 7), (".5", 7, 9)] := by decide +kernel
  refine ⟨isOk_parse_pointedNumber, by decide +kernel, ?_⟩
  cases htokens : tokenize pointedNumber with
  | ok tokens =>
    rw [htokens] at hlisted
    exact congrArg Except.ok (Option.some.inj hlisted)
  | error e =>
    rw [htokens] at hlisted
    cases hlisted

end Mandate
