/-
  Mandate.Proofs.TokenBreaks

  What a token does not depend on.

    * `Lexeme.Breaks`: a text that is empty or starts with a space, a `#` or a `;`.
      No token goes on into it.
    * `Lexeme.scan_of_append`: a token is scanned the same if the text after it is cut
      off, anywhere behind its end.
    * `Lexeme.scan_append`: a token is scanned the same if a text that breaks is
      put at the end.

  So whatever comes after a token can be replaced by a text that breaks.
-/

import Mandate.Proofs.TokenCoverage

namespace Mandate

namespace Lexeme

/-! ## Breaks -/

/-- The characters that go into no token, or are one by themselves. -/
def breaks : List Char := [' ', '\t', '\x0c', '\r', '\n', '#', ';']

/-- A text that no token goes on into. -/
def Breaks (cs : List Char) : Prop := ∀ c ∈ cs.head?, c ∈ breaks

theorem Breaks.nil : Breaks [] := by simp [Breaks]

theorem Breaks.cons {c : Char} (hc : c ∈ breaks) (cs : List Char) : Breaks (c :: cs) := by
  simpa [Breaks] using hc

theorem mem_breaks_of_isSpace {c : Char} (h : isSpace c = true) : c ∈ breaks := by
  rcases mem_spaces h with rfl | rfl | rfl | rfl | rfl <;> decide

/-- A gap breaks. -/
theorem IsGap.breaks {atEnd : Prop} {gap : List Char} (h : IsGap atEnd gap) (hne : gap ≠ [])
    (cs : List Char) : Breaks (gap ++ cs) := by
  cases h with
  | nil => exact absurd rfl hne
  | space hc => exact .cons (mem_breaks_of_isSpace hc) _
  | comment | lastComment => exact .cons (by decide) _

section Lengths

variable {a b r cs ds : List Char} {p : Char → Bool} {ts allowed : List Terminal} {t : Terminal}
  {n : Nat}

/-! ## Cutting off -/

theorem takeWhile_of_append (h : ((a ++ r).takeWhile p).length ≤ a.length) :
    (a ++ r).takeWhile p = a.takeWhile p := by
  induction a with
  | nil => exact List.length_eq_zero_iff.1 (Nat.le_zero.1 h)
  | cons c a ih =>
    by_cases hc : p c = true
    · rw [List.cons_append, List.takeWhile_cons_of_pos hc, List.length_cons, List.length_cons] at h
      rw [List.cons_append, List.takeWhile_cons_of_pos hc, List.takeWhile_cons_of_pos hc,
        ih (by omega)]
    · rw [List.cons_append, List.takeWhile_cons_of_neg hc, List.takeWhile_cons_of_neg hc]

theorem leadingWord_of_append (h : nameLength (a ++ r) ≤ a.length) :
    Layout.leadingWord (a ++ r) = Layout.leadingWord a := by
  cases a with
  | nil => exact List.length_eq_zero_iff.1 (Nat.le_zero.1 h)
  | cons c a =>
    by_cases hc : isWordStart c = true
    · rw [nameLength, List.cons_append, Layout.leadingWord, if_pos hc, ← List.cons_append] at h
      rw [List.cons_append, Layout.leadingWord, if_pos hc, Layout.leadingWord, if_pos hc,
        ← List.cons_append]
      exact takeWhile_of_append h
    · rw [List.cons_append, Layout.leadingWord, if_neg hc, Layout.leadingWord, if_neg hc]

theorem digitsLength_of_append (h : digitsLength (a ++ r) ≤ a.length) :
    digitsLength (a ++ r) = digitsLength a := by
  rw [digitsLength, takeWhile_of_append h, digitsLength]

theorem fractionLength_of_append (h : fractionLength (a ++ r) ≤ a.length) :
    fractionLength (a ++ r) = fractionLength a := by
  cases a with
  | nil => exact Nat.le_zero.1 h
  | cons c a =>
    by_cases hc : c = '.'
    · subst hc
      have hdigits : digitsLength (a ++ r) ≤ a.length := by
        rw [List.cons_append, fractionLength, List.length_cons] at h
        split at h
        · omega
        · omega
      rw [List.cons_append, fractionLength, digitsLength_of_append hdigits, fractionLength]
    · rw [List.cons_append, SameFront.fractionLength_of_ne hc, SameFront.fractionLength_of_ne hc]

theorem numberLength_of_append (h : numberLength (a ++ r) ≤ a.length) :
    numberLength (a ++ r) = numberLength a := by
  have hdigits : digitsLength (a ++ r) = digitsLength a := by
    apply digitsLength_of_append
    rw [numberLength] at h
    omega
  have hle : digitsLength a ≤ a.length := (List.takeWhile_prefix _).length_le
  rw [numberLength, hdigits, List.drop_append_of_le_length hle] at h ⊢
  rw [fractionLength_of_append, numberLength]
  rw [List.length_drop]
  omega

/-- What is the rest of a string is so whatever comes after it. -/
theorem stringTail_append (h : stringTail n a ≠ 0) (r : List Char) :
    stringTail n (a ++ r) = stringTail n a := by
  obtain ⟨k, hk, htail⟩ := isStringTail_stringTail h
  have hle := stringTail_le n a
  have hlength : (a.take k).length = k := by
    rw [List.length_take]
    omega
  rw [hk, ← List.take_append_drop k a, List.append_assoc, stringTail_before htail, hlength]

theorem stringTail_of_append (h : stringTail n (a ++ r) ≤ n + a.length) :
    stringTail n (a ++ r) = stringTail n a := by
  by_cases hzero : stringTail n (a ++ r) = 0
  · by_cases ha : stringTail n a = 0
    · rw [hzero, ha]
    · exact stringTail_append ha r
  · obtain ⟨k, hk, htail⟩ := isStringTail_stringTail hzero
    have hlength : (a.take k).length = k := by
      rw [List.length_take]
      omega
    rw [List.take_append_of_le_length (by omega)] at htail
    have hcut := stringTail_before htail (a.drop k) n
    rw [List.take_append_drop, hlength] at hcut
    rw [hk, hcut]

theorem stringLength_of_append (h : stringLength (a ++ r) ≤ a.length) :
    stringLength (a ++ r) = stringLength a := by
  cases a with
  | nil => exact Nat.le_zero.1 h
  | cons c a =>
    by_cases hc : c = '"'
    · subst hc
      rw [List.cons_append, stringLength, List.length_cons, Nat.add_comm a.length] at h
      rw [List.cons_append, stringLength, stringTail_of_append h, stringLength]
    · rw [List.cons_append, stringLength_of_ne hc, stringLength_of_ne hc]

/-- Which fixed text is chosen depends on what each of them takes. -/
theorem longestFixed_congr (h : ∀ t ∈ ts, fixedLength t ds = fixedLength t cs) :
    longestFixed ds ts = longestFixed cs ts := by
  induction ts with
  | nil => rfl
  | cons t ts ih =>
    rw [longestFixed, longestFixed, ih fun u hu => h u (List.mem_cons_of_mem t hu),
      h t List.mem_cons_self]

theorem longestFixed_of_append (h : longestFixed (a ++ r) ts = some t)
    (hle : t.text.length ≤ a.length) : longestFixed a ts = some t := by
  rw [← h]
  apply longestFixed_congr
  intro u hu
  have hlongest := fixedLength_le_of_longestFixed h hu
  unfold fixedLength at hlongest ⊢
  by_cases hfront : u.text.toList <+: a
  · rw [if_pos (List.isPrefixOf_iff_prefix.2 hfront),
      if_pos (List.isPrefixOf_iff_prefix.2 (hfront.trans (List.prefix_append a r)))]
  · have hcut : ¬u.text.toList <+: a ++ r := by
      intro hfull
      rw [if_pos (List.isPrefixOf_iff_prefix.2 hfull)] at hlongest
      refine hfront (List.prefix_of_prefix_length_le hfull (List.prefix_append a r) ?_)
      rw [String.length_toList]
      omega
    rw [if_neg (mt List.isPrefixOf_iff_prefix.1 hfront),
      if_neg (mt List.isPrefixOf_iff_prefix.1 hcut)]

/-! ## Putting a break at the end -/

theorem takeWhile_append_of_head (hb : ∀ c ∈ b.head?, p c = false) (a : List Char) :
    (a ++ b).takeWhile p = a.takeWhile p := by
  induction a with
  | nil =>
    cases b with
    | nil => rfl
    | cons c b => exact List.takeWhile_cons_of_neg (by rw [hb c rfl]; decide)
  | cons c a ih =>
    rw [List.cons_append, List.takeWhile_cons, List.takeWhile_cons, ih]

theorem leadingWord_append_of_head (hb : ∀ c ∈ b.head?, isWordPart c = false) (a : List Char) :
    Layout.leadingWord (a ++ b) = Layout.leadingWord a := by
  cases a with
  | nil =>
    cases b with
    | nil => rfl
    | cons c b =>
      refine if_neg fun hstart => ?_
      have hpart := hb c rfl
      rw [isWordPart_of_isWordStart hstart] at hpart
      cases hpart
  | cons c a =>
    rw [List.cons_append, Layout.leadingWord, Layout.leadingWord, ← List.cons_append,
      takeWhile_append_of_head hb]

/-- What holds of no break does not hold of the first character of a text that breaks. -/
theorem Breaks.head_eq_false (hb : Breaks b) (hp : breaks.all (!p ·) = true) :
    ∀ c ∈ b.head?, p c = false := by
  intro c hc
  have hnot := List.all_eq_true.1 hp c (hb c hc)
  rwa [Bool.not_eq_true'] at hnot

theorem leadingWord_append (hb : Breaks b) (a : List Char) :
    Layout.leadingWord (a ++ b) = Layout.leadingWord a :=
  leadingWord_append_of_head (hb.head_eq_false (by decide)) a

theorem digitsLength_append_of_head (hb : ∀ c ∈ b.head?, Text.isDigit c = false)
    (a : List Char) : digitsLength (a ++ b) = digitsLength a := by
  rw [digitsLength, takeWhile_append_of_head hb, digitsLength]

theorem fractionLength_append_of_head (hb : ∀ c ∈ b.head?, Text.isDigit c = false)
    (hdot : ∀ c ∈ b.head?, c ≠ '.') (a : List Char) :
    fractionLength (a ++ b) = fractionLength a := by
  cases a with
  | nil =>
    cases b with
    | nil => rfl
    | cons c b => exact SameFront.fractionLength_of_ne (hdot c rfl) b
  | cons c a =>
    by_cases hc : c = '.'
    · subst hc
      rw [List.cons_append, fractionLength, digitsLength_append_of_head hb, fractionLength]
    · rw [List.cons_append, SameFront.fractionLength_of_ne hc, SameFront.fractionLength_of_ne hc]

theorem numberLength_append_of_head (hb : ∀ c ∈ b.head?, Text.isDigit c = false)
    (hdot : ∀ c ∈ b.head?, c ≠ '.') (a : List Char) :
    numberLength (a ++ b) = numberLength a := by
  have hle : digitsLength a ≤ a.length := (List.takeWhile_prefix _).length_le
  rw [numberLength, digitsLength_append_of_head hb, List.drop_append_of_le_length hle,
    fractionLength_append_of_head hb hdot, numberLength]

theorem numberLength_append (hb : Breaks b) (a : List Char) :
    numberLength (a ++ b) = numberLength a := by
  refine numberLength_append_of_head (hb.head_eq_false (by decide)) (fun c hc => ?_) a
  have hdot : breaks.all (· != '.') = true := by decide
  exact bne_iff_ne.1 (List.all_eq_true.1 hdot c (hb c hc))

/-- What is put at the end counts only for a fixed text that goes on into it. -/
theorem fixedLength_append_of_head (hb : ∀ c ∈ b.head?, ¬a ++ [c] <+: t.text.toList) :
    fixedLength t (a ++ b) = fixedLength t a := by
  have hfront : t.text.toList <+: a ++ b ↔ t.text.toList <+: a := by
    refine ⟨fun h => ?_, fun h => h.trans (List.prefix_append a b)⟩
    rcases List.prefix_or_prefix_of_prefix h (List.prefix_append a b) with hshort | ⟨w, hw⟩
    · exact hshort
    · -- Whatever of it lies behind `a` starts as `b` does.
      rw [← hw, List.prefix_append_right_inj] at h
      cases w with
      | nil =>
        rw [List.append_nil] at hw
        exact hw ▸ List.prefix_refl a
      | cons c w =>
        obtain ⟨rest, rfl⟩ := h
        have hlonger : a ++ [c] <+: t.text.toList := by
          rw [← hw]
          exact (List.prefix_append_right_inj a).2 (List.prefix_append [c] w)
        exact absurd hlonger (hb c rfl)
  rw [fixedLength, fixedLength]
  simp only [List.isPrefixOf_iff_prefix, hfront]

/-- A break is in a fixed text only as its first character. -/
theorem not_mem_tail_text (t : Terminal) {c : Char} (hc : c ∈ breaks) :
    c ∉ t.text.toList.tail := by
  have htail : breaks.all (!t.text.toList.tail.contains ·) = true := by
    cases t <;> decide +kernel
  have hnot := List.all_eq_true.1 htail c hc
  rwa [Bool.not_eq_true', Bool.eq_false_iff, ne_eq, List.contains_iff_mem] at hnot

theorem fixedLength_append (hb : Breaks b) (ha : a ≠ []) (t : Terminal) :
    fixedLength t (a ++ b) = fixedLength t a := by
  apply fixedLength_append_of_head
  intro c hc hlonger
  apply not_mem_tail_text t (hb c hc)
  obtain ⟨rest, hrest⟩ := hlonger
  obtain ⟨d, a, rfl⟩ := List.exists_cons_of_ne_nil ha
  rw [← hrest]
  simp

/-! ## The same token -/

theorem numberLength_of_stringLength (h : stringLength cs ≠ 0) : numberLength cs = 0 := by
  cases cs with
  | nil => rfl
  | cons c cs =>
    by_cases hc : c = '"'
    · rw [hc]
      rfl
    · exact absurd (stringLength_of_ne hc cs) h

/-- A pattern that competes for a token takes no more of the text than the token. -/
theorem lengths_le_of_scan (h : scan allowed cs = some (.token t n)) :
    (allowed.contains .name = true → nameLength cs ≤ n) ∧
    (allowed.contains .number = true → numberLength cs ≤ n) ∧
    (allowed.contains .string = true → stringLength cs ≤ n) := by
  have hword : nameLength cs ≠ 0 → numberLength cs = 0 ∧ stringLength cs = 0 := by
    intro hname
    exact ⟨Decidable.byContradiction fun h => hname (nameLength_of_numberLength h),
      Decidable.byContradiction fun h => hname (nameLength_of_stringLength h)⟩
  have hquote : numberLength cs ≠ 0 → stringLength cs = 0 := fun hnumber =>
    Decidable.byContradiction fun h => hnumber (numberLength_of_stringLength h)
  -- Of the patterns before the one that matches none matches, and of those after it none could.
  unfold scan at h
  split at h
  · next hname =>
    cases h
    rw [Bool.and_eq_true, bne_iff_ne] at hname
    obtain ⟨hnumber, hstring⟩ := hword hname.2
    exact ⟨fun _ => Nat.le_refl _, fun _ => by omega, fun _ => by omega⟩
  next hname =>
  rw [Bool.and_eq_true, bne_iff_ne, not_and, Decidable.not_not] at hname
  split at h
  · next hnumber =>
    cases h
    rw [Bool.and_eq_true, bne_iff_ne] at hnumber
    have hstring := hquote hnumber.2
    exact ⟨fun hn => by rw [hname hn]; omega, fun _ => Nat.le_refl _, fun _ => by omega⟩
  next hnumber =>
  rw [Bool.and_eq_true, bne_iff_ne, not_and, Decidable.not_not] at hnumber
  split at h
  · cases h
    exact ⟨fun hn => by rw [hname hn]; omega, fun hn => by rw [hnumber hn]; omega,
      fun _ => Nat.le_refl _⟩
  next hstring =>
  rw [Bool.and_eq_true, bne_iff_ne, not_and, Decidable.not_not] at hstring
  exact ⟨fun hn => by rw [hname hn]; omega, fun hn => by rw [hnumber hn]; omega,
    fun hs => by rw [hstring hs]; omega⟩

theorem not_gap_of_scan {c : Char} (h : scan allowed (c :: cs) = some (.token t n)) :
    isSpace c = false ∧ c ≠ '#' := by
  constructor
  · rw [Bool.eq_false_iff]
    intro hspace
    rw [scan_space hspace] at h
    cases h
  · rintro rfl
    rw [scan_comment] at h
    cases h

/-- Texts of which the patterns take the same are scanned as the same token. -/
theorem scan_of_same (h : scan allowed cs = some (.token t n)) (hhead : ds.head? = cs.head?)
    (hword : allowed.contains .name = true → Layout.leadingWord ds = Layout.leadingWord cs)
    (hnumber : allowed.contains .number = true → numberLength ds = numberLength cs)
    (hstring : allowed.contains .string = true → stringLength ds = stringLength cs)
    (hfixed : longestFixed cs (fixed allowed) = some t → n = t.text.length →
      longestFixed ds (fixed allowed) = some t) :
    scan allowed ds = some (.token t n) := by
  cases cs with
  | nil => exact absurd (Nat.le_zero.1 (scan_length_le h)) (scan_length_ne_zero h)
  | cons c cs =>
    obtain ⟨ds, rfl⟩ := List.head?_eq_some_iff.1 hhead
    obtain ⟨hspace, hcomment⟩ := not_gap_of_scan h
    have hblank : ¬isSpace c = true := by
      rw [hspace]
      decide
    have hname : (allowed.contains .name && nameLength (c :: ds) != 0) =
        (allowed.contains .name && nameLength (c :: cs) != 0) := by
      cases hallowed : allowed.contains .name with
      | false => rfl
      | true => rw [nameLength, hword hallowed, nameLength]
    have hnum : (allowed.contains .number && numberLength (c :: ds) != 0) =
        (allowed.contains .number && numberLength (c :: cs) != 0) := by
      cases hallowed : allowed.contains .number with
      | false => rfl
      | true => rw [hnumber hallowed]
    have hstr : (allowed.contains .string && stringLength (c :: ds) != 0) =
        (allowed.contains .string && stringLength (c :: cs) != 0) := by
      cases hallowed : allowed.contains .string with
      | false => rfl
      | true => rw [hstring hallowed]
    rw [scan, hname, hnum, hstr, spaceLength_of_not hblank, commentLength_of_ne hcomment]
    rw [scan, spaceLength_of_not hblank, commentLength_of_ne hcomment] at h
    split at h
    · next hc =>
      have hallowed := (Bool.and_eq_true_iff.1 hc).1
      rw [if_pos hc, nameLength, hword hallowed]
      rw [take_nameLength] at h
      have htake := take_nameLength (c :: ds)
      rw [nameLength, hword hallowed] at htake
      rw [htake]
      exact h
    next hc =>
    rw [if_neg hc]
    split at h
    · next hc =>
      rw [if_pos hc, hnumber (Bool.and_eq_true_iff.1 hc).1]
      exact h
    next hc =>
    rw [if_neg hc]
    split at h
    · next hc =>
      rw [if_pos hc, hstring (Bool.and_eq_true_iff.1 hc).1]
      exact h
    next hc =>
    rw [if_neg hc]
    obtain ⟨u, hu, hx⟩ := Option.map_eq_some_iff.1 h
    cases hx
    rw [hfixed hu rfl]
    rfl

/-- A token does not depend on what comes behind it. -/
theorem scan_of_append (h : scan allowed (a ++ r) = some (.token t n)) (hle : n ≤ a.length) :
    scan allowed a = some (.token t n) := by
  obtain ⟨hname, hnumber, hstring⟩ := lengths_le_of_scan h
  have hpos : n ≠ 0 := scan_length_ne_zero h
  refine scan_of_same h ?_ (fun hallowed => ?_) (fun hallowed => ?_) (fun hallowed => ?_)
    fun hfixed hn => ?_
  · cases a with
    | nil => exact absurd (Nat.le_zero.1 hle) hpos
    | cons c a => rfl
  · exact (leadingWord_of_append (Nat.le_trans (hname hallowed) hle)).symm
  · exact (numberLength_of_append (Nat.le_trans (hnumber hallowed) hle)).symm
  · exact (stringLength_of_append (Nat.le_trans (hstring hallowed) hle)).symm
  · exact longestFixed_of_append hfixed (by omega)

/-- A token that starts with a quote is a string. -/
theorem stringLength_of_scan (h : scan allowed ('"' :: cs) = some (.token t n)) :
    stringLength ('"' :: cs) ≠ 0 := by
  rcases token_of_scan h with ⟨hname, -⟩ | ⟨hnumber, -⟩ | ⟨hstring, -⟩ | ⟨hfixed, -⟩
  · exact absurd rfl hname
  · exact absurd rfl hnumber
  · exact hstring
  · have hcs := append_drop_of_longestFixed hfixed
    cases hlist : t.text.toList with
    | nil => exact absurd (by simpa using hlist) (longestFixed_text hfixed)
    | cons c w =>
      rw [hlist, List.cons_append] at hcs
      exact absurd (List.cons.inj hcs).1 (head_text hlist).2.1

/-- A token does not go on into a text that breaks. -/
theorem scan_append (h : scan allowed a = some (.token t n)) (hb : Breaks b) :
    scan allowed (a ++ b) = some (.token t n) := by
  have hne : a ≠ [] := by
    rintro rfl
    exact scan_length_ne_zero h (Nat.le_zero.1 (scan_length_le h))
  refine scan_of_same h ?_ (fun _ => leadingWord_append hb a) (fun _ => numberLength_append hb a)
    (fun _ => ?_) fun hfixed _ => ?_
  · obtain ⟨c, a, rfl⟩ := List.exists_cons_of_ne_nil hne
    rfl
  · obtain ⟨c, a, rfl⟩ := List.exists_cons_of_ne_nil hne
    by_cases hc : c = '"'
    · subst hc
      exact stringTail_append (stringLength_of_scan h) b
    · rw [List.cons_append, stringLength_of_ne hc, stringLength_of_ne hc]
  · rw [longestFixed_congr fun u _ => fixedLength_append hb hne u, hfixed]

end Lengths

end Lexeme

end Mandate
