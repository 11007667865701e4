/-
  Mandate.Proofs.Uncomment

  Texts without their comments. `Layout.uncomment` deletes each comment of a text,
  from its `#` up to the line end.

  For the parser the text is alike with and without them
  (`Lexeme.alike_uncomment`): a comment is a gap, and the line end it leaves behind
  keeps the lexemes before and after it apart. What is scanned at a place is told
  by the plain characters there (`Lexeme.SameFront`), strings aside, and there are
  no comments in strings.
-/

import Mandate.Proofs.Gaps

namespace Mandate

/-! ## Deleting comments -/

namespace Layout

/-- What the character after `c` is part of. -/
def Mode.after (m : Mode) (c : Char) : Mode :=
  match m with
  | .code => if c = '#' then .comment else if c = '"' then .string else .code
  | .comment => if c = '\n' then .code else .comment
  | .string => if c = '\\' then .escape else if c = '"' then .code else .string
  | .escape => .string

/-- A text without its comments, read from some mode on. -/
def uncommentFrom (m : Mode) : List Char → List Char
  | [] => []
  | c :: rest =>
    if m.after c = .comment then uncommentFrom .comment rest
    else c :: uncommentFrom (m.after c) rest

/-- A text without its comments. -/
def uncomment (source : List Char) : List Char := uncommentFrom .code source

theorem dropWhile_line {c : Char} (hc : c ≠ '\n') (cs : List Char) :
    (c :: cs).dropWhile (· != '\n') = cs.dropWhile (· != '\n') := by
  rw [List.dropWhile_cons, if_pos (by simpa using hc)]

theorem uncomment_comment (cs : List Char) :
    uncomment ('#' :: cs) = uncomment (cs.dropWhile (· != '\n')) := by
  show uncommentFrom .comment cs = _
  induction cs with
  | nil => rfl
  | cons c cs ih =>
    by_cases hc : c = '\n'
    · subst hc
      rfl
    · rw [dropWhile_line hc, ← ih, uncommentFrom, Mode.after, if_neg hc, if_pos rfl]

theorem uncomment_string (cs : List Char) :
    uncomment ('"' :: cs) = '"' :: uncommentFrom .string cs := rfl

theorem uncomment_cons {c : Char} (hcomment : c ≠ '#') (hstring : c ≠ '"') (cs : List Char) :
    uncomment (c :: cs) = c :: uncomment cs := by
  rw [uncomment, uncommentFrom, Mode.after, if_neg hcomment, if_neg hstring]
  rfl

/-- A comment leaves its line end behind, or the end of the text. -/
theorem uncomment_comment_cases (cs : List Char) :
    uncomment ('#' :: cs) = [] ∨ ∃ ds, uncomment ('#' :: cs) = '\n' :: ds := by
  rw [uncomment_comment]
  induction cs with
  | nil => exact .inl rfl
  | cons c cs ih =>
    by_cases hc : c = '\n'
    · subst hc
      exact .inr ⟨_, rfl⟩
    · rw [dropWhile_line hc]
      exact ih

end Layout

/-! ## Lexemes next to a comment -/

namespace Lexeme

open Layout

/-- Whether a character can be part of a token other than a string. -/
def isPlain (c : Char) : Bool := c != '#' && c != '"' && c != '\n'

theorem isPlain_iff {c : Char} : isPlain c = true ↔ c ≠ '#' ∧ c ≠ '"' ∧ c ≠ '\n' := by
  simp [isPlain, and_assoc]

/-- Characters of a sort to which `#`, `"` and the line end do not belong are plain. -/
theorem isPlain_of {p : Char → Bool} (hcomment : p '#' = false) (hstring : p '"' = false)
    (hline : p '\n' = false) : ∀ c, p c = true → isPlain c = true := by
  intro c hc
  refine isPlain_iff.2 ⟨?_, ?_, ?_⟩ <;> rintro rfl <;> simp_all

theorem isPlain_text (t : Terminal) : ∀ c ∈ t.text.toList, isPlain c = true := by
  have hall : t.text.toList.all isPlain = true := by cases t <;> decide +kernel
  exact List.all_eq_true.1 hall

/-- No plain character is at the front of a text. -/
def Stops (cs : List Char) : Prop := ∀ c ds, cs = c :: ds → isPlain c = false

/-- Two texts that agree up to the first character that is not plain. -/
inductive SameFront : List Char → List Char → Prop where
  | stop {cs ds : List Char} (hcs : Stops cs) (hds : Stops ds) : SameFront cs ds
  | cons {c : Char} {cs ds : List Char} (hc : isPlain c = true) (h : SameFront cs ds) :
      SameFront (c :: cs) (c :: ds)

theorem Stops.nil : Stops [] := by
  intro c ds h
  cases h

theorem Stops.cons {c : Char} (hc : isPlain c = false) (cs : List Char) : Stops (c :: cs) := by
  intro d ds h
  cases h
  exact hc

/-- What stands where a text stops belongs to no sort of plain characters. -/
theorem Stops.not_of {p : Char → Bool} (hp : ∀ c, p c = true → isPlain c = true) {c : Char}
    {cs : List Char} (h : Stops (c :: cs)) : ¬p c = true := by
  intro hpc
  have hplain := h c cs rfl
  rw [hp c hpc] at hplain
  cases hplain

/-- Deleting comments changes nothing before the first of them. -/
theorem sameFront_uncomment (cs : List Char) : SameFront cs (uncomment cs) := by
  induction cs with
  | nil => exact .stop .nil .nil
  | cons c cs ih =>
    by_cases hc : c = '#'
    · subst hc
      refine .stop (.cons rfl cs) ?_
      rcases uncomment_comment_cases cs with h | ⟨ds, h⟩
      · rw [h]
        exact .nil
      · rw [h]
        exact .cons rfl ds
    · by_cases hq : c = '"'
      · subst hq
        exact .stop (.cons rfl cs) (.cons rfl _)
      · rw [uncomment_cons hc hq]
        by_cases hn : c = '\n'
        · subst hn
          exact .stop (.cons rfl cs) (.cons rfl _)
        · exact .cons (isPlain_iff.2 ⟨hc, hq, hn⟩) ih

namespace SameFront

variable {cs ds : List Char}

theorem takeWhile_of_stops {p : Char → Bool} (hp : ∀ c, p c = true → isPlain c = true)
    (h : Stops cs) : cs.takeWhile p = [] := by
  match cs with
  | [] => rfl
  | c :: cs => rw [List.takeWhile_cons_of_neg (h.not_of hp)]

theorem takeWhile {p : Char → Bool} (hp : ∀ c, p c = true → isPlain c = true)
    (h : SameFront cs ds) : cs.takeWhile p = ds.takeWhile p := by
  induction h with
  | stop hcs hds => rw [takeWhile_of_stops hp hcs, takeWhile_of_stops hp hds]
  | cons hc h ih => rw [List.takeWhile_cons, List.takeWhile_cons, ih]

theorem dropWhile_of_stops {p : Char → Bool} (hp : ∀ c, p c = true → isPlain c = true)
    (h : Stops cs) : cs.dropWhile p = cs := by
  have htake := takeWhile_of_stops hp h
  have happend := List.takeWhile_append_dropWhile (p := p) (l := cs)
  rw [htake, List.nil_append] at happend
  exact happend

theorem isPrefixOf_of_stops {x : Char} {w : List Char} (hx : isPlain x = true) (h : Stops cs) :
    (x :: w).isPrefixOf cs = false := by
  match cs with
  | [] => rfl
  | c :: cs =>
    have hne : ¬(x == c) = true := by
      apply Stops.not_of (p := (x == ·)) _ h
      intro d hd
      rw [← beq_iff_eq.1 hd, hx]
    rw [List.isPrefixOf_cons_cons, eq_false_of_ne_true hne, Bool.false_and]

/-- Whether a plain word is at the front of a text shows in its plain front. -/
theorem isPrefixOf {w : List Char} (hw : ∀ c ∈ w, isPlain c = true) (h : SameFront cs ds) :
    w.isPrefixOf cs = w.isPrefixOf ds := by
  induction w generalizing cs ds with
  | nil => simp
  | cons x w ih =>
    have hx := hw x (by simp)
    cases h with
    | stop hcs hds => rw [isPrefixOf_of_stops hx hcs, isPrefixOf_of_stops hx hds]
    | cons hc h =>
      rw [List.isPrefixOf_cons_cons, List.isPrefixOf_cons_cons,
        ih (fun d hd => hw d (by simp [hd])) h]

/-- Plain characters can be taken off both texts. -/
theorem dropWhile {p : Char → Bool} (hp : ∀ c, p c = true → isPlain c = true)
    (h : SameFront cs ds) : SameFront (cs.dropWhile p) (ds.dropWhile p) := by
  induction h with
  | stop hcs hds =>
    rw [dropWhile_of_stops hp hcs, dropWhile_of_stops hp hds]
    exact .stop hcs hds
  | cons hc h ih =>
    rw [List.dropWhile_cons, List.dropWhile_cons]
    split
    · exact ih
    · exact .cons hc h

/-! ### Patterns -/

theorem leadingWord_of_stops (hp : ∀ c, isWordStart c = true → isPlain c = true)
    (h : Stops cs) : Layout.leadingWord cs = [] := by
  match cs with
  | [] => rfl
  | c :: cs => rw [Layout.leadingWord, if_neg (h.not_of hp)]

theorem fractionLength_of_ne {c : Char} (hc : c ≠ '.') (cs : List Char) :
    Lexeme.fractionLength (c :: cs) = 0 := by
  rw [Lexeme.fractionLength]
  rintro rest ⟨⟩
  exact hc rfl

theorem fractionLength_of_stops (h : Stops cs) : Lexeme.fractionLength cs = 0 := by
  match cs with
  | [] => rfl
  | c :: cs =>
    apply fractionLength_of_ne
    rintro rfl
    cases h '.' cs rfl

theorem leadingWord (h : SameFront cs ds) : leadingWord cs = leadingWord ds := by
  have hstart : ∀ c, isWordStart c = true → isPlain c = true := isPlain_of rfl rfl rfl
  have hpart : ∀ c, isWordPart c = true → isPlain c = true := isPlain_of rfl rfl rfl
  have hword := h.takeWhile hpart
  cases h with
  | stop hcs hds => rw [leadingWord_of_stops hstart hcs, leadingWord_of_stops hstart hds]
  | cons hc h => rw [Layout.leadingWord, Layout.leadingWord, hword]

theorem digitsLength (h : SameFront cs ds) : digitsLength cs = digitsLength ds := by
  rw [Lexeme.digitsLength, Lexeme.digitsLength, h.takeWhile (isPlain_of rfl rfl rfl)]

theorem fractionLength (h : SameFront cs ds) : fractionLength cs = fractionLength ds := by
  cases h with
  | stop hcs hds => rw [fractionLength_of_stops hcs, fractionLength_of_stops hds]
  | @cons c cs ds hc h =>
    by_cases hdot : c = '.'
    · subst hdot
      rw [Lexeme.fractionLength, Lexeme.fractionLength, h.digitsLength]
    · rw [fractionLength_of_ne hdot, fractionLength_of_ne hdot]

theorem numberLength (h : SameFront cs ds) : numberLength cs = numberLength ds := by
  have hdrop : SameFront (cs.drop (Lexeme.digitsLength cs)) (ds.drop (Lexeme.digitsLength ds)) := by
    rw [Lexeme.digitsLength, Lexeme.digitsLength, drop_takeWhile, drop_takeWhile]
    exact h.dropWhile (isPlain_of rfl rfl rfl)
  rw [Lexeme.numberLength, Lexeme.numberLength, hdrop.fractionLength, h.digitsLength]

theorem longestFixed (h : SameFront cs ds) (ts : List Terminal) :
    longestFixed cs ts = longestFixed ds ts := by
  have hfixed (t : Terminal) : fixedLength t cs = fixedLength t ds := by
    rw [fixedLength, fixedLength, h.isPrefixOf (isPlain_text t)]
  induction ts with
  | nil => rfl
  | cons t ts ih => rw [Lexeme.longestFixed, Lexeme.longestFixed, ih, hfixed]

end SameFront

/-! ### Strings -/

theorem uncommentFrom_escaped (c : Char) (cs : List Char) :
    uncommentFrom .string ('\\' :: c :: cs) = '\\' :: c :: uncommentFrom .string cs := rfl

theorem uncommentFrom_string {c : Char} (hescape : c ≠ '\\') (hquote : c ≠ '"')
    (cs : List Char) : uncommentFrom .string (c :: cs) = c :: uncommentFrom .string cs := by
  rw [uncommentFrom, Mode.after, if_neg hescape, if_neg hquote]
  rfl

theorem ne_escape {c : Char} {cs : List Char} (hlast : c = '\\' → cs = [] → False)
    (hescape : ∀ d ds, c = '\\' → cs = d :: ds → False) : c ≠ '\\' := by
  intro hc
  match cs with
  | [] => exact hlast hc rfl
  | d :: ds => exact hescape d ds hc rfl

/-- There are no comments in a string. -/
theorem stringTail_uncomment (n : Nat) (cs : List Char) :
    stringTail n (uncommentFrom .string cs) = stringTail n cs := by
  fun_induction stringTail n cs with
  | case1 => rfl
  | case2 => rfl
  | case3 n rest => rfl
  | case4 n c rest hc ih => rw [uncommentFrom_escaped, stringTail, if_neg hc, ih]
  | case5 n rest hlast hescape => rfl
  | case6 n c rest hlast hescape hquote ih =>
    have hc := ne_escape hlast hescape
    rw [uncommentFrom_string hc hquote, stringTail, if_neg hquote, ih]
    · exact fun h => absurd h hc
    · exact fun _ _ h => absurd h hc

/-- What follows a string is code again. -/
theorem uncomment_of_stringTail {n : Nat} {cs : List Char} (h : stringTail n cs ≠ 0) :
    ∃ k, stringTail n cs = n + k ∧
      uncommentFrom .string cs = cs.take k ++ uncomment (cs.drop k) := by
  fun_induction stringTail n cs with
  | case1 => exact absurd rfl h
  | case2 => exact absurd rfl h
  | case3 n rest => exact absurd rfl h
  | case4 n c rest hc ih =>
    obtain ⟨k, hk, hrest⟩ := ih h
    refine ⟨k + 2, by omega, ?_⟩
    rw [uncommentFrom_escaped, hrest]
    rfl
  | case5 n rest hlast hescape => exact ⟨1, rfl, rfl⟩
  | case6 n c rest hlast hescape hquote ih =>
    obtain ⟨k, hk, hrest⟩ := ih h
    have hc := ne_escape hlast hescape
    refine ⟨k + 1, by omega, ?_⟩
    rw [uncommentFrom_string hc hquote, hrest]
    rfl

theorem stringLength_of_ne {c : Char} (hc : c ≠ '"') (cs : List Char) :
    stringLength (c :: cs) = 0 := by
  rw [stringLength]
  rintro rest ⟨⟩
  exact hc rfl

theorem stringLength_uncomment (cs : List Char) :
    stringLength (uncomment cs) = stringLength cs := by
  match cs with
  | [] => rfl
  | c :: cs =>
    by_cases hq : c = '"'
    · subst hq
      exact stringTail_uncomment 1 cs
    · rw [stringLength_of_ne hq]
      by_cases hc : c = '#'
      · subst hc
        rcases uncomment_comment_cases cs with h | ⟨ds, h⟩
        · rw [h]
          rfl
        · rw [h]
          rfl
      · rw [uncomment_cons hc hq, stringLength_of_ne hq]

theorem uncomment_of_string {cs : List Char} (h : stringLength cs ≠ 0) :
    uncomment cs = cs.take (stringLength cs) ++ uncomment (cs.drop (stringLength cs)) := by
  match cs with
  | [] => exact absurd rfl h
  | c :: cs =>
    by_cases hq : c = '"'
    · subst hq
      have htail : stringTail 1 cs ≠ 0 := h
      obtain ⟨k, hk, hrest⟩ := uncomment_of_stringTail htail
      have hlength : stringLength ('"' :: cs) = k + 1 := by
        rw [stringLength, hk, Nat.add_comm]
      rw [uncomment_string, hrest, hlength, List.take_succ_cons, List.drop_succ_cons,
        List.cons_append]
    · exact absurd (stringLength_of_ne hq cs) h

/-! ### Scanning -/

/-- The plain characters at the front of a text stay. -/
theorem uncomment_of_plain {n : Nat} {cs : List Char} (h : ∀ c ∈ cs.take n, isPlain c = true) :
    uncomment cs = cs.take n ++ uncomment (cs.drop n) := by
  induction n generalizing cs with
  | zero => rfl
  | succ n ih =>
    match cs with
    | [] => rfl
    | c :: cs =>
      rw [List.take_succ_cons] at h
      obtain ⟨hcomment, hstring, -⟩ := isPlain_iff.1 (h c (by simp))
      rw [uncomment_cons hcomment hstring, List.take_succ_cons, List.drop_succ_cons,
        List.cons_append, ← ih fun d hd => h d (by simp [hd])]

theorem isWordPart_of_isWordStart {c : Char} (h : isWordStart c = true) : isWordPart c = true := by
  unfold isWordStart at h
  unfold isWordPart Char.isAlphanum
  simp only [Bool.or_eq_true] at h ⊢
  rcases h with h | h
  · exact .inl (.inl h)
  · exact .inr h

theorem take_takeWhile (p : Char → Bool) (cs : List Char) :
    cs.take (cs.takeWhile p).length = cs.takeWhile p :=
  (List.prefix_iff_eq_take.1 (List.takeWhile_prefix p)).symm

theorem take_nameLength (cs : List Char) : cs.take (nameLength cs) = leadingWord cs := by
  match cs with
  | [] => rfl
  | c :: cs =>
    rw [nameLength, leadingWord]
    split
    · exact take_takeWhile isWordPart (c :: cs)
    · rfl

/-- Characters of a word belong to any sort that the parts of words belong to. -/
theorem of_mem_leadingWord {p : Char → Bool} (hp : ∀ c, isWordPart c = true → p c = true) {c : Char}
    {cs : List Char} (h : c ∈ leadingWord cs) : p c = true := by
  match cs with
  | d :: ds =>
    rw [leadingWord] at h
    split at h
    · exact hp c (List.all_eq_true.1 List.all_takeWhile c h)
    · cases h

section Number

variable {p : Char → Bool} {c : Char} {cs : List Char}

theorem of_mem_digits (hp : ∀ c, Text.isDigit c = true → p c = true)
    (h : c ∈ cs.take (digitsLength cs)) : p c = true := by
  rw [digitsLength, take_takeWhile] at h
  exact hp c (List.all_eq_true.1 List.all_takeWhile c h)

theorem of_mem_fraction (hp : ∀ c, Text.isDigit c = true → p c = true) (hdot : p '.' = true)
    (h : c ∈ cs.take (fractionLength cs)) : p c = true := by
  unfold fractionLength at h
  split at h
  · next rest =>
    split at h
    · cases h
    · rw [Nat.add_comm, List.take_succ_cons] at h
      rcases List.mem_cons.1 h with rfl | h
      · exact hdot
      · exact of_mem_digits hp h
  · cases h

/-- Characters of a number belong to any sort that digits and the point belong to. -/
theorem of_mem_number (hp : ∀ c, Text.isDigit c = true → p c = true) (hdot : p '.' = true)
    (h : c ∈ cs.take (numberLength cs)) : p c = true := by
  rw [numberLength, List.take_add] at h
  rcases List.mem_append.1 h with h | h
  · exact of_mem_digits hp h
  · exact of_mem_fraction hp hdot h

end Number

theorem isPrefixOf_of_fixedLength {t : Terminal} {cs : List Char} (h : fixedLength t cs ≠ 0) :
    t.text.toList.isPrefixOf cs = true := by
  unfold fixedLength at h
  split at h
  · assumption
  · exact absurd rfl h

theorem isPrefixOf_of_longestFixed {cs : List Char} {ts : List Terminal} {t : Terminal}
    (h : longestFixed cs ts = some t) : t.text.toList.isPrefixOf cs = true := by
  induction ts with
  | nil => cases h
  | cons u us ih =>
    unfold longestFixed at h
    split at h
    · split at h
      · cases h
      · next hu =>
        cases h
        exact isPrefixOf_of_fixedLength hu
    · next best hbest =>
      split at h
      · next hlonger =>
        cases h
        exact isPrefixOf_of_fixedLength (by omega)
      · cases h
        exact ih hbest

theorem take_of_longestFixed {cs : List Char} {ts : List Terminal} {t : Terminal}
    (h : longestFixed cs ts = some t) : cs.take t.text.length = t.text.toList := by
  have hprefix := List.isPrefixOf_iff_prefix.1 (isPrefixOf_of_longestFixed h)
  rw [← String.length_toList, ← List.prefix_iff_eq_take.1 hprefix]

/-- Deleting comments leaves the token at the front of a text as it is. -/
theorem uncomment_of_token {allowed : List Terminal} {cs : List Char} {t : Terminal} {n : Nat}
    (h : scan allowed cs = some (.token t n)) :
    uncomment cs = cs.take n ++ uncomment (cs.drop n) := by
  unfold scan at h
  split at h
  · cases h
    apply uncomment_of_plain
    intro c hc
    rw [take_nameLength] at hc
    exact of_mem_leadingWord (isPlain_of rfl rfl rfl) hc
  split at h
  · cases h
    exact uncomment_of_plain fun c hc => of_mem_number (isPlain_of rfl rfl rfl) rfl hc
  split at h
  · next hstring =>
    cases h
    exact uncomment_of_string (by simpa using (Bool.and_eq_true_iff.1 hstring).2)
  split at h
  · cases h
  split at h
  · cases h
  · obtain ⟨u, hu, hut⟩ := Option.map_eq_some_iff.1 h
    cases hut
    apply uncomment_of_plain
    intro c hc
    rw [take_of_longestFixed hu] at hc
    exact isPlain_text _ c hc

theorem take_drop_uncomment {n : Nat} {cs : List Char}
    (h : uncomment cs = cs.take n ++ uncomment (cs.drop n)) :
    (uncomment cs).take n = cs.take n ∧ (uncomment cs).drop n = uncomment (cs.drop n) := by
  by_cases hn : n ≤ cs.length
  · have hlength : (cs.take n).length = n := by
      rw [List.length_take]
      omega
    rw [h]
    exact ⟨List.take_left' hlength, List.drop_left' hlength⟩
  · have hdrop : cs.drop n = [] := List.drop_eq_nil_of_le (by omega)
    have htake : cs.take n = cs := List.take_of_length_le (by omega)
    have hnil : uncomment [] = [] := rfl
    rw [hdrop, htake, hnil, List.append_nil] at h
    rw [h, hdrop, htake]
    exact ⟨rfl, rfl⟩

theorem spaceLength_of_not {c : Char} (hc : ¬isSpace c = true) (cs : List Char) :
    spaceLength (c :: cs) = 0 := by
  rw [spaceLength, List.takeWhile_cons_of_neg hc, List.length_nil]

theorem commentLength_of_ne {c : Char} (hc : c ≠ '#') (cs : List Char) :
    commentLength (c :: cs) = 0 := by
  rw [commentLength]
  rintro rest ⟨⟩
  exact hc rfl

theorem scan_ne_gap {c : Char} (hc : c ≠ '#') (hspace : ¬isSpace c = true) (cs : List Char)
    (allowed : List Terminal) (n : Nat) : scan allowed (c :: cs) ≠ some (.gap n) := by
  intro h
  rw [scan, spaceLength_of_not hspace, commentLength_of_ne hc] at h
  split at h
  · cases h
  split at h
  · cases h
  split at h
  · cases h
  · obtain ⟨t, -, ht⟩ := Option.map_eq_some_iff.1 h
    cases ht

/-- A text that starts with no comment starts with the same character without its comments. -/
theorem uncomment_eq_cons {c : Char} (hc : c ≠ '#') (cs : List Char) :
    ∃ ds, uncomment (c :: cs) = c :: ds := by
  by_cases hq : c = '"'
  · subst hq
    exact ⟨_, uncomment_string cs⟩
  · exact ⟨_, uncomment_cons hc hq cs⟩

/-- Deleting comments does not change what is scanned where no gap is. -/
theorem scan_uncomment {c : Char} {cs : List Char} (hc : c ≠ '#') (hspace : ¬isSpace c = true)
    (allowed : List Terminal) : scan allowed (c :: cs) = scan allowed (uncomment (c :: cs)) := by
  have hfront := sameFront_uncomment (c :: cs)
  obtain ⟨ds, hds⟩ := uncomment_eq_cons hc cs
  have hspaces : spaceLength (uncomment (c :: cs)) = spaceLength (c :: cs) := by
    rw [hds, spaceLength_of_not hspace, spaceLength_of_not hspace]
  have hcomment : commentLength (uncomment (c :: cs)) = commentLength (c :: cs) := by
    rw [hds, commentLength_of_ne hc, commentLength_of_ne hc]
  rw [scan, scan, take_nameLength, take_nameLength, nameLength, nameLength, hspaces, hcomment,
    stringLength_uncomment, ← hfront.leadingWord, ← hfront.numberLength, ← hfront.longestFixed]

theorem ne_of_isSpace {c : Char} (hc : isSpace c = true) : c ≠ '#' ∧ c ≠ '"' := by
  rcases mem_spaces hc with rfl | rfl | rfl | rfl | rfl <;> decide

/-- For the parser a text and the text without its comments are alike. -/
theorem alike_uncomment (cs : List Char) : Alike cs (uncomment cs) := by
  induction hn : cs.length using Nat.strongRecOn generalizing cs with
  | ind n ih =>
    match cs with
    | [] => exact .nil
    | c :: cs =>
      rw [List.length_cons] at hn
      by_cases hc : c = '#'
      · subst hc
        rw [uncomment_comment]
        have hlength := (List.dropWhile_sublist (l := cs) (· != '\n')).length_le
        exact .commentLeft (ih _ (by omega) _ rfl)
      · by_cases hspace : isSpace c = true
        · rw [uncomment_cons hc (ne_of_isSpace hspace).2]
          exact .spaceLeft hspace (.spaceRight hspace (ih _ (by omega) cs rfl))
        · obtain ⟨ds, hds⟩ := uncomment_eq_cons hc cs
          refine .lexeme (List.cons_ne_nil c cs) ?_ (scan_uncomment hc hspace)
            (scan_ne_gap hc hspace cs) ?_ ?_
          · rw [hds]
            exact List.cons_ne_nil c ds
          · intro allowed t n h
            exact (take_drop_uncomment (uncomment_of_token h)).1.symm
          · intro allowed t n h
            have hpos : n ≠ 0 := scan_length_ne_zero h
            rw [(take_drop_uncomment (uncomment_of_token h)).2]
            refine ih _ ?_ _ rfl
            rw [List.length_drop, List.length_cons]
            omega

end Lexeme

end Mandate
