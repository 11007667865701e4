/-
  Mandate.Proofs.TokenCoverage

  The tokens of a text cover it.

    * `Lexeme.IsGap`: spaces and comments, each comment up to a line end.
    * `Token.Tiles`: a text is gaps and tokens in turn, up to a rest. The tokens that
      are listed for a text tile it up to where no terminal matches
      (`tokensFrom_tiles`), those that are read as a program tile all of it
      (`parseFrom_tiles`).
    * `Token.Covers` says the same by offsets: the tokens follow each other, each is
      the part of the text it stands at, and what is left of the text are gaps.
    * `tokenize_lossless`: the tokens of a source cover the text it is laid out as,
      and a source without a token stream is covered up to a place where neither a
      terminal nor a gap starts.
-/

import Mandate.Proofs.TokenStream

namespace Mandate

/-! ## Gaps -/

namespace Lexeme

/-- Spaces and comments. A comment goes up to a line end, or, if the gap is `atEnd` of the text, up
to there. -/
inductive IsGap (atEnd : Prop) : List Char → Prop where
  | nil : IsGap atEnd []
  | space {c : Char} {cs : List Char} (hc : isSpace c = true) (h : IsGap atEnd cs) :
      IsGap atEnd (c :: cs)
  | comment {line cs : List Char} (hline : '\n' ∉ line) (h : IsGap atEnd cs) :
      IsGap atEnd ('#' :: (line ++ '\n' :: cs))
  | lastComment {line : List Char} (hend : atEnd) (hline : '\n' ∉ line) : IsGap atEnd ('#' :: line)

theorem IsGap.append {atEnd : Prop} {gap cs : List Char} (hgap : IsGap False gap)
    (h : IsGap atEnd cs) : IsGap atEnd (gap ++ cs) := by
  induction hgap with
  | nil => exact h
  | space hc _ ih => exact .space hc ih
  | @comment line gap hline _ ih =>
    rw [List.cons_append, List.append_assoc]
    exact .comment hline ih
  | lastComment hend => exact hend.elim

theorem IsGap.mono {atEnd atEnd' : Prop} {gap : List Char} (himp : atEnd → atEnd')
    (h : IsGap atEnd gap) : IsGap atEnd' gap := by
  induction h with
  | nil => exact .nil
  | space hc _ ih => exact .space hc ih
  | comment hline _ ih => exact .comment hline ih
  | lastComment hend hline => exact .lastComment (himp hend) hline

/-- A comment ends where its line does. -/
theorem span_line {line rest : List Char} (hline : '\n' ∉ line)
    (hrest : ∀ c ∈ rest.head?, c = '\n') :
    (line ++ rest).takeWhile (· != '\n') = line ∧ (line ++ rest).dropWhile (· != '\n') = rest := by
  have hpos : ∀ c ∈ line, (c != '\n') = true := by
    intro c hc
    rw [bne_iff_ne]
    rintro rfl
    exact hline hc
  have hnone : rest.takeWhile (· != '\n') = [] := by
    cases rest with
    | nil => rfl
    | cons c cs =>
      rw [hrest c rfl]
      rfl
  have htake : (line ++ rest).takeWhile (· != '\n') = line := by
    rw [List.takeWhile_append_of_pos hpos, hnone, List.append_nil]
  refine ⟨htake, ?_⟩
  rw [← drop_takeWhile, htake, List.drop_left]

/-- Whatever skips gaps skips spaces and comments in any order. -/
theorem IsGap.skip {α : Type} {f : Nat → List Char → α} {allowed : List Terminal}
    (hf : ∀ offset cs n, cs ≠ [] → scan allowed cs = some (.gap n) →
      f offset cs = f (offset + n) (cs.drop n))
    {gap cs : List Char} (h : IsGap (cs = []) gap) (offset : Nat) :
    f offset (gap ++ cs) = f (offset + gap.length) cs := by
  induction h generalizing offset with
  | nil => rfl
  | @space c gap hc _ ih =>
    rw [List.cons_append, skip_space hf hc, ih, List.length_cons]
    congr 1
    omega
  | @comment line gap hline _ ih =>
    have hspan := @span_line line ('\n' :: (gap ++ cs)) hline (by simp)
    rw [List.cons_append, List.append_assoc, List.cons_append, skip_comment hf, hspan.1, hspan.2,
      skip_space hf rfl, ih, List.length_cons, List.length_append, List.length_cons]
    congr 1
    omega
  | @lastComment line hend hline =>
    have hspan := @span_line line cs hline (by simp [hend])
    rw [List.cons_append, skip_comment hf, hspan.1, hspan.2, List.length_cons, Nat.add_comm 1]

/-- A text is empty, starts with a gap, or with something else. -/
@[elab_as_elim]
theorem gapInduction {motive : List Char → Prop} (nil : motive [])
    (gap : ∀ gap cs, IsGap (cs = []) gap → motive cs → motive (gap ++ cs))
    (lexeme : ∀ c cs, isSpace c = false → c ≠ '#' → (∀ k, k ≠ 0 → motive ((c :: cs).drop k)) →
      motive (c :: cs))
    (cs : List Char) : motive cs := by
  induction hn : cs.length using Nat.strongRecOn generalizing cs with
  | ind n ih =>
    cases cs with
    | nil => exact nil
    | cons c cs =>
      rw [List.length_cons] at hn
      cases hspace : isSpace c with
      | true => exact gap [c] cs (.space hspace .nil) (ih _ (by omega) cs rfl)
      | false =>
        by_cases hcomment : c = '#'
        · subst hcomment
          have hline : '\n' ∉ cs.takeWhile (· != '\n') := by
            intro hmem
            exact absurd (List.all_eq_true.1 List.all_takeWhile _ hmem) (by decide)
          have hsplit := List.takeWhile_append_dropWhile (p := (· != '\n')) (l := cs)
          cases hrest : cs.dropWhile (· != '\n') with
          | nil =>
            -- The comment is the last one and has no line end to it.
            rw [hrest, List.append_nil] at hsplit
            rw [hsplit] at hline
            have hlast := gap ('#' :: cs) [] (.lastComment rfl hline) nil
            rwa [List.append_nil] at hlast
          | cons d ds =>
            have hd : d = '\n' := by
              have hnot := List.head?_dropWhile_not (· != '\n') cs
              rw [hrest] at hnot
              simpa using hnot
            subst hd
            rw [hrest] at hsplit
            have hlength := congrArg List.length hsplit
            rw [List.length_append, List.length_cons] at hlength
            have hcomment := gap ('#' :: (cs.takeWhile (· != '\n') ++ ['\n'])) ds
              (.comment hline .nil) (ih _ (by omega) ds rfl)
            rw [List.cons_append, List.append_assoc, List.singleton_append, hsplit] at hcomment
            exact hcomment
        · refine lexeme c cs hspace hcomment fun k hk => ih _ ?_ _ rfl
          rw [List.length_drop, List.length_cons]
          omega

end Lexeme

/-! ## Scanned tokens are spelled -/

namespace Lexeme

open Terminal

variable {allowed : List Terminal} {cs w : List Char} {t : Terminal} {n : Nat}

theorem spells_text (h : t.text ≠ "") : t.spells t.text.toList = true := by
  revert h
  cases t <;> decide +kernel

theorem spells_nil (t : Terminal) : t.spells [] = false := by
  cases t <;> decide +kernel

theorem isWord_leadingWord (h : nameLength cs ≠ 0) : isWord (cs.take (nameLength cs)) = true := by
  cases cs with
  | nil => exact absurd rfl h
  | cons c cs =>
    have hstart : isWordStart c = true := by
      rw [← Bool.not_eq_false]
      exact fun hnot => h (nameLength_of_not hnot cs)
    rw [take_nameLength, Layout.leadingWord, if_pos hstart,
      List.takeWhile_cons_of_pos (isWordPart_of_isWordStart hstart), isWord, hstart]
    exact List.all_takeWhile

/-- A word is spelled as what it is scanned as, a name or a keyword. -/
theorem spells_wordTerminal (hw : isWord w = true) : (wordTerminal allowed w).spells w = true := by
  unfold wordTerminal
  cases hfind : allowed.find? fun t => t.isKeyword && t.text.toList == w with
  | none => exact hw
  | some t =>
    have ht := List.find?_some hfind
    rw [Bool.and_eq_true, beq_iff_eq] at ht
    rw [Option.getD_some, ← ht.2]
    apply spells_text
    have hkey := ht.1
    revert hkey
    cases t <;> decide

theorem take_fractionLength (cs : List Char) :
    fractionLength cs = 0 ∨ ∃ ds, cs.take (fractionLength cs) = '.' :: ds ∧ ds ≠ [] ∧
      ∀ c ∈ ds, Text.isDigit c = true := by
  unfold fractionLength
  split
  · next ds =>
    split
    · exact .inl rfl
    · next hsome =>
      refine .inr ⟨ds.takeWhile Text.isDigit, ?_, fun h => hsome (congrArg List.length h),
        List.all_eq_true.1 List.all_takeWhile⟩
      rw [Nat.add_comm, List.take_succ_cons, digitsLength, take_takeWhile]
  · exact .inl rfl

/-- What is scanned as a number is a numeral. -/
theorem isNumeral_number (h : numberLength cs ≠ 0) :
    isNumeral (cs.take (numberLength cs)) = true := by
  have hlength : numberLength cs = (cs.takeWhile Text.isDigit).length +
      fractionLength (cs.dropWhile Text.isDigit) := by
    rw [numberLength, digitsLength, drop_takeWhile]
  have htake : cs.take (numberLength cs) = cs.takeWhile Text.isDigit ++
      (cs.dropWhile Text.isDigit).take (fractionLength (cs.dropWhile Text.isDigit)) := by
    rw [hlength, List.take_add, drop_takeWhile, take_takeWhile]
  have hwhole := List.all_eq_true.1 (List.all_takeWhile (p := Text.isDigit) (l := cs))
  rw [htake, isNumeral, List.dropWhile_append_of_pos hwhole]
  rcases take_fractionLength (cs.dropWhile Text.isDigit) with hnone | ⟨ds, htake, hne, hds⟩
  · rw [hnone, List.take_zero, List.append_nil]
    cases hdigits : cs.takeWhile Text.isDigit with
    | nil =>
      rw [hnone, hdigits] at hlength
      exact absurd hlength h
    | cons c cs => rfl
  · rw [htake, List.dropWhile_cons_of_neg (by decide)]
    simpa [hne] using hds

/-- What is scanned of a string after its opening quote is the rest of one. -/
theorem isStringTail_stringTail (h : stringTail n cs ≠ 0) :
    ∃ k, stringTail n cs = n + k ∧ isStringTail (cs.take k) = true := by
  fun_induction stringTail n cs with
  | case1 => exact absurd rfl h
  | case2 => exact absurd rfl h
  | case3 n rest => exact absurd rfl h
  | case4 n c rest hc ih =>
    obtain ⟨k, hk, htail⟩ := ih h
    refine ⟨k + 2, by omega, ?_⟩
    rw [List.take_succ_cons, List.take_succ_cons, isStringTail, bne_iff_ne.2 hc, htail]
    rfl
  | case5 n rest hlast hescape => exact ⟨1, rfl, rfl⟩
  | case6 n c rest hlast hescape hquote ih =>
    obtain ⟨k, hk, htail⟩ := ih h
    have hc := ne_escape hlast hescape
    refine ⟨k + 1, by omega, ?_⟩
    rw [List.take_succ_cons, isStringTail, if_neg hquote, htail]
    · exact fun h => absurd h hc
    · exact fun _ _ h => absurd h hc

theorem spells_of_stringLength (h : stringLength cs ≠ 0) :
    Terminal.string.spells (cs.take (stringLength cs)) = true := by
  cases cs with
  | nil => exact absurd rfl h
  | cons c cs =>
    by_cases hc : c = '"'
    · subst hc
      rw [stringLength] at h ⊢
      obtain ⟨k, hk, htail⟩ := isStringTail_stringTail h
      rw [hk, Nat.add_comm, List.take_succ_cons, spells, List.tail_cons, htail]
      rfl
    · exact absurd (stringLength_of_ne hc cs) h

/-- A token is spelled as its terminal, whichever others were allowed. -/
theorem spells_of_scan (h : scan allowed cs = some (.token t n)) :
    t.spells (cs.take n) = true := by
  unfold scan at h
  split at h
  · next hname =>
    cases h
    exact spells_wordTerminal (isWord_leadingWord (bne_iff_ne.1 (Bool.and_eq_true_iff.1 hname).2))
  split at h
  · next hnumber =>
    cases h
    exact isNumeral_number (bne_iff_ne.1 (Bool.and_eq_true_iff.1 hnumber).2)
  split at h
  · next hstring =>
    cases h
    exact spells_of_stringLength (bne_iff_ne.1 (Bool.and_eq_true_iff.1 hstring).2)
  split at h
  · cases h
  split at h
  · cases h
  · obtain ⟨u, hu, heq⟩ := Option.map_eq_some_iff.1 h
    cases heq
    rw [take_of_longestFixed hu]
    apply spells_text
    exact fun hempty => longestFixed_text hu (by rw [hempty]; rfl)

theorem numberLength_numeral (hw : isNumeral w = true) (rest : List Char) :
    numberLength (w ++ rest) ≠ 0 := by
  obtain ⟨whole, hwhole, hcases⟩ := isNumeral_cases hw
  cases whole with
  | cons c cs =>
    have hdigit := hwhole c List.mem_cons_self
    intro hzero
    rcases hcases with ⟨rfl, -⟩ | ⟨ds, rfl, -, -⟩
    · rw [not_isDigit_of_numberLength hzero] at hdigit
      cases hdigit
    · rw [not_isDigit_of_numberLength hzero] at hdigit
      cases hdigit
  | nil =>
    rcases hcases with ⟨rfl, hne⟩ | ⟨ds, rfl, hne, hds⟩
    · exact absurd rfl hne
    · obtain ⟨d, ds, rfl⟩ := List.exists_cons_of_ne_nil hne
      rcases numberLength_point (d :: ds ++ rest) with ⟨hnext, -⟩ | ⟨-, hlt⟩
      · rw [List.cons_append, List.head?_cons, Option.any_some, hds d List.mem_cons_self] at hnext
        cases hnext
      · exact Nat.ne_of_gt (Nat.lt_trans Nat.zero_lt_one hlt)

/-- Where nothing is scanned with all terminals, no terminal is spelled at the front. -/
theorem not_spells_of_scan (h : scan Terminal.all (w ++ cs) = none) : t.spells w = false := by
  obtain ⟨hname, hnumber, hstring, -, -, hfixed⟩ := scan_eq_none h
  rw [Bool.eq_false_iff]
  intro hw
  rcases class_cases t with rfl | rfl | rfl | rfl | htext
  · have hlength := hname (Terminal.mem_all _)
    rw [nameLength_append hw] at hlength
    cases w with
    | nil => cases hw
    | cons c w => exact absurd hlength (by simp)
  · exact numberLength_numeral hw cs (hnumber (Terminal.mem_all _))
  · obtain ⟨tail, rfl, htail⟩ := spells_string hw
    have hlength := hstring (Terminal.mem_all _)
    rw [List.cons_append, stringLength, stringTail_before htail] at hlength
    omega
  · cases hw
  · have hw := eq_text_of_spells hw htext
    subst hw
    cases hkey : t.isKeyword with
    | true =>
      have hlength := hname (Terminal.mem_all _)
      rw [nameLength_append (isWord_text hkey), String.length_toList] at hlength
      exact htext (String.length_eq_zero_iff.1 (by omega))
    | false =>
      exact scan_all_ne_none_of_fixed (mem_fixed_all htext hkey) (List.prefix_append _ _) htext
        hfixed

end Lexeme

/-! ## Tiling -/

/-- Whether `cs`, the text from an offset on, is gaps and some tokens in turn, before a `rest`. -/
inductive Token.Tiles : Nat → List Char → List Token → List Char → Prop where
  | last {offset : Nat} {gap rest : List Char} (hgap : Lexeme.IsGap (rest = []) gap) :
      Token.Tiles offset (gap ++ rest) [] rest
  | cons {offset : Nat} {gap cs rest : List Char} {t : Token} {ts : List Token}
      (hgap : Lexeme.IsGap False gap) (hstart : t.start = offset + gap.length)
      (hspelled : t.isSpelled = true) (h : Token.Tiles t.stop cs ts rest) :
      Token.Tiles offset (gap ++ (t.text.toList ++ cs)) (t :: ts) rest

namespace Token.Tiles

variable {offset : Nat} {cs gap rest : List Char} {ts : List Token}

theorem eq_nil (h : Tiles offset cs ts rest) (hcs : cs = []) : ts = [] ∧ rest = [] := by
  cases h with
  | last => exact ⟨rfl, (List.append_eq_nil_iff.1 hcs).2⟩
  | cons hgap hstart hspelled h =>
    have htext := (List.append_eq_nil_iff.1 (List.append_eq_nil_iff.1 hcs).2).1
    rw [isSpelled, htext, Lexeme.spells_nil] at hspelled
    cases hspelled

/-- A gap can stand before a text. -/
theorem gap_append (hgap : Lexeme.IsGap (cs = []) gap)
    (h : Tiles (offset + gap.length) cs ts rest) : Tiles offset (gap ++ cs) ts rest := by
  by_cases hcs : cs = []
  · obtain ⟨rfl, rfl⟩ := h.eq_nil hcs
    rw [hcs]
    exact .last (hgap.mono fun _ => rfl)
  · have hbefore : Lexeme.IsGap False gap := hgap.mono hcs
    cases h with
    | last hlast =>
      rw [← List.append_assoc]
      exact .last (hbefore.append hlast)
    | cons hfirst hstart hspelled h =>
      rw [← List.append_assoc]
      refine .cons (hbefore.append hfirst) ?_ hspelled h
      rw [hstart, List.length_append, Nat.add_assoc]

/-- A scanned token can stand before what comes after it. -/
theorem token {allowed : List Terminal} {t : Terminal} {n : Nat}
    (hscan : Lexeme.scan allowed cs = some (.token t n))
    (h : Tiles (offset + n) (cs.drop n) ts rest) :
    Tiles offset cs (⟨t, String.ofList (cs.take n), offset⟩ :: ts) rest := by
  have hlength := Lexeme.length_taken hscan
  have hspelled : (⟨t, String.ofList (cs.take n), offset⟩ : Token).isSpelled = true := by
    rw [isSpelled, String.toList_ofList]
    exact Lexeme.spells_of_scan hscan
  have htoken : Tiles offset ([] ++ ((String.ofList (cs.take n)).toList ++ cs.drop n))
      (⟨t, String.ofList (cs.take n), offset⟩ :: ts) rest := by
    refine Tiles.cons (t := ⟨t, String.ofList (cs.take n), offset⟩) .nil rfl hspelled ?_
    rw [stop, hlength]
    exact h
  rw [String.toList_ofList, List.nil_append, List.take_append_drop] at htoken
  exact htoken

end Token.Tiles

/-- The tokens that are listed for a text tile it, up to where no terminal matches. -/
theorem tokensFrom_tiles (offset : Nat) (cs : List Char) :
    (∃ ts, tokensFrom offset cs = .ok ts ∧ Token.Tiles offset cs ts []) ∨
      ∃ ts rest, tokensFrom offset cs = .error (offset + (cs.length - rest.length)) ∧
        rest ≠ [] ∧ rest <:+ cs ∧ Token.Tiles offset cs ts rest ∧
        Lexeme.scan Terminal.all rest = none := by
  induction cs using Lexeme.gapInduction generalizing offset with
  | nil =>
    refine .inl ⟨[], ?_, .last .nil⟩
    rw [tokensFrom]
    rfl
  | gap gap cs hgap ih =>
    rw [hgap.skip (f := tokensFrom) (fun _ _ _ => tokensFrom_eq_gap)]
    rcases ih (offset + gap.length) with ⟨ts, hts, htiles⟩ | ⟨ts, rest, hts, hne, hrest, htiles, hscan⟩
    · exact .inl ⟨ts, hts, htiles.gap_append hgap⟩
    · have hle := hrest.length_le
      refine .inr ⟨ts, rest, ?_, hne, hrest.trans (List.suffix_append gap cs),
        htiles.gap_append hgap, hscan⟩
      rw [hts, List.length_append]
      congr 1
      omega
  | lexeme c cs hspace hcomment ih =>
    have hnonempty : c :: cs ≠ [] := List.cons_ne_nil c cs
    cases hscan : Lexeme.scan Terminal.all (c :: cs) with
    | none =>
      refine .inr ⟨[], c :: cs, ?_, hnonempty, List.suffix_refl _, .last .nil, hscan⟩
      rw [tokensFrom_of_unread (Lexeme.unread_of_scan hnonempty hscan).1,
        (Lexeme.unread_of_scan hnonempty hscan).2, Nat.sub_self]
    | some x =>
      cases x with
      | gap n => exact absurd hscan (Lexeme.scan_ne_gap hcomment (by rw [hspace]; decide) cs _ n)
      | token t n =>
        have hlength : n ≤ (c :: cs).length := Lexeme.scan_length_le hscan
        rw [tokensFrom_eq_token hnonempty hscan]
        rcases ih n (Lexeme.scan_length_ne_zero hscan) (offset + n) with
          ⟨ts, hts, htiles⟩ | ⟨ts, rest, hts, hne, hrest, htiles, hstuck⟩
        · exact .inl ⟨_, by rw [hts]; rfl, htiles.token hscan⟩
        · have hle := hrest.length_le
          rw [List.length_drop] at hle
          refine .inr ⟨_, rest, ?_, hne, hrest.trans (List.drop_suffix n _),
            htiles.token hscan, hstuck⟩
          rw [hts, List.length_drop, Except.map]
          congr 1
          omega

section Parse

variable {offset : Nat} {cs : List Char} {q : ItemSet} {stack : Stack q}
  {tree : Tree (.branch .program)}

theorem settle_of_parseFrom (h : parseFrom offset [] stack = .ok tree) :
    settle .finish stack = .accept tree rfl := by
  cases hsettle : settle .finish stack with
  | accept accepted hfinish =>
    rw [parseFrom_eq_ok hsettle] at h
    cases h
    rfl
  | reject r =>
    rw [parseFrom_eq_unfinished hsettle] at h
    cases h
  | shift below hreads =>
    rw [ItemSet.reads_finish] at hreads
    cases hreads

/-- What does not start with a gap starts with a token that can be read. -/
theorem shift_of_parseFrom {c : Char} (hspace : Lexeme.isSpace c = false) (hcomment : c ≠ '#')
    (h : parseFrom offset (c :: cs) stack = .ok tree) :
    ∃ (t : Terminal) (n : Nat) (r : ItemSet) (below : Stack r) (hreads : r.reads (.leaf t) = true),
      Lexeme.scan q.expected (c :: cs) = some (.token t n) ∧
      settle t stack = .shift below hreads ∧
      parseFrom (offset + n) ((c :: cs).drop n)
        (below.push (.leaf t (String.ofList ((c :: cs).take n)) offset)) = .ok tree := by
  have hne : c :: cs ≠ [] := List.cons_ne_nil c cs
  cases hscan : Lexeme.scan q.expected (c :: cs) with
  | none =>
    obtain ⟨rejection, hrejected⟩ := parseFrom_eq_unread stack offset hne hscan
    rw [hrejected] at h
    cases h
  | some x =>
    cases x with
    | gap n =>
      exact absurd hscan (Lexeme.scan_ne_gap hcomment (by rw [hspace]; decide) cs _ n)
    | token t n =>
      cases hsettle : settle t stack with
      | accept accepted hfinish =>
        rw [hfinish] at hscan
        exact absurd hscan Lexeme.scan_ne_finish
      | reject r =>
        rw [parseFrom_eq_unexpected hne hscan hsettle] at h
        cases h
      | shift below hreads =>
        rw [parseFrom_eq_shift hne hscan hsettle] at h
        exact ⟨t, n, _, below, hreads, rfl, hsettle, h⟩

/-- A token that can be read is pushed. -/
theorem parseFrom_token {w rest : List Char} {t : Terminal} {n : Nat} {r : ItemSet}
    {below : Stack r} {hreads : r.reads (.leaf t) = true}
    (hscan : Lexeme.scan q.expected (w ++ rest) = some (.token t n)) (hlength : w.length = n)
    (hsettle : settle t stack = .shift below hreads) :
    parseFrom offset (w ++ rest) stack =
      parseFrom (offset + n) rest (below.push (.leaf t (String.ofList w) offset)) := by
  have hne : w ++ rest ≠ [] := by
    intro hnil
    have hle : n ≤ (w ++ rest).length := Lexeme.scan_length_le hscan
    rw [hnil] at hle
    exact Lexeme.scan_length_ne_zero hscan (Nat.le_zero.1 hle)
  subst hlength
  rw [parseFrom_eq_shift hne hscan hsettle, List.take_left, List.drop_left]

/-- The tokens that are read as a program tile all of a text. -/
theorem parseFrom_tiles (h : parseFrom offset cs stack = .ok tree) :
    ∃ ts, tree.tokens = stack.tokens ++ ts ∧ Token.Tiles offset cs ts [] := by
  induction cs using Lexeme.gapInduction generalizing offset q with
  | nil =>
    have hfollows := settle_follows .finish stack
    rw [settle_of_parseFrom h] at hfollows
    refine ⟨[], ?_, .last .nil⟩
    rw [List.append_nil]
    exact hfollows.1
  | gap gap cs hgap ih =>
    rw [hgap.skip (f := (parseFrom · · stack)) (fun _ _ _ => parseFrom_eq_gap)] at h
    obtain ⟨ts, htokens, htiles⟩ := ih h
    exact ⟨ts, htokens, htiles.gap_append hgap⟩
  | lexeme c cs hspace hcomment ih =>
    obtain ⟨t, n, r, below, hreads, hscan, hsettle, hrest⟩ := shift_of_parseFrom hspace hcomment h
    obtain ⟨ts, htokens, htiles⟩ := ih n (Lexeme.scan_length_ne_zero hscan) hrest
    have hfollows := settle_follows t stack
    rw [hsettle] at hfollows
    refine ⟨_, ?_, htiles.token hscan⟩
    rw [htokens, Stack.tokens, Tree.tokens, hfollows.1, List.append_assoc, List.singleton_append]

end Parse

/-! ## Covering -/

/-- The stretches before, between and after some tokens, each from an offset to another. -/
def Token.stretches (start stop : Nat) : List Token → List (Nat × Nat)
  | [] => [(start, stop)]
  | t :: ts => (start, t.start) :: Token.stretches t.stop stop ts

/-- Tokens that cover a part of a text, with gaps before, between and after them. -/
structure Token.Covers (text : List Char) (start stop : Nat) (ts : List Token) : Prop where
  nonempty : ∀ t ∈ ts, t.start < t.stop
  ordered : ts.Pairwise fun t u => t.stop ≤ u.start
  within : ∀ t ∈ ts, start ≤ t.start ∧ t.stop ≤ stop
  /-- Each token is the part of the text it stands at. -/
  slice : ∀ t ∈ ts, t.text.toList = text.extract t.start t.stop
  spelled : ∀ t ∈ ts, t.isSpelled = true
  gaps : ∀ s ∈ Token.stretches start stop ts,
    s.1 ≤ s.2 ∧ Lexeme.IsGap (s.2 = text.length) (text.extract s.1 s.2)

/-- A place in a text where neither a terminal nor a gap matches. -/
structure Lexeme.NoneAt (text : List Char) (offset : Nat) : Prop where
  gap : ∃ c, text[offset]? = some c ∧ Lexeme.isSpace c = false ∧ c ≠ '#'
  terminal : ∀ (t : Terminal) n, t.spells ((text.drop offset).take n) = false

/-- A part of a text is what stands at its offsets. -/
theorem extract_of_drop {text w cs : List Char} {start : Nat} (h : text.drop start = w ++ cs) :
    text.extract start (start + w.length) = w := by
  rw [List.extract_eq_take_drop, h, Nat.add_sub_cancel_left, List.take_left]

theorem Token.length_pos_of_isSpelled {t : Token} (h : t.isSpelled = true) : 0 < t.text.length := by
  rw [← String.length_toList]
  refine List.length_pos_iff.2 fun hnil => ?_
  rw [isSpelled, hnil, Lexeme.spells_nil] at h
  cases h

namespace Token.Tiles

variable {text cs rest : List Char} {start : Nat} {ts : List Token}

theorem length_le (h : Tiles start cs ts rest) : rest.length ≤ cs.length := by
  induction h with
  | last =>
    rw [List.length_append]
    omega
  | cons _ _ _ _ ih =>
    rw [List.length_append, List.length_append]
    omega

/-- Tokens that tile a text cover it. -/
theorem covers (h : Tiles start cs ts rest) (hcs : text.drop start = cs)
    (hstart : start ≤ text.length) : Covers text start (text.length - rest.length) ts := by
  induction h with
  | @last start gap rest hgap =>
    have hlength := congrArg List.length hcs
    rw [List.length_drop, List.length_append] at hlength
    have hstop : text.length - rest.length = start + gap.length := by omega
    refine ⟨by simp, .nil, by simp, by simp, by simp, ?_⟩
    rw [stretches, List.forall_mem_singleton, hstop, extract_of_drop hcs]
    refine ⟨Nat.le_add_right _ _, hgap.mono fun hrest => ?_⟩
    rw [hrest, List.length_nil] at hlength
    omega
  | @cons start gap cs rest t ts hgap hat hspelled h ih =>
    have hlength := congrArg List.length hcs
    rw [List.length_drop, List.length_append, List.length_append, String.length_toList] at hlength
    have hdrop : text.drop t.start = t.text.toList ++ cs := by
      rw [hat, ← List.drop_drop, hcs, List.drop_left]
    have hrest : text.drop t.stop = cs := by
      rw [stop, ← List.drop_drop, hdrop, ← String.length_toList, List.drop_left]
    have hpos := length_pos_of_isSpelled hspelled
    have hstop : t.stop = t.start + t.text.length := rfl
    have hafter := ih hrest (by omega)
    have hle := h.length_le
    -- The token first, then what is known about the ones after it.
    refine ⟨List.forall_mem_cons.2 ⟨by omega, hafter.nonempty⟩,
      .cons (fun u hu => (hafter.within u hu).1) hafter.ordered,
      List.forall_mem_cons.2 ⟨⟨by omega, by omega⟩, fun u hu => ?_⟩,
      List.forall_mem_cons.2 ⟨?_, hafter.slice⟩,
      List.forall_mem_cons.2 ⟨hspelled, hafter.spelled⟩,
      List.forall_mem_cons.2 ⟨⟨?_, ?_⟩, hafter.gaps⟩⟩
    · have hu := hafter.within u hu
      exact ⟨by omega, hu.2⟩
    · rw [hstop, ← String.length_toList, extract_of_drop hdrop]
    · rw [hat]
      exact Nat.le_add_right _ _
    · rw [hat, extract_of_drop hcs]
      exact hgap.mono False.elim

end Token.Tiles

/-- Where nothing is scanned, neither a terminal nor a gap matches. -/
theorem Lexeme.noneAt_of_scan {text rest : List Char} {offset : Nat} (hrest : rest ≠ [])
    (hdrop : text.drop offset = rest) (hscan : Lexeme.scan Terminal.all rest = none) :
    Lexeme.NoneAt text offset := by
  refine ⟨?_, fun t n => ?_⟩
  · obtain ⟨c, cs, rfl⟩ := List.exists_cons_of_ne_nil hrest
    refine ⟨c, ?_, ?_, ?_⟩
    · rw [← List.head?_drop, hdrop, List.head?_cons]
    · rw [Bool.eq_false_iff]
      intro hspace
      rw [Lexeme.scan_space hspace] at hscan
      cases hscan
    · rintro rfl
      rw [Lexeme.scan_comment] at hscan
      cases hscan
  · rw [← List.take_append_drop n rest, ← hdrop] at hscan
    exact Lexeme.not_spells_of_scan hscan

/-- The tokens of a source cover the text it is laid out as. A source has no token stream only
if its text is covered up to a place where neither a terminal nor a gap matches, and the error
points there. -/
theorem tokenize_lossless (source : List Char) :
    (∃ tokens, tokenize source = .ok tokens ∧
      Token.Covers (Layout.separate source) 0 (Layout.separate source).length tokens) ∨
    ∃ (error : SyntaxError) (offset : Nat) (tokens : List Token),
      tokenize source = .error error ∧ error.span.start = offset ∧
      (source[offset]? = some '"' ∧ (∃ line, error.cause = .unterminatedString line) ∨
        source[offset]? ≠ some '"' ∧ ∃ c, error.cause = .invalidCharacter c) ∧
      Token.Covers (Layout.separate source) 0 offset tokens ∧
      Lexeme.NoneAt (Layout.separate source) offset := by
  generalize htext : Layout.separate source = text
  rcases tokensFrom_tiles 0 text with
    ⟨tokens, htokens, htiles⟩ | ⟨tokens, rest, htokens, hne, hrest, htiles, hscan⟩
  · refine .inl ⟨tokens, ?_, htiles.covers List.drop_zero (Nat.zero_le _)⟩
    rw [tokenize, htext, htokens]
  · have hcovers := htiles.covers List.drop_zero (Nat.zero_le _)
    rw [Nat.zero_add] at htokens
    refine .inr ⟨unreadable source text (text.length - rest.length), _, tokens, ?_, ?_, ?_, hcovers,
      Lexeme.noneAt_of_scan hne (List.suffix_iff_eq_drop.1 hrest).symm hscan⟩
    · rw [tokenize, htext, htokens]
    · unfold unreadable
      dsimp only
      split
      · rfl
      · rfl
    · unfold unreadable
      dsimp only
      rw [List.head?_drop]
      split
      · next hquote => exact .inl ⟨hquote, _, rfl⟩
      · next hquote => exact .inr ⟨hquote, _, rfl⟩

end Mandate
