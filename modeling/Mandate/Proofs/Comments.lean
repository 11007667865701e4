/-
  Mandate.Proofs.Comments

  What a comment does to a program: nothing, as long as its line end stays one.

    * `Layout.commentsClose` tells whether no line end that closes a comment is
      taken for a separator when a source is laid out. The `;` that such a line end
      becomes does not close the comment, which then takes the next line with it.
    * `Layout.separate_uncomment`: exactly then laying out a source commutes with
      deleting its comments.
-/

import Mandate.Proofs.Uncomment

namespace Mandate

/-! ## Laying out a source without its comments -/

namespace Layout

/-- Whether every line end that closes a comment stays a line end when a source is laid out,
after a beginning of which `s` is known. -/
def commentsClose (s : State) : List Char → Bool
  | [] => true
  | c :: rest =>
    decide (s.mode = .comment → (s.read c rest).1 = c) && commentsClose (s.read c rest).2 rest

theorem skipComment_eq (cs : List Char) :
    nextCode.skipComment cs = nextCode (cs.dropWhile (· != '\n')) := by
  induction cs with
  | nil => rfl
  | cons c cs ih =>
    by_cases hc : c = '\n'
    · subst hc
      rfl
    · rw [dropWhile_line hc, nextCode.skipComment, if_neg hc, ih]

theorem nextCode_comment (cs : List Char) :
    nextCode ('#' :: cs) = nextCode (cs.dropWhile (· != '\n')) := by
  rw [nextCode, if_pos rfl, skipComment_eq]

theorem nextCode_blank {c : Char} (hc : c ≠ '#') (hblank : Text.isBlank c = true)
    (cs : List Char) : nextCode (c :: cs) = nextCode cs := by
  rw [nextCode, if_neg hc, if_pos hblank]

theorem nextCode_cons {c : Char} (hc : c ≠ '#') (hblank : ¬Text.isBlank c = true)
    (cs : List Char) : nextCode (c :: cs) = c :: cs := by
  rw [nextCode, if_neg hc, if_neg hblank]

/-- The next code of a text is in no comment, so it is the same without the comments, and no
comment is at its front. -/
theorem nextCode_uncomment (cs : List Char) :
    nextCode (uncomment cs) = uncomment (nextCode cs) ∧
      ∀ ds, nextCode cs ≠ '#' :: ds := by
  -- A comment is skipped as a whole, so the induction is on the length.
  induction hn : cs.length using Nat.strongRecOn generalizing cs with
  | ind n ih =>
    match cs with
    | [] => exact ⟨rfl, fun ds h => by cases h⟩
    | c :: cs =>
      rw [List.length_cons] at hn
      by_cases hc : c = '#'
      · subst hc
        have hlength := (List.dropWhile_sublist (l := cs) (· != '\n')).length_le
        rw [uncomment_comment, nextCode_comment]
        exact ih _ (by omega) _ rfl
      · by_cases hblank : Text.isBlank c = true
        · have hq : c ≠ '"' := by
            rintro rfl
            exact absurd hblank (by decide)
          rw [uncomment_cons hc hq, nextCode_blank hc hblank, nextCode_blank hc hblank]
          exact ih _ (by omega) _ rfl
        · obtain ⟨ds, hds⟩ := Lexeme.uncomment_eq_cons hc cs
          rw [nextCode_cons hc hblank, hds, nextCode_cons hc hblank]
          refine ⟨rfl, ?_⟩
          rintro ds ⟨⟩
          exact hc rfl

/-- Comments do not decide whether an expression goes on over a line end. -/
theorem continues_uncomment (behind ahead : List Char) :
    continues behind (uncomment ahead) = continues behind ahead := by
  obtain ⟨hnext, hcomment⟩ := nextCode_uncomment ahead
  have hword := (Lexeme.sameFront_uncomment (nextCode ahead)).leadingWord
  unfold continues
  simp only [hnext]
  match hahead : nextCode ahead with
  | [] => rfl
  | c :: cs =>
    have hc : c ≠ '#' := by
      rintro rfl
      exact hcomment cs hahead
    obtain ⟨ds, hds⟩ := Lexeme.uncomment_eq_cons hc cs
    rw [hahead, hds] at hword
    rw [hds, hword]
    cases behind.dropWhile Text.isBlank with
    | nil => rfl
    | cons last rest => rfl

theorem mode_readCode (s : State) (c : Char) (ahead : List Char) :
    (s.readCode c ahead).2.mode = Mode.code.after c := by
  rw [State.readCode, Mode.after]
  by_cases hc : c = '#'
  · rw [if_pos hc, if_pos hc]
  · by_cases hq : c = '"'
    · rw [if_neg hc, if_neg hc, if_pos hq, if_pos hq]
    · rw [if_neg hc, if_neg hc, if_neg hq, if_neg hq]
      dsimp only
      split <;> rfl

theorem readCode_fst (s : State) (c : Char) (ahead : List Char) :
    (s.readCode c ahead).1 = c ∨ (c = '\n' ∧ (s.readCode c ahead).1 = ';') := by
  rw [State.readCode]
  by_cases hc : c = '#'
  · exact .inl (by rw [if_pos hc])
  · by_cases hq : c = '"'
    · exact .inl (by rw [if_neg hc, if_pos hq])
    · rw [if_neg hc, if_neg hq]
      dsimp only
      split
      · next hsep =>
        simp only [Bool.and_eq_true, decide_eq_true_eq] at hsep
        exact .inr ⟨hsep.1.1, rfl⟩
      · exact .inl rfl

theorem readCode_uncomment (s : State) (c : Char) (ahead : List Char) :
    s.readCode c (uncomment ahead) = s.readCode c ahead := by
  rw [State.readCode, State.readCode, continues_uncomment]

/-- What the next character is part of depends on this one alone. -/
theorem mode_read (s : State) (c : Char) (ahead : List Char) :
    (s.read c ahead).2.mode = s.mode.after c := by
  rw [State.read]
  cases hmode : s.mode with
  | code => exact mode_readCode s c ahead
  | comment =>
    by_cases hc : c = '\n'
    · subst hc
      exact mode_readCode s '\n' ahead
    · simp [Mode.after, hc, hmode]
  | string =>
    by_cases hc : c = '\\'
    · simp [Mode.after, hc]
    · by_cases hq : c = '"'
      · simp [Mode.after, hq]
      · simp [Mode.after, hc, hq, hmode]
  | escape => rfl

/-- The state in which the line end of a comment is read without the comment. -/
def State.resumed (s : State) : State :=
  if s.mode = .comment then { s with mode := .code } else s

theorem State.resumed_of_ne {s : State} (h : s.mode ≠ .comment) : s.resumed = s := if_neg h

/-- A character of a comment is kept, and leaves nothing behind but the comment. -/
theorem read_of_comment {s : State} {c : Char} (h : s.mode.after c = .comment)
    (ahead : List Char) :
    (s.read c ahead).1 = c ∧ (s.read c ahead).2.resumed = s.resumed := by
  obtain ⟨mode, depth, behind⟩ := s
  cases mode with
  | code =>
    by_cases hc : c = '#'
    · subst hc
      exact ⟨rfl, rfl⟩
    · by_cases hq : c = '"' <;> simp [Mode.after, hc, hq] at h
  | comment =>
    by_cases hc : c = '\n'
    · simp [Mode.after, hc] at h
    · simp [State.read, hc]
  | string =>
    by_cases hc : c = '\\'
    · simp [Mode.after, hc] at h
    · by_cases hq : c = '"' <;> simp [Mode.after, hc, hq] at h
  | escape => cases h

/-- A character outside comments is read the same without the comments after it, and without
the comment before it. -/
theorem read_uncomment {s : State} {c : Char} (h : s.mode.after c ≠ .comment)
    (ahead : List Char) :
    s.resumed.read c (uncommentFrom (s.mode.after c) ahead) = s.read c ahead := by
  obtain ⟨mode, depth, behind⟩ := s
  cases mode with
  | code =>
    by_cases hc : c = '#'
    · simp [Mode.after, hc] at h
    · by_cases hq : c = '"'
      · subst hq
        rfl
      · have hafter : Mode.code.after c = .code := by simp [Mode.after, hc, hq]
        rw [hafter]
        exact readCode_uncomment _ c ahead
  | comment =>
    by_cases hc : c = '\n'
    · subst hc
      exact readCode_uncomment _ '\n' ahead
    · simp [Mode.after, hc] at h
  | string => rfl
  | escape => rfl

/-- What is written for a character opens and closes nothing that the character does not. -/
theorem after_read {s : State} {c : Char} {ahead : List Char}
    (h : s.mode = .comment → (s.read c ahead).1 = c) :
    s.mode.after (s.read c ahead).1 = s.mode.after c := by
  obtain ⟨mode, depth, behind⟩ := s
  cases mode with
  | code =>
    rcases readCode_fst ⟨.code, depth, behind⟩ c ahead with hread | ⟨rfl, hread⟩
    · exact congrArg (Mode.after .code) hread
    · exact (congrArg (Mode.after .code) hread).trans rfl
  | comment => rw [h rfl]
  | string =>
    by_cases hc : c = '\\'
    · simp [State.read, hc]
    · by_cases hq : c = '"' <;> simp [State.read, hc, hq]
  | escape => rfl

theorem separateFrom_cons (s : State) (c : Char) (cs : List Char) :
    separateFrom s (c :: cs) = (s.read c cs).1 :: separateFrom (s.read c cs).2 cs := rfl

/-- A line end that is written as something else is written as `;`. -/
theorem read_of_ne {s : State} {c : Char} {ahead : List Char} (hmode : s.mode = .comment)
    (h : (s.read c ahead).1 ≠ c) : c = '\n' ∧ (s.read c ahead).1 = ';' := by
  rw [State.read, hmode] at h ⊢
  dsimp only at h ⊢
  by_cases hc : c = '\n'
  · rw [if_pos hc] at h ⊢
    exact (readCode_fst s c ahead).resolve_left h
  · rw [if_neg hc] at h
    exact absurd rfl h

/-- Laying out what is left of a source commutes with deleting its comments exactly if every
line end that closes one stays one. -/
theorem separateFrom_uncomment (s : State) (cs : List Char) :
    separateFrom s.resumed (uncommentFrom s.mode cs) = uncommentFrom s.mode (separateFrom s cs) ↔
      commentsClose s cs = true := by
  induction cs generalizing s with
  | nil => simp [uncommentFrom, separateFrom, commentsClose]
  | cons c cs ih =>
    have ih := ih (s.read c cs).2
    rw [mode_read] at ih
    rw [commentsClose, Bool.and_eq_true, decide_eq_true_eq, ← ih]
    -- The character is deleted with its comment, or kept, or the line end that becomes `;`.
    by_cases hafter : s.mode.after c = .comment
    · obtain ⟨hkept, hresumed⟩ := read_of_comment hafter cs
      rw [separateFrom_cons, hkept, hresumed, uncommentFrom, uncommentFrom, if_pos hafter,
        if_pos hafter, hafter]
      exact ⟨fun h => ⟨fun _ => rfl, h⟩, And.right⟩
    · have hmode : (s.read c cs).2.mode ≠ .comment := by
        rw [mode_read]
        exact hafter
      by_cases hstay : s.mode = .comment → (s.read c cs).1 = c
      · rw [State.resumed_of_ne hmode, separateFrom_cons, uncommentFrom, uncommentFrom,
          after_read hstay, if_neg hafter, if_neg hafter, separateFrom_cons,
          read_uncomment hafter, List.cons_inj_right]
        exact ⟨fun h => ⟨hstay, h⟩, And.right⟩
      · -- The `;` is written on one side, and lost in the comment on the other.
        obtain ⟨hcomment, hne⟩ := Classical.not_imp.1 hstay
        obtain ⟨rfl, hsemicolon⟩ := read_of_ne hcomment hne
        refine ⟨fun h => ?_, fun h => absurd h.1 hstay⟩
        rw [separateFrom_cons, hsemicolon, uncommentFrom, if_neg hafter, separateFrom_cons,
          read_uncomment hafter, hsemicolon, hcomment] at h
        rcases uncomment_comment_cases (separateFrom (s.read '\n' cs).2 cs) with hnil | ⟨ds, hline⟩
        · cases h.trans hnil
        · cases h.trans hline

/-- Laying out a source commutes with deleting its comments exactly if every line end that
closes one stays one. -/
theorem separate_uncomment {source : List Char} :
    separate (uncomment source) = uncomment (separate source) ↔
      commentsClose {} source = true :=
  separateFrom_uncomment {} source

end Layout

/-! ## Programs without their comments -/

/-- Deleting its comments does not change what a source stands for, nor whether it stands for
anything, if every line end that closes a comment stays a line end. -/
theorem parse_uncomment {source : List Char} (h : Layout.commentsClose {} source = true) :
    Agree Node.bare (parse source) (parse (Layout.uncomment source)) := by
  apply parse_agree
  rw [Layout.separate_uncomment.2 h]
  exact Lexeme.alike_uncomment (Layout.separate source)

/-- A comment inside brackets and one at the end of the text. -/
def commentedBrackets : List Char := "x <- ( # one\n 1) # two".toList

theorem parse_uncomment_brackets :
    Layout.commentsClose {} commentedBrackets = true ∧
      Layout.uncomment commentedBrackets = "x <- ( \n 1) ".toList ∧
      (parse commentedBrackets).isOk = true ∧
      Agree Node.bare (parse commentedBrackets) (parse (Layout.uncomment commentedBrackets)) :=
  ⟨by decide +kernel, by decide +kernel, by decide +kernel, parse_uncomment (by decide +kernel)⟩

theorem Node.label_bare (n : Node) : n.bare.label = n.label := by
  cases n <;> rfl

theorem Agree.label_eq {x y : Except SyntaxError Node} (h : Agree Node.bare x y) :
    x.toOption.map Node.label = y.toOption.map Node.label := by
  cases h with
  | @ok a b h =>
    show some a.label = some b.label
    rw [← a.label_bare, ← b.label_bare, h]
  | error e e' => rfl

/-- A comment whose line end separates two expressions. -/
def swallowedLine : List Char := "print 1 # c\nprint 2".toList

/-- The comment takes the next line with it: with the comment the source stands for one
`print`, without it for two. -/
theorem not_agree_swallowedLine :
    Layout.commentsClose {} swallowedLine = false ∧
      ¬Agree Node.bare (parse swallowedLine) (parse (Layout.uncomment swallowedLine)) := by
  refine ⟨by decide +kernel, fun h => ?_⟩
  have hlabels : (parse swallowedLine).toOption.map Node.label
      ≠ (parse (Layout.uncomment swallowedLine)).toOption.map Node.label := by decide +kernel
  exact hlabels h.label_eq

end Mandate
