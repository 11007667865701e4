/-
  Mandate.Proofs.WrittenText

  Texts made of tokens with spaces only where they are wanted.

    * `Lexeme.goesOn`: whether some token that starts with a text could go on with a
      character. Where it could not, a token is scanned as if the text ended there
      (`Lexeme.scan_ends`).
    * `Token.Written ts cs`: the text is the tokens in turn, each before a character it
      does not go on with, and any spaces between them.
    * `parse_written`: a text that the tokens of a derivation tree are written as
      stands for what the tree stands for, spans aside.
-/

import Mandate.Proofs.TokenBreaks

namespace Mandate

/-! ## Where a token ends -/

namespace Lexeme

open Terminal

/-- Whether a text is at the front of a name or keyword, a number or a mark that goes on with a
character. -/
def goesOn (w : List Char) (c : Char) : Bool :=
  w.head?.any isWordStart && isWordPart c ||
    w.head?.any (fun d => Text.isDigit d || d == '.') && (Text.isDigit c || c == '.') ||
    Terminal.all.any fun t => (w ++ [c]).isPrefixOf t.text.toList

section Ends

variable {w rest : List Char} (h : ∀ c ∈ rest.head?, goesOn w c = false)

include h

theorem leadingWord_ends (hw : w ≠ []) :
    Layout.leadingWord (w ++ rest) = Layout.leadingWord w := by
  obtain ⟨d, w, rfl⟩ := List.exists_cons_of_ne_nil hw
  by_cases hd : isWordStart d = true
  · apply leadingWord_append_of_head
    intro c hc
    have hends := h c hc
    simp only [goesOn, Bool.or_eq_false_iff, List.head?_cons, Option.any_some, hd,
      Bool.true_and] at hends
    exact hends.1.1
  · rw [List.cons_append, Layout.leadingWord, if_neg hd, Layout.leadingWord, if_neg hd]

theorem numberLength_ends (hw : w ≠ []) : numberLength (w ++ rest) = numberLength w := by
  obtain ⟨d, w, rfl⟩ := List.exists_cons_of_ne_nil hw
  by_cases hd : (Text.isDigit d || d == '.') = true
  · have hends : ∀ c ∈ rest.head?, Text.isDigit c = false ∧ (c == '.') = false := by
      intro c hc
      have hends := h c hc
      simp only [goesOn, Bool.or_eq_false_iff, List.head?_cons, Option.any_some, hd,
        Bool.true_and] at hends
      exact hends.1.2
    exact numberLength_append_of_head (fun c hc => (hends c hc).1)
      (fun c hc => beq_eq_false_iff_ne.1 (hends c hc).2) _
  · rw [Bool.or_eq_true, not_or, Bool.not_eq_true, beq_iff_eq] at hd
    rw [List.cons_append, numberLength_of_not hd.1, numberLength_of_not hd.1,
      SameFront.fractionLength_of_ne hd.2, SameFront.fractionLength_of_ne hd.2]

theorem fixedLength_ends (t : Terminal) : fixedLength t (w ++ rest) = fixedLength t w := by
  apply fixedLength_append_of_head
  intro c hc hlonger
  have hends := h c hc
  rw [goesOn, Bool.or_eq_false_iff, List.any_eq_false] at hends
  exact hends.2 t t.mem_all (List.isPrefixOf_iff_prefix.2 hlonger)

/-- A token is scanned as if the text ended where it does not go on. -/
theorem scan_ends {allowed : List Terminal} {t : Terminal} {n : Nat}
    (hscan : scan allowed w = some (.token t n)) :
    scan allowed (w ++ rest) = some (.token t n) := by
  have hw : w ≠ [] := by
    rintro rfl
    exact scan_length_ne_zero hscan (Nat.le_zero.1 (scan_length_le hscan))
  refine scan_of_same hscan ?_ (fun _ => leadingWord_ends h hw)
    (fun _ => numberLength_ends h hw) (fun _ => ?_) fun hfixed _ => ?_
  · obtain ⟨d, w, rfl⟩ := List.exists_cons_of_ne_nil hw
    rfl
  · obtain ⟨d, w, rfl⟩ := List.exists_cons_of_ne_nil hw
    by_cases hd : d = '"'
    · subst hd
      exact stringTail_append (stringLength_of_scan hscan) rest
    · rw [List.cons_append, stringLength_of_ne hd, stringLength_of_ne hd]
  · rw [longestFixed_congr fun u _ => fixedLength_ends h u, hfixed]

end Ends

/-- A text does not go on into another if it goes on with none of the characters that this can
start with. -/
theorem goesOn_eq_false {w cs followers : List Char} (hcs : ∀ c ∈ cs.head?, c ∈ followers)
    (h : followers.all (fun c => !goesOn w c) = true) : ∀ c ∈ cs.head?, goesOn w c = false := by
  intro c hc
  have hnot := List.all_eq_true.1 h c (hcs c hc)
  rwa [Bool.not_eq_true'] at hnot

end Lexeme

/-! ## Written tokens -/

/-- A token with a text that its terminal stands for; a name is no keyword. -/
structure Token.Proper (t : Token) : Prop where
  spelled : t.isSpelled = true
  free : t.terminal = .name → Terminal.isReserved t.text.toList = false

/-- A text that is some tokens in turn, each up to where it does not go on, with any spaces
between them. -/
inductive Token.Written : List Token → List Char → Prop where
  | nil : Written [] []
  | space {ts : List Token} {cs : List Char} (h : Written ts cs) : Written ts (' ' :: cs)
  | token {t : Token} {ts : List Token} {cs : List Char} (ht : t.Proper)
      (hends : ∀ c ∈ cs.head?, Lexeme.goesOn t.text.toList c = false) (h : Written ts cs) :
      Written (t :: ts) (t.text.toList ++ cs)

/-- A token with a fixed text. -/
def Token.fixed (t : Terminal) : Token := ⟨t, t.text, 0⟩

theorem Token.Proper.fixed {t : Terminal} (ht : t.text ≠ "") : (Token.fixed t).Proper := by
  cases t with
  | string | number | name | finish => exact absurd rfl ht
  | _ => exact ⟨beq_self_eq_true _, fun h => by cases h⟩

theorem Token.Written.fixed {ts : List Token} {cs : List Char} {t : Terminal} (ht : t.text ≠ "")
    (h : Token.Written ts cs) (hends : ∀ c ∈ cs.head?, Lexeme.goesOn t.text.toList c = false) :
    Token.Written (Token.fixed t :: ts) (t.text.toList ++ cs) :=
  .token (.fixed ht) hends h

/-- A proper token is scanned as itself where it is allowed and does not go on. -/
theorem Token.Proper.scan {t : Token} (h : t.Proper) {cs : List Char}
    (hends : ∀ c ∈ cs.head?, Lexeme.goesOn t.text.toList c = false) {allowed : List Terminal}
    (ht : t.terminal ∈ allowed) :
    Lexeme.scan allowed (t.text.toList ++ cs)
      = some (.token t.terminal t.text.toList.length) := by
  have halone : Lexeme.scan allowed (t.text.toList ++ []) = _ :=
    Lexeme.scan_spelled ht h.spelled h.free (by simp)
  rw [List.append_nil] at halone
  exact Lexeme.scan_ends hends halone

/-- There is nothing to lay out in a written text. -/
theorem Layout.separateFrom_written {ts : List Token} {cs : List Char} (h : Token.Written ts cs)
    {s : State} (hs : s.mode = .code) : separateFrom s cs = cs := by
  induction h generalizing s with
  | nil => rfl
  | @space ts cs _ ih =>
    obtain ⟨hwritten, hmode⟩ := read_plain hs (c := ' ') rfl cs
    rw [separateFrom_cons, hwritten, ih hmode]
  | @token t ts cs ht _ _ ih =>
    obtain ⟨s', hs', hrest⟩ := separateFrom_spelled hs ht.spelled cs
    rw [hrest, ih hs']

/-- What tokens lead to, a text they are written as leads to, wherever the tokens start. -/
theorem Stack.Derives.parseFrom_written {q : ItemSet} {stack stack' : Stack q} {ts : List Token}
    {cs : List Char} {program : Tree (.branch .program)} (hwritten : Token.Written ts cs)
    (h : stack.Derives ts program) (hstack : stack.bare = stack'.bare) (offset : Nat) :
    ∃ program', parseFrom offset cs stack' = .ok program' ∧ program'.bare = program.bare := by
  induction hwritten generalizing q offset with
  | nil => exact h.parseFrom_nil hstack offset
  | space _ ih =>
    rw [parseFrom_space _ _ _ rfl]
    exact ih h hstack (offset + 1)
  | token ht hends _ ih =>
    obtain ⟨r, next, next', hnext, hbare, hread⟩ :=
      h.parseFrom_cons hstack (fun _ hmem => ht.scan hends hmem) offset
    rw [hread]
    exact ih hnext hbare _

/-- A text that the tokens of a clear tree are written as stands for what the tree stands for,
spans aside. -/
theorem parse_written {tree : Tree (.branch .program)} {cs : List Char} {ast : Node}
    (hwritten : Token.Written tree.tokens cs) (hclear : tree.isClear .finish = true)
    (hmeaning : tree.meaning = .ok ast) :
    ∃ program : Node, parse cs = .ok program ∧ program.bare = ast.bare := by
  obtain ⟨tree', htree, hbare⟩ :=
    Stack.Derives.parseFrom_written hwritten (tree.derives hclear) rfl 0
  have hagree := Tree.meaning_agree hbare
  rw [hmeaning] at hagree
  generalize hx : tree'.meaning = x at hagree
  cases hagree with
  | @ok program _ h =>
    refine ⟨program, ?_, h⟩
    rw [parse, Layout.separate, Layout.separateFrom_written hwritten rfl, parseTree, htree]
    exact hx

end Mandate
