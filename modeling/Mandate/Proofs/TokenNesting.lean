/-
  Mandate.Proofs.TokenNesting

  What the places between tokens are inside of.

    * `Layout.commentless`: there is no `#` outside of strings. Laying out such a
      source changes nothing about what its places are inside of
      (`Layout.nestingAt_separate`).
    * `Layout.Nesting.over_spelled`: a token starts and ends in code, and changes the
      depth only if it is a bracket.
    * `Token.Tiles.over_take`: so the depth of a place between tokens is the one that
      the tokens before it lead to (`Token.depthAfter`).
    * `Tree.depthAfter_tokens`: a derivation tree ends at the depth it starts at.
-/

import Mandate.Proofs.LineEnds
import Mandate.Proofs.TokenCoverage

namespace Mandate

namespace Layout

/-! ## Sources without comments -/

/-- Whether no comment starts in a text that is read from some mode on. -/
def Mode.commentless (m : Mode) : List Char → Bool
  | [] => true
  | c :: cs => m.after c != .comment && (m.after c).commentless cs

/-- Whether there is no `#` outside of the strings of a source. -/
def commentless (source : List Char) : Bool := Mode.code.commentless source

theorem Mode.commentless_cons {m : Mode} {c : Char} {cs : List Char} :
    m.commentless (c :: cs) = true ↔ m.after c ≠ .comment ∧ (m.after c).commentless cs = true := by
  rw [Mode.commentless, Bool.and_eq_true, bne_iff_ne]

/-- A gap without comments is spaces. -/
theorem isSpace_of_commentless {atEnd : Prop} {gap cs : List Char} (h : Lexeme.IsGap atEnd gap)
    (hc : commentless (gap ++ cs) = true) :
    (∀ c ∈ gap, Lexeme.isSpace c = true) ∧ commentless cs = true := by
  induction h with
  | nil => exact ⟨by simp, hc⟩
  | @space c gap hspace _ ih =>
    have hcode : Mode.code.after c = .code := by
      rcases Lexeme.mem_spaces hspace with rfl | rfl | rfl | rfl | rfl <;> rfl
    rw [List.cons_append, commentless, Mode.commentless_cons, hcode] at hc
    obtain ⟨hgap, hcs⟩ := ih hc.2
    exact ⟨List.forall_mem_cons.2 ⟨hspace, hgap⟩, hcs⟩
  | comment | lastComment => exact absurd rfl (Mode.commentless_cons.1 hc).1

theorem Mode.eq_code {m : Mode} (hstring : m.inString = false) (hcomment : m ≠ .comment) :
    m = .code := by
  cases m with
  | code => rfl
  | comment => exact absurd rfl hcomment
  | string | escape => cases hstring

/-- What is written for a character leads to the same place, if no comment goes on there. -/
theorem nesting_written {s : State} (h : s.mode ≠ .comment) (c : Char) (ahead : List Char) :
    s.nesting.after (s.read c ahead).1 = s.nesting.after c := by
  rw [read_fst]
  split
  · next hsep =>
    obtain ⟨rfl, hstring, -⟩ := hsep
    have hmode : s.nesting.mode = .code := Mode.eq_code hstring h
    rw [Nesting.after, Nesting.after, hmode]
    rfl
  · rfl

theorem over_separateFrom {s : State} {cs : List Char} (hs : s.mode ≠ .comment)
    (hcs : s.mode.commentless cs = true) (k : Nat) :
    s.nesting.over ((separateFrom s cs).take k) = s.nesting.over (cs.take k) ∧
      s.mode.commentless (separateFrom s cs) = true := by
  induction cs generalizing s k with
  | nil => exact ⟨rfl, rfl⟩
  | cons c cs ih =>
    obtain ⟨hafter, hrest⟩ := Mode.commentless_cons.1 hcs
    have hmode : (s.read c cs).2.mode = s.mode.after c := congrArg Nesting.mode (nesting_read s c cs)
    have hwritten := nesting_written hs c cs
    have hwrittenMode : s.mode.after (s.read c cs).1 = s.mode.after c :=
      congrArg Nesting.mode hwritten
    have hind := @ih (s.read c cs).2 (by rwa [hmode]) (by rwa [hmode])
    refine ⟨?_, ?_⟩
    · cases k with
      | zero => rfl
      | succ k =>
        have hk := (hind k).1
        rw [nesting_read] at hk
        rw [separateFrom_cons, List.take_succ_cons, List.take_succ_cons, Nesting.over,
          List.foldl_cons, hwritten]
        exact hk
    · rw [separateFrom_cons, Mode.commentless_cons, hwrittenMode]
      have hrest := (hind 0).2
      rw [hmode] at hrest
      exact ⟨hafter, hrest⟩

theorem nestingAt_separate {source : List Char} (h : commentless source = true) (k : Nat) :
    nestingAt (separate source) k = nestingAt source k :=
  (over_separateFrom (s := {}) (by decide) h k).1

theorem commentless_separate {source : List Char} (h : commentless source = true) :
    commentless (separate source) = true :=
  (over_separateFrom (s := {}) (by decide) h 0).2

end Layout

/-! ## Tokens -/

/-- The bracket depth after a terminal. -/
def Terminal.depthAfter (depth : Nat) : Terminal → Nat
  | .openRound | .openSquare => depth + 1
  | .closeRound | .closeSquare => depth - 1
  | _ => depth

/-- The bracket depth after some tokens. -/
def Token.depthAfter (depth : Nat) (ts : List Token) : Nat :=
  ts.foldl (fun depth t => t.terminal.depthAfter depth) depth

namespace Layout

/-- The characters of code over which changes what a place is inside of. -/
def turns : List Char := ['#', '"', '(', '[', '\x7b', ')', ']', '\x7d']

/-- Whether a character of code changes nothing about what a place is inside of. -/
def isNeutral (c : Char) : Bool := !turns.contains c

theorem isNeutral_of {p : Char → Bool} (hp : turns.all (!p ·) = true) :
    ∀ c, p c = true → isNeutral c = true := by
  intro c hc
  rw [isNeutral, Bool.not_eq_true', Bool.eq_false_iff, ne_eq, List.contains_iff_mem]
  intro hmem
  have hnot := List.all_eq_true.1 hp c hmem
  rw [hc] at hnot
  cases hnot

namespace Nesting

variable {depth : Nat} {w : List Char}

theorem over_append (n : Nesting) (a b : List Char) : n.over (a ++ b) = (n.over a).over b :=
  List.foldl_append

theorem after_neutral {c : Char} (hc : isNeutral c = true) :
    Nesting.after ⟨.code, depth⟩ c = ⟨.code, depth⟩ := by
  simp [isNeutral, turns] at hc
  simp [Nesting.after, Mode.after, Layout.depthAfter, hc]

theorem over_neutral (hw : ∀ c ∈ w, isNeutral c = true) :
    Nesting.over ⟨.code, depth⟩ w = ⟨.code, depth⟩ := by
  induction w with
  | nil => rfl
  | cons c w ih =>
    rw [Nesting.over, List.foldl_cons, after_neutral (hw c List.mem_cons_self)]
    exact ih fun d hd => hw d (List.mem_cons_of_mem c hd)

theorem over_stringTail (hw : Terminal.isStringTail w = true) :
    Nesting.over ⟨.string, depth⟩ w = ⟨.code, depth⟩ := by
  fun_induction Terminal.isStringTail w with
  | case1 => cases hw
  | case2 => cases hw
  | case3 c cs ih =>
    rw [Bool.and_eq_true] at hw
    exact ih hw.2
  | case4 cs _ _ =>
    rw [List.isEmpty_iff.1 hw]
    rfl
  | case5 c cs hlast hescape hquote ih =>
    have hc := Lexeme.ne_escape hlast hescape
    rw [Nesting.over, List.foldl_cons, Nesting.after, Mode.after, if_neg hc, if_neg hquote]
    exact ih hw

/-- A token starts and ends in code. -/
theorem over_spelled {t : Terminal} (hw : t.spells w = true) :
    Nesting.over ⟨.code, depth⟩ w = ⟨.code, t.depthAfter depth⟩ := by
  rcases Lexeme.class_cases t with rfl | rfl | rfl | rfl | htext
  · cases w with
    | nil => cases hw
    | cons c cs =>
      rw [Terminal.spells, Terminal.isWord, Bool.and_eq_true, List.all_eq_true] at hw
      have hpart : ∀ c, isWordPart c = true → isNeutral c = true := isNeutral_of (by decide)
      exact over_neutral (List.forall_mem_cons.2
        ⟨hpart c (Lexeme.isWordPart_of_isWordStart hw.1), fun d hd => hpart d (hw.2 d hd)⟩)
  · have hdigit : ∀ c, Text.isDigit c = true → isNeutral c = true := isNeutral_of (by decide)
    obtain ⟨whole, hwhole, ⟨rfl, -⟩ | ⟨ds, rfl, -, hds⟩⟩ := Lexeme.isNumeral_cases hw
    · exact over_neutral fun c hc => hdigit c (hwhole c hc)
    · exact over_neutral (List.forall_mem_append.2 ⟨fun c hc => hdigit c (hwhole c hc),
        List.forall_mem_cons.2 ⟨by decide, fun c hc => hdigit c (hds c hc)⟩⟩)
  · obtain ⟨tail, rfl, htail⟩ := Lexeme.spells_string hw
    exact over_stringTail htail
  · cases hw
  · rw [Lexeme.eq_text_of_spells hw htext]
    by_cases hneutral : t.text.toList.all isNeutral = true
    · have hdepth : t.depthAfter depth = depth := by
        revert hneutral
        cases t <;> first | exact fun _ => rfl | exact fun h => absurd h (by decide +kernel)
      rw [over_neutral (List.all_eq_true.1 hneutral), hdepth]
    · revert hneutral
      cases t <;> first | exact fun h => absurd (by decide +kernel) h | exact fun _ => rfl

/-- What comes after a text without comments has none either. -/
theorem commentless_over {n : Nesting} {a b : List Char} (h : n.mode.commentless (a ++ b) = true) :
    (n.over a).mode.commentless b = true := by
  induction a generalizing n with
  | nil => exact h
  | cons c a ih => exact @ih (n.after c) (Mode.commentless_cons.1 h).2

/-- What comes after a token in code is code. -/
theorem commentless_of_spelled {t : Terminal} {cs : List Char} (hw : t.spells w = true)
    (h : commentless (w ++ cs) = true) : commentless cs = true := by
  have hafter := commentless_over (n := ⟨.code, 0⟩) h
  rw [over_spelled hw] at hafter
  exact hafter

theorem over_spaces (hw : ∀ c ∈ w, Lexeme.isSpace c = true) :
    Nesting.over ⟨.code, depth⟩ w = ⟨.code, depth⟩ :=
  over_neutral fun c hc => isNeutral_of (by decide) c (hw c hc)

end Nesting

end Layout

/-! ## Between tokens -/

namespace Token

open Layout

theorem depthAfter_cons (depth : Nat) (t : Token) (ts : List Token) :
    depthAfter depth (t :: ts) = depthAfter (t.terminal.depthAfter depth) ts := rfl

theorem depthAfter_append (depth : Nat) (ts us : List Token) :
    depthAfter depth (ts ++ us) = depthAfter (depthAfter depth ts) us :=
  List.foldl_append

namespace Tiles

variable {offset depth : Nat} {cs rest : List Char} {ts : List Token}

/-- The text before the first token and the token lead to the depth after it. -/
theorem over_token (depth : Nat) {gap : List Char} {t : Token} (hgap : Lexeme.IsGap False gap)
    (hspelled : t.isSpelled = true) (hcs : commentless (gap ++ (t.text.toList ++ cs)) = true) :
    Nesting.over ⟨.code, depth⟩ (gap ++ t.text.toList) =
      ⟨.code, t.terminal.depthAfter depth⟩ ∧ commentless cs = true := by
  obtain ⟨hspaces, hrest⟩ := isSpace_of_commentless hgap hcs
  have hover : Nesting.over ⟨.code, depth⟩ t.text.toList = ⟨.code, t.terminal.depthAfter depth⟩ :=
    Nesting.over_spelled hspelled
  refine ⟨?_, Nesting.commentless_of_spelled hspelled hrest⟩
  rw [Nesting.over_append, Nesting.over_spaces hspaces, hover]

/-- All of a text leads to the depth after its tokens. -/
theorem over_all (h : Tiles offset cs ts rest) (hrest : rest = []) (hcs : commentless cs = true) :
    Nesting.over ⟨.code, depth⟩ cs = ⟨.code, depthAfter depth ts⟩ := by
  induction h generalizing depth with
  | last hgap =>
    rw [hrest, List.append_nil]
    exact Nesting.over_spaces (isSpace_of_commentless hgap hcs).1
  | @cons offset gap cs rest t ts hgap hstart hspelled h ih =>
    obtain ⟨htoken, hafter⟩ := over_token depth hgap hspelled hcs
    rw [← List.append_assoc, Nesting.over_append, htoken, ih hrest hafter, depthAfter_cons]

/-- A place between two tokens is as deep as the tokens before it lead to. -/
theorem over_take {before after : List Token} {u : Token} {i : Nat}
    (h : Tiles offset cs (before ++ u :: after) rest) (hcs : commentless cs = true)
    (hoffset : offset ≤ i) (hbefore : ∀ t ∈ before, t.stop ≤ i) (hu : i ≤ u.start) :
    Nesting.over ⟨.code, depth⟩ (cs.take (i - offset)) = ⟨.code, depthAfter depth before⟩ := by
  induction before generalizing offset cs depth with
  | nil =>
    cases h with
    | @cons _ gap cs _ _ _ hgap hstart hspelled h =>
      obtain ⟨hspaces, -⟩ := isSpace_of_commentless hgap hcs
      rw [List.take_append_of_le_length (by omega)]
      exact Nesting.over_spaces fun c hc => hspaces c (List.mem_of_mem_take hc)
  | cons t before ih =>
    cases h with
    | @cons _ gap cs _ _ _ hgap hstart hspelled h =>
      have hstop : t.stop = t.start + t.text.length := rfl
      have hti := hbefore t List.mem_cons_self
      obtain ⟨htoken, hafter⟩ := over_token depth hgap hspelled hcs
      have hlength : (gap ++ t.text.toList).length = t.stop - offset := by
        rw [List.length_append, String.length_toList]
        omega
      have hind := @ih _ (t.terminal.depthAfter depth) _ h hafter hti
        fun x hx => hbefore x (List.mem_cons_of_mem t hx)
      rw [← List.append_assoc, List.take_append, hlength, List.take_of_length_le (by omega),
        Nesting.over_append, htoken, depthAfter_cons, ← hind]
      congr 2
      omega

end Tiles

end Token

/-! ## Trees -/

/-- The bracket depth after what a symbol derives. -/
def Symbol.depthAfter (depth : Nat) : Symbol → Nat
  | .leaf t => t.depthAfter depth
  | .branch _ => depth

/-- The brackets of a right side are in pairs. -/
theorem Production.depthAfter_rhs (p : Production) (depth : Nat) :
    p.rhs.foldl Symbol.depthAfter depth = depth := by
  cases p <;> rfl

mutual

/-- A derivation tree of a nonterminal ends at the depth it starts at. -/
theorem Tree.depthAfter_tokens {s : Symbol} : (tree : Tree s) → (depth : Nat) →
    Token.depthAfter depth tree.tokens = s.depthAfter depth
  | .leaf .., _ => rfl
  | .node p children, depth => (children.depthAfter_tokens depth).trans (p.depthAfter_rhs depth)

theorem Forest.depthAfter_tokens {ss : List Symbol} : (forest : Forest ss) → (depth : Nat) →
    Token.depthAfter depth forest.tokens = ss.foldl Symbol.depthAfter depth
  | .nil, _ => rfl
  | .cons head tail, depth => by
    rw [Forest.tokens, Token.depthAfter_append, head.depthAfter_tokens, List.foldl_cons,
      tail.depthAfter_tokens]

end

end Mandate
