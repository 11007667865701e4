/-
  Mandate.Proofs.Gaps

  Spaces and comments between tokens. A parse skips a space one character at a
  time (`parseFrom_space`) and a comment up to its line end (`parseFrom_comment`).

  `Lexeme.Alike cs ds` says that two texts hold the same lexemes, whatever a
  parser may ask for at each place, with any gaps between them. Alike texts are
  parsed to derivation trees that differ only in where their tokens start
  (`parseFrom_agree`), so sources that are laid out alike stand for programs that
  differ only in their spans (`parse_agree`).
-/

import Mandate.Proofs.Spanless

namespace Mandate

/-! ## Skipping -/

namespace Lexeme

theorem mem_spaces {c : Char} (hc : isSpace c = true) :
    c = ' ' ∨ c = '\t' ∨ c = '\x0c' ∨ c = '\r' ∨ c = '\n' := by
  simpa [isSpace] using hc

theorem scan_space {c : Char} (hc : isSpace c = true) (allowed : List Terminal)
    (cs : List Char) : scan allowed (c :: cs) = some (.gap (1 + spaceLength cs)) := by
  have hspace : spaceLength (c :: cs) = 1 + spaceLength cs := by
    rw [spaceLength, List.takeWhile_cons_of_pos hc, List.length_cons, spaceLength, Nat.add_comm]
  have hname : nameLength (c :: cs) = 0 := by
    rcases mem_spaces hc with rfl | rfl | rfl | rfl | rfl <;> rfl
  have hnumber : numberLength (c :: cs) = 0 := by
    rcases mem_spaces hc with rfl | rfl | rfl | rfl | rfl <;> rfl
  have hstring : stringLength (c :: cs) = 0 := by
    rcases mem_spaces hc with rfl | rfl | rfl | rfl | rfl <;> rfl
  simp [scan, hname, hnumber, hstring, hspace]

theorem scan_comment (allowed : List Terminal) (cs : List Char) :
    scan allowed ('#' :: cs) = some (.gap (1 + (cs.takeWhile (· != '\n')).length)) := by
  have hname : nameLength ('#' :: cs) = 0 := rfl
  have hnumber : numberLength ('#' :: cs) = 0 := rfl
  have hstring : stringLength ('#' :: cs) = 0 := rfl
  have hspace : spaceLength ('#' :: cs) = 0 := rfl
  simp [scan, hname, hnumber, hstring, hspace, commentLength]

theorem drop_takeWhile (p : Char → Bool) (cs : List Char) :
    cs.drop (cs.takeWhile p).length = cs.dropWhile p := by
  induction cs with
  | nil => rfl
  | cons c cs ih =>
    by_cases hc : p c = true
    · rw [List.takeWhile_cons_of_pos hc, List.dropWhile_cons_of_pos hc, List.length_cons,
        List.drop_succ_cons, ih]
    · rw [List.takeWhile_cons_of_neg hc, List.dropWhile_cons_of_neg hc, List.length_nil,
        List.drop_zero]

/-- Whatever skips gaps skips a space by itself. -/
theorem skip_space {α : Type} {f : Nat → List Char → α} {allowed : List Terminal}
    (hf : ∀ offset cs n, cs ≠ [] → scan allowed cs = some (.gap n) →
      f offset cs = f (offset + n) (cs.drop n))
    {c : Char} (hc : isSpace c = true) (offset : Nat) (cs : List Char) :
    f offset (c :: cs) = f (offset + 1) cs := by
  rw [hf offset _ _ (List.cons_ne_nil c cs) (scan_space hc allowed cs), Nat.add_comm 1,
    List.drop_succ_cons]
  cases cs with
  | nil => rfl
  | cons d ds =>
    by_cases hd : isSpace d = true
    · have hlength : spaceLength (d :: ds) = 1 + spaceLength ds := by
        rw [spaceLength, List.takeWhile_cons_of_pos hd, List.length_cons, spaceLength, Nat.add_comm]
      rw [hf (offset + 1) _ _ (List.cons_ne_nil d ds) (scan_space hd allowed ds), hlength]
      congr 1
      omega
    · rw [spaceLength, List.takeWhile_cons_of_neg hd]
      rfl

/-- Whatever skips gaps skips a comment. -/
theorem skip_comment {α : Type} {f : Nat → List Char → α} {allowed : List Terminal}
    (hf : ∀ offset cs n, cs ≠ [] → scan allowed cs = some (.gap n) →
      f offset cs = f (offset + n) (cs.drop n))
    (offset : Nat) (cs : List Char) :
    f offset ('#' :: cs) = f (offset + (1 + (cs.takeWhile (· != '\n')).length))
      (cs.dropWhile (· != '\n')) := by
  rw [hf offset _ _ (List.cons_ne_nil _ cs) (scan_comment allowed cs), Nat.add_comm 1,
    List.drop_succ_cons, drop_takeWhile]

end Lexeme

section Skip

variable {q : ItemSet} (stack : Stack q) (offset : Nat) (cs : List Char)

/-- A space before a text changes nothing but its offset. -/
theorem parseFrom_space {c : Char} (hc : Lexeme.isSpace c = true) :
    parseFrom offset (c :: cs) stack = parseFrom (offset + 1) cs stack :=
  Lexeme.skip_space (f := (parseFrom · · stack)) (fun _ _ _ => parseFrom_eq_gap) hc offset cs

/-- A comment before a text changes nothing but its offset. -/
theorem parseFrom_comment :
    parseFrom offset ('#' :: cs) stack
      = parseFrom (offset + (1 + (cs.takeWhile (· != '\n')).length))
          (cs.dropWhile (· != '\n')) stack :=
  Lexeme.skip_comment (f := (parseFrom · · stack)) (fun _ _ _ => parseFrom_eq_gap) offset cs

end Skip

/-! ## Texts with the same lexemes -/

/-- Two texts that hold the same lexemes, whatever may be asked for at each place, with any
gaps between them. -/
inductive Lexeme.Alike : List Char → List Char → Prop where
  | nil : Alike [] []
  | spaceLeft {c : Char} {cs ds : List Char} (hc : isSpace c = true) (h : Alike cs ds) :
      Alike (c :: cs) ds
  | spaceRight {c : Char} {cs ds : List Char} (hc : isSpace c = true) (h : Alike cs ds) :
      Alike cs (c :: ds)
  | commentLeft {cs ds : List Char} (h : Alike (cs.dropWhile (· != '\n')) ds) :
      Alike ('#' :: cs) ds
  | commentRight {cs ds : List Char} (h : Alike cs (ds.dropWhile (· != '\n'))) :
      Alike cs ('#' :: ds)
  /-- Neither text starts with a gap. -/
  | lexeme {cs ds : List Char} (hcs : cs ≠ []) (hds : ds ≠ [])
      (hscan : ∀ allowed, scan allowed cs = scan allowed ds)
      (hgap : ∀ allowed n, scan allowed cs ≠ some (.gap n))
      (htake : ∀ allowed t n, scan allowed cs = some (.token t n) → cs.take n = ds.take n)
      (hrest : ∀ allowed t n, scan allowed cs = some (.token t n) →
        Alike (cs.drop n) (ds.drop n)) :
      Alike cs ds

theorem settle_bare_eq (t : Terminal) {q : ItemSet} {stack stack' : Stack q}
    (h : stack.bare = stack'.bare) : (settle t stack).bare = (settle t stack').bare := by
  rw [← settle_bare, ← settle_bare, h]

/-- Alike texts are parsed to trees that differ only in where their tokens start. -/
theorem parseFrom_agree {cs ds : List Char} (h : Lexeme.Alike cs ds) {q : ItemSet}
    {stack stack' : Stack q} (hstack : stack.bare = stack'.bare) (offset offset' : Nat) :
    Agree Tree.bare (parseFrom offset cs stack) (parseFrom offset' ds stack') := by
  -- A gap is read on one side while the other waits, so the induction cannot be the parser's.
  induction h generalizing q offset offset' with
  | nil =>
    have hsettle := settle_bare_eq .finish hstack
    generalize hx : settle .finish stack = x, hy : settle .finish stack' = y at hsettle
    match x, y, hsettle with
    | .accept tree _, .accept tree' _, hsettle =>
      rw [parseFrom_eq_ok hx, parseFrom_eq_ok hy]
      injection hsettle with htree
      exact .ok htree
    | .reject r, .reject r', _ =>
      rw [parseFrom_eq_unfinished hx, parseFrom_eq_unfinished hy]
      exact .error _ _
    | .shift _ hr, _, _ => simp [ItemSet.reads_finish] at hr
  | spaceLeft hc h ih =>
    rw [parseFrom_space _ _ _ hc]
    exact ih hstack _ _
  | spaceRight hc h ih =>
    rw [parseFrom_space _ _ _ hc]
    exact ih hstack _ _
  | commentLeft h ih =>
    rw [parseFrom_comment]
    exact ih hstack _ _
  | commentRight h ih =>
    rw [parseFrom_comment]
    exact ih hstack _ _
  | @lexeme cs ds hcs hds hscan hgap htake hrest ih =>
    match hlex : Lexeme.scan q.expected cs with
    | none =>
      obtain ⟨e, he⟩ := parseFrom_eq_unread stack offset hcs hlex
      obtain ⟨e', he'⟩ := parseFrom_eq_unread stack' offset' hds ((hscan _).symm.trans hlex)
      rw [he, he']
      exact .error e e'
    | some (.gap n) => exact absurd hlex (hgap _ n)
    | some (.token t n) =>
      have hlex' := (hscan _).symm.trans hlex
      have hsettle := settle_bare_eq t hstack
      generalize hx : settle t stack = x, hy : settle t stack' = y at hsettle
      match x, y, hsettle with
      | .accept _ ht, _, _ =>
        subst ht
        exact absurd hlex Lexeme.scan_ne_finish
      | .reject r, .reject r', _ =>
        rw [parseFrom_eq_unexpected hcs hlex hx, parseFrom_eq_unexpected hds hlex' hy]
        exact .error _ _
      | .shift below hr, .shift below' hr', hsettle =>
        rw [parseFrom_eq_shift hcs hlex hx, parseFrom_eq_shift hds hlex' hy]
        injection hsettle with hstate hbelow
        subst hstate
        apply ih _ t n hlex
        rw [Stack.bare, Stack.bare, eq_of_heq hbelow, Tree.bare, Tree.bare, htake _ t n hlex]

/-- Sources that are laid out alike stand for programs that differ only in their spans. -/
theorem parse_agree {source source' : List Char}
    (h : Lexeme.Alike (Layout.separate source) (Layout.separate source')) :
    Agree Node.bare (parse source) (parse source') := by
  have htree : Agree Tree.bare (parseTree (Layout.separate source))
      (parseTree (Layout.separate source')) := parseFrom_agree h rfl 0 0
  unfold parse
  dsimp only
  generalize parseTree (Layout.separate source) = x,
    parseTree (Layout.separate source') = y at htree
  cases htree with
  | ok h => exact Tree.meaning_agree h
  | error e e' => exact .error _ _

end Mandate
