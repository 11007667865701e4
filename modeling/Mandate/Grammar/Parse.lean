/-
  Mandate.Grammar.Parse

  Parsing: a text to the derivation tree of a program.

  A stack holds the trees built so far, indexed by the state they lead to, so a
  complete right side can always be taken off it (`Stack.pop`): there is no
  stuck configuration to handle. `settle` makes the reductions that the next
  terminal asks for; every one of them makes the stack lighter. `parseFrom` then
  reads the token and goes on with the rest of the text.

  Each token is read with the terminals on which the current state can go on.
  If none of them matches, all of them are tried, to tell an unexpected token
  from characters that are no token at all.
-/

import Mandate.Grammar.Automaton
import Mandate.Grammar.Tree

namespace Mandate

/-! ## The stack -/

/-- The trees read and built so far, indexed by the state they lead to. -/
inductive Stack : ItemSet → Type where
  | bottom : Stack ItemSet.start
  | push {q : ItemSet} {s : Symbol} (below : Stack q) (tree : Tree s) : Stack (q.goto s)

namespace Stack

/-- The weight of the symbols on a stack. -/
def weight {q : ItemSet} : Stack q → Nat
  | .bottom => 0
  | .push (s := s) below _ => below.weight + s.weight

/-- The tokens on a stack, first read first. -/
def tokens {q : ItemSet} : Stack q → List Token
  | .bottom => []
  | .push below tree => below.tokens ++ tree.tokens

end Stack

/-- A stack from which the right side of `p` has been taken; `weight` is what it weighed
before. -/
structure Popped (p : Production) (weight : Nat) where
  state : ItemSet
  stack : Stack state
  children : Forest p.rhs
  weight_eq : stack.weight + Symbol.total p.rhs = weight

/-- Takes the first `d` symbols of the right side of `p` off a stack that holds them, in front
of the trees of the others. -/
def Stack.popFrom (p : Production) (weight : Nat) : (d : Nat) → {q : ItemSet} →
    (stack : Stack q) → q.has p d = true → d ≤ p.rhs.length →
    (later : Forest (p.rhs.drop d)) →
    stack.weight + Symbol.total (p.rhs.drop d) = weight → Popped p weight
  | 0, q, stack, _, _, later, hw => ⟨q, stack, later, hw⟩
  | d + 1, _, .bottom, h, hd, _, _ =>
    absurd h (by
      have := p.rhs_length_lt
      simp [ItemSet.has_start (p := p) (d := d) (by omega)])
  | d + 1, _, .push (q := q) (s := s) below tree, h, hd, later, hw =>
    have hlt : d < p.rhs.length := by omega
    have hfrom := ItemSet.has_goto (by have := p.rhs_length_lt; omega) h
    have hdrop : s :: p.rhs.drop (d + 1) = p.rhs.drop d := by
      rw [List.drop_eq_getElem_cons hlt]
      have := (List.getElem?_eq_some_iff.1 hfrom.2).2
      rw [this]
    popFrom p weight d below hfrom.1 (by omega) (hdrop ▸ .cons tree later) (by
      rw [← hw, ← hdrop]
      simp [Stack.weight, Symbol.total]
      omega)

/-- Takes the right side of `p` off a stack that ends with it. -/
def Stack.pop {q : ItemSet} (stack : Stack q) (p : Production) (h : q.has p p.rhs.length = true) :
    Popped p stack.weight :=
  stack.popFrom p stack.weight p.rhs.length h (Nat.le_refl _)
    (List.drop_length (l := p.rhs) ▸ .nil) (by simp [Symbol.total])

/-! ## Reducing -/

/-- What becomes of a stack when the reductions that a terminal asks for are made. -/
inductive Settled (t : Terminal) where
  /-- The terminal can be read. -/
  | shift {q : ItemSet} (stack : Stack q) (h : q.reads (.leaf t) = true)
  /-- The text has ended and is a program. -/
  | accept (tree : Tree (.branch .program)) (h : t = .finish)
  /-- Nothing can be done in this state. -/
  | reject (q : ItemSet)

theorem ItemSet.reads_of_action {q : ItemSet} {t : Terminal}
    (h : q.action t = some .shift) : q.reads (.leaf t) = true := by
  unfold ItemSet.action at h
  split at h
  · assumption
  · simp at h

theorem ItemSet.mem_follow_of_action {q : ItemSet} {t : Terminal} {p : Production}
    (h : q.action t = some (.reduce p)) : t ∈ p.lhs.follow := by
  unfold ItemSet.action at h
  split at h
  · simp at h
  · simp only [Option.map_eq_some_iff, ItemSet.Action.reduce.injEq] at h
    obtain ⟨r, hr, rfl⟩ := h
    have ht := List.find?_some hr
    unfold ItemSet.lookahead at ht
    simp only [decide_eq_true_eq] at ht
    split at ht
    · exact (List.mem_filter.1 ht).1
    · split at ht
      · exact (List.mem_filter.1 ht).1
      · exact ht

/-- Makes the reductions that the terminal `t` asks for. -/
def settle (t : Terminal) {q : ItemSet} (stack : Stack q) : Settled t :=
  match h : q.action t with
  | none => .reject q
  | some .shift => .shift stack (ItemSet.reads_of_action h)
  | some (.reduce p) =>
    match stack.pop p (ItemSet.has_of_action h) with
    | ⟨_, below, children, hw⟩ =>
      if hp : p.lhs = .program then
        .accept (hp ▸ .node p children) (by
          have := ItemSet.mem_follow_of_action h
          rw [hp] at this
          simpa [Nonterminal.follow] using this)
      else settle t (below.push (.node p children))
termination_by stack.weight
decreasing_by
  have := p.lhs_weight_lt hp
  simp only [Stack.weight, Symbol.weight]
  omega

/-! ## Reading -/

/-- Why a text is no program. -/
inductive Rejection where
  /-- No terminal matches at this offset. -/
  | character (offset : Nat)
  /-- One of the terminals expected should have come instead of this token. -/
  | token (expected : List Terminal) (found : Token)
  deriving DecidableEq, Repr

/-- The terminals that are tried by themselves when a token is scanned: where names are
possible, keywords are not. -/
def Lexeme.tried (allowed : List Terminal) : List Terminal :=
  allowed.filter fun t => t != .finish && !(allowed.contains .name && t.isKeyword)

theorem ItemSet.reads_finish (q : ItemSet) : q.reads (.leaf .finish) = false := by
  have : ItemSet.before (.leaf .finish) = 0 := by decide +kernel
  simp [ItemSet.reads, this]

theorem Lexeme.scan_ne_finish {allowed : List Terminal} {cs : List Char} {n : Nat} :
    Lexeme.scan allowed cs ≠ some (.token .finish n) := by
  intro h
  unfold Lexeme.scan at h
  split at h
  · simp only [Lexeme.wordTerminal, Option.some.injEq, Lexeme.token.injEq] at h
    cases hf : allowed.find? fun t =>
        t.isKeyword && t.text.toList == cs.take (Lexeme.nameLength cs) with
    | none => simp [hf] at h
    | some t =>
      have := List.find?_some hf
      simp only [hf, Option.getD_some] at h
      simp only [h.1, Terminal.isKeyword, Bool.and_eq_true] at this
      exact absurd this.1 (by decide)
  · split at h
    · cases h
    · split at h
      · cases h
      · split at h
        · cases h
        · split at h
          · cases h
          · obtain ⟨t, ht, he⟩ := Option.map_eq_some_iff.1 h
            cases he
            exact absurd (Lexeme.longestFixed_text ht) (by decide)

/-- Parses the text `cs`, which starts at `offset`, after what is on the stack. -/
def parseFrom (offset : Nat) (cs : List Char) {q : ItemSet} (stack : Stack q) :
    Except Rejection (Tree (.branch .program)) :=
  if hcs : cs = [] then
    match settle .finish stack with
    | .accept tree _ => .ok tree
    | .shift (q := r) _ h => absurd h (by simp [ItemSet.reads_finish])
    | .reject r => .error (.token r.expected ⟨.finish, "", offset⟩)
  else
    match h : Lexeme.scan q.expected cs with
    | some (.gap n) => parseFrom (offset + n) (cs.drop n) stack
    | some (.token t n) =>
      let text := String.ofList (cs.take n)
      match settle t stack with
      | .shift stack _ => parseFrom (offset + n) (cs.drop n) (stack.push (.leaf t text offset))
      | .accept _ ht => absurd h (by subst ht; exact Lexeme.scan_ne_finish)
      | .reject r => .error (.token r.expected ⟨t, text, offset⟩)
    | none =>
      match Lexeme.scan Terminal.all cs with
      | some (.token t n) =>
        .error (.token (Lexeme.tried q.expected) ⟨t, String.ofList (cs.take n), offset⟩)
      | some (.gap _) | none => .error (.character offset)
termination_by cs.length
decreasing_by
  all_goals
    have hn := Lexeme.scan_length_ne_zero h
    have hl := List.length_pos_iff.2 hcs
    simp only [Lexeme.length] at hn
    simp only [List.length_drop]
    omega

/-- The derivation tree of a text. -/
def parseTree (cs : List Char) : Except Rejection (Tree (.branch .program)) :=
  parseFrom 0 cs .bottom

/-! ## The token stream of a text by itself -/

/-- The tokens of a text that starts at `offset`, or the offset where none matches. -/
def tokensFrom (offset : Nat) (cs : List Char) : Except Nat (List Token) :=
  if _hcs : cs = [] then .ok []
  else
    match _h : Lexeme.scan Terminal.all cs with
    | some (.gap n) => tokensFrom (offset + n) (cs.drop n)
    | some (.token t n) =>
      (tokensFrom (offset + n) (cs.drop n)).map
        (⟨t, String.ofList (cs.take n), offset⟩ :: ·)
    | none => .error offset
termination_by cs.length
decreasing_by
  all_goals
    have hn := Lexeme.scan_length_ne_zero _h
    have hl := List.length_pos_iff.2 _hcs
    simp only [Lexeme.length] at hn
    simp only [List.length_drop]
    omega

end Mandate
