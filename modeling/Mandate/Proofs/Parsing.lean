/-
  Mandate.Proofs.Parsing

  The parser, move by move: one equation for each thing that `settle` and
  `parseFrom` can do. The inductions that come with the two functions have the
  same cases, so what holds of every parse is proved by one lemma for each move.
-/

import Mandate.Grammar.Parse

namespace Mandate

/-! ## Reducing -/

/-- A program is complete only at the end of the text. -/
theorem ItemSet.eq_finish_of_action {q : ItemSet} {t : Terminal} {p : Production}
    (h : q.action t = some (.reduce p)) (hp : p.lhs = .program) : t = .finish := by
  have hmem := ItemSet.mem_follow_of_action h
  rw [hp] at hmem
  exact List.mem_singleton.1 hmem

section Settle

variable {t : Terminal} {q : ItemSet} {stack : Stack q}

theorem settle_eq_reject (h : q.action t = none) : settle t stack = .reject q := by
  rw [settle]
  split
  · rfl
  · next h' => cases h.symm.trans h'
  · next h' => cases h.symm.trans h'

theorem settle_eq_shift (h : q.action t = some .shift) :
    settle t stack = .shift stack (ItemSet.reads_of_action h) := by
  rw [settle]
  split
  · next h' => cases h.symm.trans h'
  · rfl
  · next h' => cases h.symm.trans h'

variable {p : Production} {state : ItemSet} {below : Stack state} {children : Forest p.rhs}
  {hw : below.weight + Symbol.total p.rhs = stack.weight}

theorem settle_eq_accept (h : q.action t = some (.reduce p))
    (hpop : stack.pop p (ItemSet.has_of_action h) = ⟨state, below, children, hw⟩)
    (hp : p.lhs = .program) :
    settle t stack = .accept (hp ▸ .node p children) (ItemSet.eq_finish_of_action h hp) := by
  rw [settle]
  split
  · next h' => cases h.symm.trans h'
  · next h' => cases h.symm.trans h'
  · next h' =>
    cases h.symm.trans h'
    rw [hpop]
    simp only [hp, ↓reduceDIte]

theorem settle_eq_settle (h : q.action t = some (.reduce p))
    (hpop : stack.pop p (ItemSet.has_of_action h) = ⟨state, below, children, hw⟩)
    (hp : p.lhs ≠ .program) :
    settle t stack = settle t (below.push (.node p children)) := by
  rw [settle]
  split
  · next h' => cases h.symm.trans h'
  · next h' => cases h.symm.trans h'
  · next h' =>
    cases h.symm.trans h'
    rw [hpop]
    simp only [hp, ↓reduceDIte]

end Settle

/-! ## Reading -/

section ParseFrom

variable {offset : Nat} {cs : List Char} {q r : ItemSet} {stack : Stack q}

theorem parseFrom_eq_ok {tree : Tree (.branch .program)} {h : Terminal.finish = .finish}
    (hsettle : settle .finish stack = .accept tree h) : parseFrom offset [] stack = .ok tree := by
  rw [parseFrom]
  simp only [↓reduceDIte, hsettle]

theorem parseFrom_eq_unfinished (hsettle : settle .finish stack = .reject r) :
    parseFrom offset [] stack = .error (.token r.expected ⟨.finish, "", offset⟩) := by
  rw [parseFrom]
  simp only [↓reduceDIte, hsettle]

theorem parseFrom_eq_gap {n : Nat} (hcs : cs ≠ [])
    (hscan : Lexeme.scan q.expected cs = some (.gap n)) :
    parseFrom offset cs stack = parseFrom (offset + n) (cs.drop n) stack := by
  rw [parseFrom]
  simp only [hcs, ↓reduceDIte]
  split
  · next h' =>
    cases hscan.symm.trans h'
    rfl
  · next h' => cases hscan.symm.trans h'
  · next h' => cases hscan.symm.trans h'

theorem parseFrom_eq_shift {t : Terminal} {n : Nat} {below : Stack r}
    {h : r.reads (.leaf t) = true} (hcs : cs ≠ [])
    (hscan : Lexeme.scan q.expected cs = some (.token t n))
    (hsettle : settle t stack = .shift below h) :
    parseFrom offset cs stack = parseFrom (offset + n) (cs.drop n)
      (below.push (.leaf t (String.ofList (cs.take n)) offset)) := by
  rw [parseFrom]
  simp only [hcs, ↓reduceDIte]
  split
  · next h' => cases hscan.symm.trans h'
  · next h' =>
    cases hscan.symm.trans h'
    simp only [hsettle]
  · next h' => cases hscan.symm.trans h'

theorem parseFrom_eq_unexpected {t : Terminal} {n : Nat} (hcs : cs ≠ [])
    (hscan : Lexeme.scan q.expected cs = some (.token t n))
    (hsettle : settle t stack = .reject r) :
    parseFrom offset cs stack
      = .error (.token r.expected ⟨t, String.ofList (cs.take n), offset⟩) := by
  rw [parseFrom]
  simp only [hcs, ↓reduceDIte]
  split
  · next h' => cases hscan.symm.trans h'
  · next h' =>
    cases hscan.symm.trans h'
    simp only [hsettle]
  · next h' => cases hscan.symm.trans h'

theorem parseFrom_eq_unread (stack : Stack q) (offset : Nat) (hcs : cs ≠ [])
    (hscan : Lexeme.scan q.expected cs = none) :
    ∃ rejection, parseFrom offset cs stack = .error rejection := by
  rw [parseFrom]
  simp only [hcs, ↓reduceDIte]
  split
  · next h' => cases hscan.symm.trans h'
  · next h' => cases hscan.symm.trans h'
  · split
    all_goals exact ⟨_, rfl⟩

end ParseFrom

end Mandate
