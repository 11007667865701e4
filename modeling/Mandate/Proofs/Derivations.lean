/-
  Mandate.Proofs.Derivations

  Every derivation tree is found again from its tokens.

    * `Stack.Derives stack tokens program`: given these tokens one after the other
      and then the end of the text, the parser goes from the stack to the program.
    * `Tree.isClear`: no finished production is followed by a terminal that would be
      read as going on with it.
    * `Tree.derives_of_push`: reading the tokens of a clear tree comes to pushing the
      tree. The induction is on the tree; what may follow it in the state it is
      begun in decides that its right side is reduced when it is complete.
    * `Tree.derives`: the tokens of a clear tree of a program lead to that tree.
-/

import Mandate.Proofs.ParserStates

namespace Mandate

/-! ## Putting back and taking off -/

/-- The stack below the top of a stack, and the tree on top. -/
def Stack.uncons : (r : ItemSet) × Stack r →
    Option ((q : ItemSet) × (s : Symbol) × Stack q × Tree s)
  | ⟨_, .bottom⟩ => none
  | ⟨_, .push (q := q) (s := s) below tree⟩ => some ⟨q, s, below, tree⟩

theorem Stack.pushAll_injective {q q' : ItemSet} {stack : Stack q} {stack' : Stack q'}
    {ss : List Symbol} {forest forest' : Forest ss}
    (h : stack.pushAll forest = stack'.pushAll forest') :
    (⟨q, stack⟩ : (r : ItemSet) × Stack r) = ⟨q', stack'⟩ ∧ forest = forest' := by
  induction ss generalizing q q' with
  | nil =>
    cases forest
    cases forest'
    exact ⟨h, rfl⟩
  | cons s ss ih =>
    cases forest with
    | cons head tail =>
    cases forest' with
    | cons head' tail' =>
      obtain ⟨hstack, htail⟩ := ih h
      have htop := congrArg Stack.uncons hstack
      cases htop
      exact ⟨rfl, congrArg (Forest.cons head) htail⟩

theorem Stack.pushAll_fst {q : ItemSet} (stack : Stack q) {ss : List Symbol}
    (forest : Forest ss) : (stack.pushAll forest).1 = ss.foldl ItemSet.goto q := by
  induction ss generalizing q with
  | nil =>
    cases forest
    rfl
  | cons s ss ih =>
    cases forest with
    | cons head tail => exact ih (stack.push head) tail

/-- What has been put on a stack is taken off again. -/
theorem Stack.pop_pushAll {q : ItemSet} {stack : Stack q} {p : Production}
    {children : Forest p.rhs} (h : (stack.pushAll children).1.has p p.rhs.length = true) :
    ∃ hw, (stack.pushAll children).2.pop p h = ⟨q, stack, children, hw⟩ := by
  generalize hpop : (stack.pushAll children).2.pop p h = popped
  obtain ⟨state, below, children', hw⟩ := popped
  obtain ⟨hbelow, rfl⟩ := Stack.pushAll_injective (Stack.pop_eq hpop).2
  cases hbelow
  exact ⟨hw, rfl⟩

/-! ## Deriving -/

/-- Given these tokens and then the end of the text, the parser goes from the stack to the
program. -/
inductive Stack.Derives :
    {q : ItemSet} → Stack q → List Token → Tree (.branch .program) → Prop where
  | finish {q : ItemSet} {stack : Stack q} {program : Tree (.branch .program)}
      {h : Terminal.finish = .finish} (hsettle : settle .finish stack = .accept program h) :
      Derives stack [] program
  | read {q r : ItemSet} {stack : Stack q} {below : Stack r} {t : Token} {ts : List Token}
      {program : Tree (.branch .program)} {h : r.reads (.leaf t.terminal) = true}
      (hsettle : settle t.terminal stack = .shift below h)
      (hrest : Derives (below.push (.leaf t.terminal t.text t.start)) ts program) :
      Derives stack (t :: ts) program

section Derives

variable {q r : ItemSet} {stack : Stack q} {ts : List Token} {program : Tree (.branch .program)}

/-- Only what becomes of a stack before the next terminal counts. -/
theorem Stack.Derives.of_settle_eq {other : Stack r}
    (h : settle (followed ts .finish) stack = settle (followed ts .finish) other)
    (hother : other.Derives ts program) : stack.Derives ts program := by
  cases hother with
  | finish hsettle => exact .finish (h.trans hsettle)
  | read hsettle hrest => exact .read (h.trans hsettle) hrest

/-- Where a right side has been put on a stack and is reduced, its left side can be put there
instead. -/
theorem Stack.Derives.of_reduce {p : Production} {children : Forest p.rhs}
    (haction : (p.rhs.foldl ItemSet.goto q).action (followed ts .finish) = some (.reduce p))
    (hp : p.lhs ≠ .program) (h : (stack.push (.node p children)).Derives ts program) :
    (stack.pushAll children).2.Derives ts program := by
  rw [← stack.pushAll_fst children] at haction
  obtain ⟨hw, hpop⟩ := Stack.pop_pushAll (ItemSet.has_of_action haction)
  exact .of_settle_eq (settle_eq_settle haction hpop hp) h

end Derives

/-! ## Clear trees -/

mutual

/-- Whether, in a tree that `next` comes after, no finished production is followed by a terminal
that would be read as going on with it. -/
def Tree.isClear {s : Symbol} (next : Terminal) : Tree s → Bool
  | .leaf .. => true
  | .node p children => !p.takes next && children.isClear next

/-- The same in trees one after the other. -/
def Forest.isClear {ss : List Symbol} (next : Terminal) : Forest ss → Bool
  | .nil => true
  | .cons head tail => head.isClear (followed tail.tokens next) && tail.isClear next

end

/-- No right side holds a program. -/
theorem Production.ne_program {p : Production} {d : Nat} {s : Symbol} (h : p.rhs[d]? = some s) :
    s ≠ .branch .program := by
  rintro rfl
  have hbit := ItemSet.testBit_before_of h
  rw [ItemSet.before_program, Nat.zero_testBit] at hbit
  cases hbit

/-- Only a program can be empty. -/
theorem Production.exists_first {p : Production} (hp : p.lhs ≠ .program) :
    ∃ s, p.rhs[0]? = some s := by
  revert hp
  cases p
  case programEmpty => exact fun hp => absurd rfl hp
  all_goals exact fun _ => ⟨_, rfl⟩

mutual

/-- What comes first in a tree, whatever follows it. -/
theorem Tree.followed_mem {s : Symbol} : (tree : Tree s) → s ≠ .branch .program →
    ∀ next, followed tree.tokens next ∈ s.firsts
  | .leaf t text start, _, _ => List.mem_cons_self
  | .node p children, hs, next => by
    obtain ⟨first, hfirst⟩ := p.exists_first fun hp => hs (congrArg Symbol.branch hp)
    exact p.firsts_subset hfirst (children.followed_mem hfirst (p.ne_program hfirst) next)

theorem Forest.followed_mem {ss : List Symbol} : (forest : Forest ss) → {s : Symbol} →
    ss[0]? = some s → s ≠ .branch .program → ∀ next, followed forest.tokens next ∈ s.firsts
  | .cons head tail, _, rfl, hs, next => by
    rw [Forest.tokens, followed_append]
    exact head.followed_mem hs _

end

/-- What comes after the symbol at `d` of a right side of which the rest is given. -/
theorem Forest.followed_mem_after {p : Production} {d : Nat} {ss : List Symbol}
    (forest : Forest ss) (hss : p.rhs.drop (d + 1) = ss) {next : Terminal}
    (hnext : next ∈ p.lhs.follow) : followed forest.tokens next ∈ p.after d := by
  have hfirst : p.rhs[d + 1]? = ss[0]? := by rw [← hss, List.getElem?_drop]
  unfold Production.after
  cases ss with
  | nil =>
    rw [hfirst]
    cases forest
    exact hnext
  | cons s ss =>
    rw [hfirst]
    exact forest.followed_mem rfl (p.ne_program (hfirst.trans rfl)) next

mutual

/-- Reading the tokens of a clear tree comes to pushing the tree. -/
theorem Tree.derives_of_push {s : Symbol} : (tree : Tree s) → {q : ItemSet} → {stack : Stack q} →
    {rest : List Token} → {program : Tree (.branch .program)} →
    q.Reachable → q.reads s = true →
    (∀ n, s = .branch n → q.MayFollow n (followed rest .finish)) →
    tree.isClear (followed rest .finish) = true →
    (stack.push tree).Derives rest program → stack.Derives (tree.tokens ++ rest) program
  | .leaf t text start, q, stack, rest, program, _, hs, _, _, h => by
    have haction : q.action t = some .shift := if_pos hs
    exact .read (settle_eq_shift haction) h
  | .node p children, q, stack, rest, program, hq, hs, hnext, hclear, h => by
    rw [Tree.isClear, Bool.and_eq_true, Bool.not_eq_true'] at hclear
    have hfollow := hnext p.lhs rfl
    have hp : p.lhs ≠ .program := by
      intro hp
      rw [hp, ItemSet.reads_program] at hs
      cases hs
    have hbegun := hq.has_zero hs
    have haction := ItemSet.action_of_mayFollow hq hbegun hfollow hclear.1
    exact children.derives_of_pushAll hq hbegun rfl hfollow.follow (fun _ => hfollow) hclear.2
      (h.of_reduce haction hp)

/-- Reading the tokens of the rest of a right side comes to pushing its trees. -/
theorem Forest.derives_of_pushAll {ss : List Symbol} : (forest : Forest ss) → {q : ItemSet} →
    {stack : Stack q} → {rest : List Token} → {program : Tree (.branch .program)} →
    {p : Production} → {d : Nat} →
    q.Reachable → q.has p d = true → p.rhs.drop d = ss →
    followed rest .finish ∈ p.lhs.follow →
    (d = 0 → q.MayFollow p.lhs (followed rest .finish)) →
    forest.isClear (followed rest .finish) = true →
    (stack.pushAll forest).2.Derives rest program → stack.Derives (forest.tokens ++ rest) program
  | .nil, _, _, _, _, _, _, _, _, _, _, _, _, h => h
  | @Forest.cons s ss head tail, q, stack, rest, program, p, d, hq, hp, hss, hfollow, hnext,
      hclear, h => by
    rw [Forest.isClear, Bool.and_eq_true] at hclear
    obtain ⟨hs, htail⟩ := Production.rhs_of_drop hss
    have hreads := ItemSet.reads_of_has hp hs
    have hrest : (stack.push head).Derives (tail.tokens ++ rest) program :=
      tail.derives_of_pushAll (hq.goto hreads) (ItemSet.has_goto_of hp hs) htail hfollow
        (fun hd => by omega) hclear.2 h
    rw [Forest.tokens, List.append_assoc]
    refine head.derives_of_push hq hreads (fun n hn => ?_) ?_ hrest
    · -- What follows the head starts the tail; without a tail, it follows the whole.
      rw [followed_append]
      subst hn
      refine ItemSet.mayFollow_of_after hq hp hs (tail.followed_mem_after htail hfollow) ?_
      intro hone
      have hd := (List.getElem?_eq_some_iff.1 hs).1
      have hnil : ss = [] := htail ▸ List.drop_eq_nil_iff.2 (by omega)
      subst hnil
      cases tail
      exact hnext (by omega)
    · rw [followed_append]
      exact hclear.1

end

theorem Tree.cast_branch {n m : Nonterminal} (h : n = m) (hs : Symbol.branch n = .branch m)
    (tree : Tree (.branch n)) : (hs ▸ tree : Tree (.branch m)) = h ▸ tree := by
  subst h
  rfl

/-- The same for a tree of which it is only known that it derives a program. -/
theorem Tree.derives_cast {s : Symbol} (tree : Tree s) (hs : s = .branch .program)
    (hclear : tree.isClear .finish = true) : Stack.bottom.Derives tree.tokens (hs ▸ tree) := by
  cases tree with
  | leaf t text start => cases hs
  | node p children =>
    rw [Tree.isClear, Bool.and_eq_true, Bool.not_eq_true'] at hclear
    have hp : p.lhs = .program := Symbol.branch.inj hs
    have hbegun := ItemSet.start_has hp
    have hfollow : ItemSet.start.MayFollow p.lhs .finish := hp ▸ ItemSet.mayFollow_program _
    have haction := ItemSet.action_of_mayFollow .start hbegun hfollow hclear.1
    rw [← Stack.bottom.pushAll_fst children] at haction
    obtain ⟨hw, hpop⟩ := Stack.pop_pushAll (ItemSet.has_of_action haction)
    rw [Tree.cast_branch hp, Tree.tokens, ← List.append_nil children.tokens]
    exact children.derives_of_pushAll .start hbegun rfl hfollow.follow (fun _ => hfollow) hclear.2
      (.finish (settle_eq_accept haction hpop hp))

/-- The tokens of a clear tree of a program lead to that tree. -/
theorem Tree.derives (tree : Tree (.branch .program)) (hclear : tree.isClear .finish = true) :
    Stack.bottom.Derives tree.tokens tree :=
  tree.derives_cast rfl hclear

end Mandate
