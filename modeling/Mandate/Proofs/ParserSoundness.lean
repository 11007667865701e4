/-
  Mandate.Proofs.ParserSoundness

  What the parser accepts is derived by the grammar, and how.

    * `delivered` lists the tokens that are handed to the parser, each scanned with
      the terminals on which the state of the parser can go on. The tokens of the
      derivation tree are these (`parseFrom_sound`).
    * `Tree.ElseNearest`: no `if` without `else` is immediately followed by `else`.
      In every state that the parser can be in, whoever could complete such an `if`
      could also read the `else` (`Stack.reads_else`), and reading goes first.
    * `Tree.expressions` are the outermost expressions of a tree; a program runs
      those of its tree (`Tree.meaning_runs`).
-/

import Mandate.Proofs.Parsing
import Mandate.Proofs.ProgramTree

namespace Mandate

/-! ## Items of the states -/

namespace ItemSet

theorem testBit_itemsBefore_of {s : Symbol} {xs : List Symbol} {d : Nat}
    (h : xs[d]? = some s) (n : Nat) : (itemsBefore s n xs).testBit (n + d) = true := by
  induction xs generalizing n d with
  | nil => cases h
  | cons x xs ih =>
    unfold itemsBefore
    cases d with
    | zero =>
      cases h
      simp [Nat.testBit_or]
    | succ d =>
      have hrest := ih (d := d) h (n + 1)
      rw [show n + 1 + d = n + (d + 1) by omega] at hrest
      cases x.index == s.index with
      | false => exact hrest
      | true => rw [cond_true, Nat.testBit_or, hrest, Bool.or_true]

theorem testBit_before_of {s : Symbol} {p : Production} {d : Nat} (h : p.rhs[d]? = some s) :
    (before s).testBit (p.item d) = true := by
  have hitem : p.item 0 + d = p.item d := rfl
  rw [before_eq, testBit_foldl_or, Nat.zero_testBit, Bool.false_or, List.any_eq_true]
  exact ⟨p, p.mem_all, hitem ▸ testBit_itemsBefore_of h (p.item 0)⟩

/-- What an item goes on with can be read. -/
theorem reads_of_has {q : ItemSet} {p : Production} {d : Nat} {s : Symbol}
    (h : q.has p d = true) (hs : p.rhs[d]? = some s) : q.reads s = true := by
  have hbit : (q.bits &&& before s).testBit (p.item d) = true := by
    rw [Nat.testBit_and, testBit_before_of hs, Bool.and_true]
    exact h
  unfold reads
  rw [bne_iff_ne]
  intro hzero
  rw [hzero, Nat.zero_testBit] at hbit
  cases hbit

/-- Items before a symbol are not at the end of a right side. -/
theorem mod_of_testBit_before {s : Symbol} {i : Nat} (h : (before s).testBit i = true) :
    i % 8 ≠ 7 := by
  rw [before_eq, testBit_foldl_or, Nat.zero_testBit, Bool.false_or, List.any_eq_true] at h
  obtain ⟨p, -, hp⟩ := h
  obtain ⟨d, hi, hd⟩ := testBit_itemsBefore hp
  have hlt := (List.getElem?_eq_some_iff.1 hd).1
  have hlength := p.rhs_length_lt
  unfold Production.item at hi
  omega

theorem testBit_close_eq (k i : Nat) :
    (close k).bits.testBit i = (k.testBit i ||
      Nonterminal.all.any fun n => k &&& before (.branch n) != 0 && (corner n).testBit i) := by
  unfold close
  have key (ns : List Nonterminal) (acc : Nat) :
      (ns.foldl (fun acc n =>
        bif k &&& before (.branch n) == 0 then acc else acc ||| corner n) acc).testBit i
      = (acc.testBit i ||
        ns.any fun n => k &&& before (.branch n) != 0 && (corner n).testBit i) := by
    induction ns generalizing acc with
    | nil => simp
    | cons n ns ih =>
      rw [List.foldl_cons, ih, List.any_cons, bne]
      cases k &&& before (.branch n) == 0 with
      | true => simp
      | false => simp [Nat.testBit_or, Bool.or_assoc]
  exact key _ _

/-- Reading a symbol moves the dot over it. -/
theorem has_goto_of {q : ItemSet} {s : Symbol} {p : Production} {d : Nat}
    (h : q.has p d = true) (hs : p.rhs[d]? = some s) : (q.goto s).has p (d + 1) = true := by
  have hitem : p.item (d + 1) = p.item d + 1 := rfl
  unfold goto has
  rw [testBit_close_eq, hitem, Nat.testBit_shiftLeft, Nat.add_sub_cancel, Nat.testBit_and]
  unfold has at h
  simp [h, testBit_before_of hs]

/-- An item at its start is in a state because it is a left corner of what can be read. -/
theorem has_goto_zero {q : ItemSet} {s : Symbol} {p : Production} :
    (q.goto s).has p 0 = Nonterminal.all.any fun n =>
      (q.bits &&& before s) <<< 1 &&& before (.branch n) != 0 && (corner n).testBit (p.item 0) := by
  have hfirst : ((q.bits &&& before s) <<< 1).testBit (p.item 0) = false := by
    cases h : ((q.bits &&& before s) <<< 1).testBit (p.item 0) with
    | false => rfl
    | true =>
      rw [Nat.testBit_shiftLeft, Nat.testBit_and] at h
      simp only [Bool.and_eq_true, decide_eq_true_eq] at h
      have hmod := mod_of_testBit_before h.2.2
      unfold Production.item at h hmod
      omega
  unfold goto has
  rw [testBit_close_eq, hfirst, Bool.false_or]

/-- The two forms of `if` are corners together. -/
theorem corner_if (n : Nonterminal) : (corner n).testBit (Production.ifThen.item 0) =
    (corner n).testBit (Production.ifElse.item 0) := by
  cases n <;> decide +kernel

/-- Only a program starts with a program. -/
theorem corner_program {p : Production} (hp : p.lhs = .program) {n : Nonterminal}
    (h : (corner n).testBit (p.item 0) = true) : n = .program := by
  have key : ∀ p ∈ Production.all, p.lhs = .program → ∀ n ∈ Nonterminal.all,
      (corner n).testBit (p.item 0) = true → n = .program := by decide +kernel
  exact key p p.mem_all hp n (by cases n <;> decide) h

/-- No right side goes on with a program. -/
theorem before_program : before (.branch .program) = 0 := by
  decide +kernel

/-- A program is only at the bottom of a stack. -/
theorem not_has_program {q : ItemSet} {s : Symbol} {p : Production} (hp : p.lhs = .program) :
    (q.goto s).has p 0 = false := by
  cases h : (q.goto s).has p 0 with
  | false => rfl
  | true =>
    rw [has_goto_zero, List.any_eq_true] at h
    obtain ⟨n, -, hn⟩ := h
    rw [Bool.and_eq_true] at hn
    have hprogram := corner_program hp hn.2
    rw [hprogram, before_program] at hn
    simp at hn

end ItemSet

/-! ## What is taken off a stack -/

/-- Puts the trees of a forest on a stack, one after the other. -/
def Stack.pushAll {q : ItemSet} (stack : Stack q) {ss : List Symbol} :
    Forest ss → (r : ItemSet) × Stack r
  | .nil => ⟨q, stack⟩
  | .cons head tail => (stack.push head).pushAll tail

theorem Stack.pushAll_cast {q : ItemSet} (stack : Stack q) {ss ts : List Symbol} (h : ss = ts)
    (forest : Forest ss) : stack.pushAll (h ▸ forest) = stack.pushAll forest := by
  subst h
  rfl

section Pop

variable {p : Production} {q state : ItemSet} {stack : Stack q} {below : Stack state}
  {children : Forest p.rhs}

theorem Stack.popFrom_eq {d w : Nat} {h : q.has p d = true} {hd : d ≤ p.rhs.length}
    {later : Forest (p.rhs.drop d)} {hw : stack.weight + Symbol.total (p.rhs.drop d) = w}
    {hx : below.weight + Symbol.total p.rhs = w}
    (hpop : stack.popFrom p w d h hd later hw = ⟨state, below, children, hx⟩) :
    state.has p 0 = true ∧ below.pushAll children = stack.pushAll later := by
  induction d generalizing q with
  | zero =>
    cases hpop
    exact ⟨h, rfl⟩
  | succ d ih =>
    cases stack with
    | bottom =>
      have := p.rhs_length_lt
      simp [ItemSet.has_start (p := p) (d := d) (by omega)] at h
    | push rest tree =>
      obtain ⟨hstart, hrest⟩ := ih hpop
      rw [rest.pushAll_cast] at hrest
      exact ⟨hstart, hrest⟩

/-- What is taken off a stack can be put back, and was begun in the state below. -/
theorem Stack.pop_eq {h : q.has p p.rhs.length = true}
    {hw : below.weight + Symbol.total p.rhs = stack.weight}
    (hpop : stack.pop p h = ⟨state, below, children, hw⟩) :
    state.has p 0 = true ∧ below.pushAll children = ⟨q, stack⟩ := by
  obtain ⟨hstart, hback⟩ := Stack.popFrom_eq hpop
  rw [stack.pushAll_cast] at hback
  exact ⟨hstart, hback⟩

end Pop

/-! ## The nearest `else` -/

/-- The terminal that comes first: of a token, or else `next`. -/
def followed (tokens : List Token) (next : Terminal) : Terminal :=
  match tokens with
  | [] => next
  | t :: _ => t.terminal

theorem followed_append (as bs : List Token) (next : Terminal) :
    followed (as ++ bs) next = followed as (followed bs next) := by
  cases as <;> rfl

mutual

/-- In a tree that `next` comes after, no `if` without `else` is immediately followed by
`else`. -/
def Tree.ElseNearest {s : Symbol} (next : Terminal) : Tree s → Prop
  | .leaf .. => True
  | .node p children => (p = .ifThen → next ≠ .elseKw) ∧ children.ElseNearest next

/-- The same in trees one after the other. -/
def Forest.ElseNearest {ss : List Symbol} (next : Terminal) : Forest ss → Prop
  | .nil => True
  | .cons head tail => head.ElseNearest (followed tail.tokens next) ∧ tail.ElseNearest next

end

/-- The same in the trees on a stack. -/
def Stack.ElseNearest {q : ItemSet} (next : Terminal) : Stack q → Prop
  | .bottom => True
  | .push below tree => below.ElseNearest (followed tree.tokens next) ∧ tree.ElseNearest next

theorem Stack.tokens_pushAll {q : ItemSet} (stack : Stack q) {ss : List Symbol}
    (forest : Forest ss) : (stack.pushAll forest).2.tokens = stack.tokens ++ forest.tokens := by
  cases forest with
  | nil => exact (List.append_nil stack.tokens).symm
  | cons head tail =>
    rw [pushAll, (stack.push head).tokens_pushAll tail, Stack.tokens, Forest.tokens,
      List.append_assoc]

theorem Stack.elseNearest_pushAll {q : ItemSet} (stack : Stack q) {ss : List Symbol}
    (next : Terminal) (forest : Forest ss) :
    (stack.pushAll forest).2.ElseNearest next ↔
      stack.ElseNearest (followed forest.tokens next) ∧ forest.ElseNearest next := by
  cases forest with
  | nil => exact (and_iff_left trivial).symm
  | cons head tail =>
    rw [pushAll, (stack.push head).elseNearest_pushAll next tail, Stack.ElseNearest,
      Forest.ElseNearest, Forest.tokens, followed_append, and_assoc]

/-- Whatever state the parser is in: where `if` without `else` has come some way, so has `if`
with `else`. -/
theorem Stack.has_ifElse {q : ItemSet} (stack : Stack q) {d : Nat} (hd : d ≤ 4)
    (h : q.has .ifThen d = true) : q.has .ifElse d = true := by
  have hrhs : ∀ e < 4, Production.ifElse.rhs[e]? = Production.ifThen.rhs[e]? := by decide
  -- The state is what the symbols on the stack lead to, so the items have a history there.
  induction stack generalizing d with
  | bottom =>
    cases d with
    | zero => decide +kernel
    | succ d =>
      rw [ItemSet.has_start (by omega)] at h
      cases h
  | @push q s below tree ih =>
    cases d with
    | zero =>
      rw [ItemSet.has_goto_zero] at h ⊢
      simp only [ItemSet.corner_if] at h
      exact h
    | succ d =>
      obtain ⟨hbefore, hs⟩ := ItemSet.has_goto (by omega) h
      rw [← hrhs d (by omega)] at hs
      exact ItemSet.has_goto_of (ih (by omega) hbefore) hs

/-- Where `if` without `else` is complete, `else` can be read. -/
theorem Stack.reads_else {q : ItemSet} (stack : Stack q) (h : q.has .ifThen 4 = true) :
    q.reads (.leaf .elseKw) = true :=
  ItemSet.reads_of_has (stack.has_ifElse (Nat.le_refl 4) h) rfl

/-- `if` without `else` is never reduced before `else`. -/
theorem Stack.ne_else {q : ItemSet} (stack : Stack q) {t : Terminal} {p : Production}
    (h : q.action t = some (.reduce p)) : p = .ifThen → t ≠ .elseKw := by
  rintro rfl rfl
  have hreads := stack.reads_else (ItemSet.has_of_action h)
  rw [ItemSet.action, if_pos hreads] at h
  cases h

/-! ## Reductions -/

/-- What becomes of a stack has the tokens of the stack, and keeps every `else` where it
belongs. -/
def Settled.Follows {t : Terminal} {q : ItemSet} (stack : Stack q) : Settled t → Prop
  | .shift after _ =>
    after.tokens = stack.tokens ∧ (stack.ElseNearest t → after.ElseNearest t)
  | .accept tree _ =>
    tree.tokens = stack.tokens ∧ (stack.ElseNearest t → tree.ElseNearest t)
  | .reject _ => True

theorem Tree.tokens_cast {n m : Nonterminal} (h : n = m) (tree : Tree (.branch n)) :
    (h ▸ tree : Tree (.branch m)).tokens = tree.tokens := by
  subst h
  rfl

theorem Tree.elseNearest_cast {n m : Nonterminal} (h : n = m) (tree : Tree (.branch n))
    (next : Terminal) :
    (h ▸ tree : Tree (.branch m)).ElseNearest next ↔ tree.ElseNearest next := by
  subst h
  exact Iff.rfl

/-- One reduction. -/
theorem Stack.reduce_follows {t : Terminal} {p : Production} {q state : ItemSet}
    {stack : Stack q} {below : Stack state} {children : Forest p.rhs}
    {hw : below.weight + Symbol.total p.rhs = stack.weight}
    (h : q.action t = some (.reduce p))
    (hpop : stack.pop p (ItemSet.has_of_action h) = ⟨state, below, children, hw⟩) :
    (below.push (.node p children)).tokens = stack.tokens ∧
      (stack.ElseNearest t → (below.push (.node p children)).ElseNearest t) := by
  have hback := (Stack.pop_eq hpop).2
  have htokens := below.tokens_pushAll children
  have helse := below.elseNearest_pushAll t children
  rw [hback] at htokens helse
  refine ⟨htokens.symm, fun hstack => ?_⟩
  obtain ⟨hbelow, hchildren⟩ := helse.1 hstack
  exact ⟨hbelow, stack.ne_else h, hchildren⟩

theorem settle_follows (t : Terminal) {q : ItemSet} (stack : Stack q) :
    (settle t stack).Follows stack := by
  induction q, stack using settle.induct t with
  | case1 q stack h =>
    rw [settle_eq_reject h]
    trivial
  | case2 q stack h =>
    rw [settle_eq_shift h]
    exact ⟨rfl, id⟩
  | case3 q stack p h state below children hw hpop hp =>
    obtain ⟨htokens, helse⟩ := Stack.reduce_follows h hpop
    rw [settle_eq_accept h hpop hp]
    -- A program is begun at the bottom of a stack only, so nothing is left below it.
    have hstart := (Stack.pop_eq hpop).1
    cases below with
    | bottom =>
      refine ⟨?_, fun hstack => ?_⟩
      · rw [Tree.tokens_cast]
        exact htokens
      · rw [Tree.elseNearest_cast]
        exact (helse hstack).2
    | push below tree =>
      rw [ItemSet.not_has_program hp] at hstart
      cases hstart
  | case4 q stack p h state below children hw hpop hp ih =>
    obtain ⟨htokens, helse⟩ := Stack.reduce_follows h hpop
    rw [settle_eq_settle h hpop hp]
    generalize settle t (below.push (.node p children)) = x at ih
    match x with
    | .shift after _ => exact ⟨ih.1.trans htokens, fun hstack => ih.2 (helse hstack)⟩
    | .accept tree _ => exact ⟨ih.1.trans htokens, fun hstack => ih.2 (helse hstack)⟩
    | .reject _ => trivial

/-! ## The tokens that are delivered -/

/-- The tokens that are delivered to the parser from the text `cs`, which starts at `offset`,
after what is on the stack. -/
def deliveredFrom (offset : Nat) (cs : List Char) {q : ItemSet} (stack : Stack q) : List Token :=
  if _hcs : cs = [] then []
  else
    match _h : Lexeme.scan q.expected cs with
    | none => []
    | some (.gap n) => deliveredFrom (offset + n) (cs.drop n) stack
    | some (.token t n) =>
      let text := String.ofList (cs.take n)
      match settle t stack with
      | .shift below _ =>
        ⟨t, text, offset⟩ ::
          deliveredFrom (offset + n) (cs.drop n) (below.push (.leaf t text offset))
      | .accept .. | .reject _ => [⟨t, text, offset⟩]
termination_by cs.length
decreasing_by
  all_goals
    have hn := Lexeme.scan_length_ne_zero _h
    have hl := List.length_pos_iff.2 _hcs
    simp only [Lexeme.length] at hn
    simp only [List.length_drop]
    omega

/-- The tokens that are delivered to the parser from a text. -/
def delivered (cs : List Char) : List Token := deliveredFrom 0 cs .bottom

section Delivered

variable {offset n : Nat} {cs : List Char} {q r : ItemSet} {stack : Stack q}

theorem deliveredFrom_nil : deliveredFrom offset [] stack = [] := by
  rw [deliveredFrom]
  rfl

theorem deliveredFrom_gap (hcs : cs ≠ []) (hscan : Lexeme.scan q.expected cs = some (.gap n)) :
    deliveredFrom offset cs stack = deliveredFrom (offset + n) (cs.drop n) stack := by
  rw [deliveredFrom]
  simp only [hcs, ↓reduceDIte]
  split
  · next h' => cases hscan.symm.trans h'
  · next h' =>
    cases hscan.symm.trans h'
    rfl
  · next h' => cases hscan.symm.trans h'

theorem deliveredFrom_shift {t : Terminal} {below : Stack r} {h : r.reads (.leaf t) = true}
    (hcs : cs ≠ []) (hscan : Lexeme.scan q.expected cs = some (.token t n))
    (hsettle : settle t stack = .shift below h) :
    deliveredFrom offset cs stack =
      ⟨t, String.ofList (cs.take n), offset⟩ :: deliveredFrom (offset + n) (cs.drop n)
        (below.push (.leaf t (String.ofList (cs.take n)) offset)) := by
  rw [deliveredFrom]
  simp only [hcs, ↓reduceDIte]
  split
  · next h' => cases hscan.symm.trans h'
  · next h' => cases hscan.symm.trans h'
  · next h' =>
    cases hscan.symm.trans h'
    simp only [hsettle]

end Delivered

/-- A tree that the parser builds has the tokens on the stack and those delivered after them,
and every `else` belongs to the nearest `if`. -/
theorem parseFrom_sound {offset : Nat} {cs : List Char} {q : ItemSet} {stack : Stack q}
    {tree : Tree (.branch .program)} (h : parseFrom offset cs stack = .ok tree)
    (hstack : ∀ next, stack.ElseNearest next) :
    tree.tokens = stack.tokens ++ deliveredFrom offset cs stack ∧ tree.ElseNearest .finish := by
  induction offset, cs, q, stack using parseFrom.induct with
  | case1 offset q stack accepted hfinish hsettle =>
    rw [parseFrom_eq_ok hsettle] at h
    cases h
    have hfollows := settle_follows .finish stack
    rw [hsettle] at hfollows
    rw [deliveredFrom_nil, List.append_nil]
    exact ⟨hfollows.1, hfollows.2 (hstack .finish)⟩
  | case2 offset q stack r hsettle =>
    rw [parseFrom_eq_unfinished hsettle] at h
    cases h
  | case3 offset cs q stack hcs n hscan ih =>
    rw [parseFrom_eq_gap hcs hscan] at h
    rw [deliveredFrom_gap hcs hscan]
    exact ih h hstack
  | case4 offset cs q stack hcs t n hscan text r below hreads hsettle ih =>
    rw [parseFrom_eq_shift hcs hscan hsettle] at h
    have hfollows := settle_follows t stack
    rw [hsettle] at hfollows
    -- Before the next token, `t` is what follows everything below it.
    have hbelow := hfollows.2 (hstack t)
    obtain ⟨htokens, helse⟩ := ih h fun next => ⟨hbelow, trivial⟩
    rw [htokens, deliveredFrom_shift hcs hscan hsettle, Stack.tokens, Tree.tokens, hfollows.1,
      List.append_assoc, List.singleton_append]
    exact ⟨rfl, helse⟩
  | case5 offset cs q stack hcs t n hscan r hsettle =>
    rw [parseFrom_eq_unexpected hcs hscan hsettle] at h
    cases h
  | case6 offset cs q stack hcs hscan | case7 offset cs q stack hcs hscan
  | case8 offset cs q stack hcs hscan =>
    obtain ⟨rejection, hrejected⟩ := parseFrom_eq_unread stack offset hcs hscan
    rw [hrejected] at h
    cases h

/-! ## The expressions of a program -/

mutual

/-- The outermost expressions of a tree. -/
def Tree.expressions {s : Symbol} : Tree s → List (Tree (.branch .expression))
  | .leaf .. => []
  | .node p children =>
    if h : p.lhs = .expression then [h ▸ .node p children] else children.expressions

/-- The outermost expressions of a forest. -/
def Forest.expressions {ss : List Symbol} : Forest ss → List (Tree (.branch .expression))
  | .nil => []
  | .cons head tail => head.expressions ++ tail.expressions

end

/-- The span of a tree: from the start of its first token to the end of its last. -/
def Tree.span {s : Symbol} (tree : Tree s) : Span := (Forest.cons tree .nil).span

theorem Tree.span_node (p : Production) (children : Forest p.rhs) :
    (Tree.node p children).span = children.span := by
  unfold Tree.span Forest.span
  rw [Forest.first?_eq_head?, Forest.last?_eq_getLast?, Forest.first?_eq_head?,
    Forest.last?_eq_getLast?, Forest.tokens, Forest.tokens, List.append_nil, Tree.tokens]

/-- What the outermost expressions of a forest stand for. -/
def Forest.listed {ss : List Symbol} (forest : Forest ss) : Except SyntaxError (List Node) :=
  forest.expressions.mapM Tree.meaning

/-- What the outermost expressions of a tree stand for. -/
def Tree.listed {s : Symbol} (tree : Tree s) : Except SyntaxError (List Node) :=
  tree.expressions.mapM Tree.meaning

theorem mapM_append_ok {ε α β : Type} {f : α → Except ε β} {xs ys : List α} {as bs : List β}
    (hxs : xs.mapM f = .ok as) (hys : ys.mapM f = .ok bs) :
    (xs ++ ys).mapM f = .ok (as ++ bs) := by
  rw [List.mapM_append, hxs, hys]
  rfl

theorem Forest.listed_cons {s : Symbol} {ss : List Symbol} {head : Tree s} {tail : Forest ss}
    {es ds : List Node} (hhead : head.listed = .ok es) (htail : tail.listed = .ok ds) :
    (Forest.cons head tail).listed = .ok (es ++ ds) :=
  mapM_append_ok hhead htail

theorem Tree.listed_leaf {t : Terminal} : (tree : Tree (.leaf t)) → tree.listed = .ok []
  | .leaf .. => rfl

/-- What a program, some lines or an expression stands for, told by the expressions `listed` in
it and its span. -/
def Symbol.Runs : (s : Symbol) → s.Meaning → Except SyntaxError (List Node) → Span → Prop
  | .branch .program, program, listed, span =>
    ∃ es, listed = .ok es ∧ program = Node.ofExpressions es span
  | .branch .lines, es, listed, _ => listed = .ok es
  | .branch .expression, e, listed, _ => listed = .ok [e]
  | _, _, _, _ => True

/-- The same of several symbols. -/
inductive Forest.Runs : {ss : List Symbol} → Forest ss → Meanings ss → Prop where
  | nil : Runs .nil .nil
  | cons {s : Symbol} {ss : List Symbol} {head : Tree s} {tail : Forest ss} {m : s.Meaning}
      {ms : Meanings ss} (hhead : s.Runs m head.listed head.span) (htail : tail.Runs ms) :
      Runs (.cons head tail) (.cons m ms)

theorem Production.build_runs {p : Production} {children : Forest p.rhs} {ms : Meanings p.rhs}
    {m : p.lhs.Meaning} (hruns : children.Runs ms) (hbuild : p.build children.span ms = .ok m)
    (hnode : (Tree.node p children).meaning = .ok m) :
    Symbol.Runs (.branch p.lhs) m (Tree.node p children).listed (Tree.node p children).span := by
  have hspan := Tree.span_node p children
  cases p with
  | expressionInstruction | expressionLogic =>
    show List.mapM Tree.meaning [Tree.node _ children] = .ok [m]
    rw [List.mapM_cons, hnode]
    rfl
  | linesExpression =>
    match children, ms, hruns with
    | .cons e (.cons semicolon .nil), .cons _ (.cons _ .nil), .cons he _ =>
      cases hbuild
      exact Forest.listed_cons he (Forest.listed_cons semicolon.listed_leaf rfl)
  | linesBlank =>
    match children, ms with
    | .cons semicolon .nil, .cons _ .nil =>
      cases hbuild
      exact Forest.listed_cons semicolon.listed_leaf rfl
  | linesMoreExpression =>
    match children, ms, hruns with
    | .cons lines (.cons e (.cons semicolon .nil)), .cons _ (.cons _ (.cons _ .nil)),
        .cons hlines (.cons he _) =>
      cases hbuild
      exact Forest.listed_cons hlines
        (Forest.listed_cons he (Forest.listed_cons semicolon.listed_leaf rfl))
  | linesMoreBlank =>
    match children, ms, hruns with
    | .cons lines (.cons semicolon .nil), .cons _ (.cons _ .nil), .cons hlines _ =>
      cases hbuild
      exact (Forest.listed_cons hlines (Forest.listed_cons semicolon.listed_leaf rfl)).trans
        (congrArg Except.ok (@List.append_nil Node _))
  | programLinesLast =>
    match children, ms, hruns with
    | .cons lines (.cons e .nil), .cons _ (.cons _ .nil), .cons hlines (.cons he .nil) =>
      cases hbuild
      exact ⟨_, Forest.listed_cons hlines (Forest.listed_cons he rfl), by rw [hspan]; rfl⟩
  | programLines =>
    match children, ms, hruns with
    | .cons lines .nil, .cons es .nil, .cons hlines .nil =>
      cases hbuild
      exact ⟨es, (Forest.listed_cons hlines rfl).trans
        (congrArg Except.ok (@List.append_nil Node _)), by rw [hspan]⟩
  | programLast =>
    match children, ms, hruns with
    | .cons e .nil, .cons _ .nil, .cons he .nil =>
      cases hbuild
      exact ⟨_, Forest.listed_cons he rfl, rfl⟩
  | programEmpty =>
    match children, ms with
    | .nil, .nil =>
      cases hbuild
      exact ⟨[], rfl, rfl⟩
  | _ => trivial

mutual

/-- A program runs the outermost expressions of its tree. -/
theorem Tree.meaning_runs {s : Symbol} : (tree : Tree s) → {m : s.Meaning} →
    tree.meaning = .ok m → s.Runs m tree.listed tree.span
  | .leaf .., _, _ => trivial
  | .node p children, m, h => by
    have hnode := h
    unfold Tree.meaning at h
    split at h
    · next ms hms => exact Production.build_runs (children.meanings_runs hms) h hnode
    · cases h

theorem Forest.meanings_runs {ss : List Symbol} : (forest : Forest ss) → {ms : Meanings ss} →
    forest.meanings = .ok ms → forest.Runs ms
  | .nil, ms, h => by
    cases h
    exact .nil
  | .cons head tail, ms, h => by
    unfold Forest.meanings at h
    split at h
    · next m hm =>
      split at h
      · next ms' hms' =>
        cases h
        exact .cons (head.meaning_runs hm) (tail.meanings_runs hms')
      · cases h
    · cases h

end

/-! ## Soundness -/

/-- A program stands for a derivation tree of the tokens delivered: it runs the outermost
expressions of the tree, in which every `else` belongs to the nearest `if`, and it is regular. -/
theorem parse_sound {source : List Char} {program : Node} (h : parse source = .ok program) :
    ∃ tree : Tree (.branch .program),
      tree.tokens = delivered (Layout.separate source) ∧
      tree.meaning = .ok program ∧
      (∃ es, tree.expressions.mapM Tree.meaning = .ok es ∧
        program = Node.ofExpressions es tree.span) ∧
      tree.ElseNearest .finish ∧
      program.Regular true := by
  have hregular := parse_regular h
  unfold parse parseTree at h
  dsimp only at h
  split at h
  · next tree htree =>
    obtain ⟨htokens, helse⟩ := parseFrom_sound htree fun next => trivial
    exact ⟨tree, htokens, h, tree.meaning_runs h, helse, hregular⟩
  · cases h

/-- Two `if`s and one `else`. -/
def danglingElse : List Char := "if true then if false then 1 else 2; 3".toList

theorem parse_sound_danglingElse :
    ∃ program, parse danglingElse = .ok program ∧
      ∃ tree : Tree (.branch .program),
        tree.tokens = delivered (Layout.separate danglingElse) ∧
        tree.meaning = .ok program ∧
        (∃ es, tree.expressions.mapM Tree.meaning = .ok es ∧
          program = Node.ofExpressions es tree.span) ∧
        tree.ElseNearest .finish ∧
        program.Regular true := by
  obtain ⟨program, hprogram⟩ := exists_of_isOk (x := parse danglingElse) (by decide +kernel)
  exact ⟨program, hprogram, parse_sound hprogram⟩

end Mandate
