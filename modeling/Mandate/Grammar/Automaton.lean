/-
  Mandate.Grammar.Automaton

  The shift-reduce automaton of the grammar.

    * An item is a production with a dot in its right side; it is numbered
      `8 * production + dot`, so moving the dot is adding one.
    * A state is a closed set of items (`ItemSet`), kept as the bits of a number.
      `ItemSet.goto` moves the dot over one symbol.
    * `Nonterminal.follow` lists the terminals that can come after a nonterminal.
    * `ItemSet.lookahead` is the set of terminals on which a complete production
      is reduced in a state. It is what follows its left side, except in two
      states whose other items tell more about what has been read.
    * `ItemSet.action` is what to do in a state on a terminal. Where both would be
      possible it shifts, so that an `else` belongs to the nearest open `if` and a
      `|` after `input` opens a function literal.

  No nonterminal but `program` derives the empty text, and `program` is on no
  right side.
-/

import Mandate.Grammar.Production

namespace Mandate

/-! ## What follows a nonterminal -/

namespace Nonterminal

/-- What can follow an expression. -/
def afterExpression : List Terminal :=
  [.elseKw, .semicolon, .closeSquare, .closeRound, .comma, .finish]

/-- What can follow an operand of `and` and `or`. -/
def afterLogic : List Terminal :=
  [.thenKw, .doKw, .dot, .andKw, .orKw, .ampersand, .bar] ++ afterExpression

/-- What can follow an operand of `=` and `!=`. -/
def afterEquality : List Terminal := [.equal, .notEqual] ++ afterLogic

/-- What can follow an operand of a comparison. -/
def afterComparison : List Terminal :=
  [.less, .more, .atMost, .atLeast] ++ afterEquality

/-- What can follow a term of a sum. -/
def afterSum : List Terminal := [.plus, .minus] ++ afterComparison

/-- What can follow a factor of a product. -/
def afterProduct : List Terminal := [.star, .slash, .percent] ++ afterSum

/-- What can follow a base or an exponent. -/
def afterPower : List Terminal := .caret :: afterProduct

/-- What can follow an operand that can still be indexed, called or assigned to. -/
def afterPrimary : List Terminal :=
  [.openSquare, .openRound, .assignArrow] ++ afterPower

/-- What can follow a datatype: the end of a list, of an `Array`, or a literal's body. -/
def afterDatatype : List Terminal :=
  [.string, .number, .trueKw, .falseKw, .name, .openRound, .openSquare, .bar,
   .more, .closeRound, .comma]

/-- The terminals that can follow a nonterminal. -/
def follow : Nonterminal → List Terminal
  | .program => [.finish]
  | .expression | .instruction => afterExpression
  | .logic => afterLogic
  | .equality => afterEquality
  | .comparison => afterComparison
  | .sum => afterSum
  | .product => afterProduct
  | .power | .unary => afterPower
  | .suffixed | .primary => afterPrimary
  | .arguments => [.closeRound]
  | .params | .datatypes => [.bar, .closeRound]
  | .param => [.bar, .closeRound, .comma]
  | .datatype => afterDatatype
  | .lines =>
    [.printKw, .evalKw, .execKw, .ifKw, .whileKw, .lenKw, .toStringKw, .toNumberKw,
     .toBooleanKw, .isNumberKw, .isBooleanKw, .inputKw, .trueKw, .falseKw, .semicolon,
     .bar, .plus, .minus, .openSquare, .openRound, .string, .number, .name, .finish]
  | .moreParts => .dot :: afterExpression
  | .moreExpressions => [.comma, .closeRound, .closeSquare]
  | .moreParams | .moreDatatypes => [.comma, .bar, .closeRound]

/-! ## Left corners -/

/-- The nonterminals a text of a level of operators can start with, from that level down. -/
def operandCorners : List Nonterminal :=
  [.equality, .comparison, .sum, .product, .power, .unary, .suffixed, .primary]

/-- The nonterminals an expression can start with. -/
def expressionCorners : List Nonterminal :=
  [.expression, .instruction, .logic] ++ operandCorners

/-- The nonterminals a text of `n` can start with, `n` itself first. -/
def leftCorners : Nonterminal → List Nonterminal
  | .program => [.program, .lines] ++ expressionCorners
  | .lines => .lines :: expressionCorners
  | .arguments => .arguments :: expressionCorners
  | .expression => expressionCorners
  | .instruction => [.instruction, .suffixed, .primary]
  | .logic => .logic :: operandCorners
  | .equality => operandCorners
  | .comparison => [.comparison, .sum, .product, .power, .unary, .suffixed, .primary]
  | .sum => [.sum, .product, .power, .unary, .suffixed, .primary]
  | .product => [.product, .power, .unary, .suffixed, .primary]
  | .power => [.power, .unary, .suffixed, .primary]
  | .unary => [.unary, .suffixed, .primary]
  | .suffixed => [.suffixed, .primary]
  | .params => [.params, .param]
  | .datatypes => [.datatypes, .datatype]
  | n => [n]

end Nonterminal

/-! ## Items -/

namespace Production

/-- The position of a production among all of them. -/
def index (p : Production) : Nat := p.ctorIdx

/-- The number of the item with the dot after `d` symbols. -/
def item (p : Production) (d : Nat) : Nat := 8 * p.index + d

/-- The productions of a nonterminal. -/
def ofLhs (n : Nonterminal) : List Production := all.filter fun p => p.lhs = n

end Production

namespace Symbol

/-- Every symbol. -/
def all : List Symbol := Terminal.all.map .leaf ++ Nonterminal.all.map .branch

/-- The position of a symbol among all of them. -/
def index : Symbol → Nat
  | .leaf t => t.index
  | .branch n => 49 + n.index

end Symbol

/-- A set of items; bit `p.item d` tells whether it holds `p` with the dot at `d`. -/
structure ItemSet where
  bits : Nat
  deriving DecidableEq, Repr, Inhabited

namespace ItemSet

/-- The items, numbered from `i` on, at which a right side continues with `s`. -/
def itemsBefore (s : Symbol) : Nat → List Symbol → Nat
  | _, [] => 0
  | i, x :: xs =>
    bif x.index == s.index then 1 <<< i ||| itemsBefore s (i + 1) xs
    else itemsBefore s (i + 1) xs

/-- For each symbol, the items whose dot stands before it. -/
def beforeTable : List Nat :=
  Symbol.all.map fun s =>
    Production.all.foldl (fun acc p => acc ||| itemsBefore s (p.item 0) p.rhs) 0

/-- The items whose dot stands before `s`. -/
def before (s : Symbol) : Nat := beforeTable.getD s.index 0

/-- The items of the productions of `n` with the dot at the start. -/
def initial (n : Nonterminal) : Nat :=
  (Production.ofLhs n).foldl (fun acc p => acc ||| 1 <<< p.item 0) 0

/-- For each nonterminal, the initial items of its left corners. -/
def cornerTable : List Nat :=
  Nonterminal.all.map fun n => n.leftCorners.foldl (fun acc m => acc ||| initial m) 0

/-- The initial items of the left corners of `n`. -/
def corner (n : Nonterminal) : Nat := cornerTable.getD n.index 0

/-- Adds the initial items of whatever nonterminal stands after a dot. -/
def close (k : Nat) : ItemSet :=
  ⟨Nonterminal.all.foldl
    (fun acc n => bif k &&& before (.branch n) == 0 then acc else acc ||| corner n) k⟩

/-- The state before anything is read. -/
def start : ItemSet := ⟨corner .program⟩

/-- The state after reading `s` in state `q`; it has no items if `s` cannot be read there. -/
def goto (q : ItemSet) (s : Symbol) : ItemSet := close ((q.bits &&& before s) <<< 1)

/-- Whether the state holds `p` with the dot after `d` symbols. -/
def has (q : ItemSet) (p : Production) (d : Nat) : Bool := q.bits.testBit (p.item d)

/-- Whether `s` can be read in the state. -/
def reads (q : ItemSet) (s : Symbol) : Bool := q.bits &&& before s != 0

/-- Whether the right side of `p` is complete in the state. -/
def completes (q : ItemSet) (p : Production) : Bool := q.has p p.rhs.length

/-- The productions whose right side is complete. -/
def complete (q : ItemSet) : List Production := Production.all.filter q.completes

/-! ## Lookahead and actions -/

/-- The terminals on which the complete production `p` is reduced in state `q`.

Where an operand could still be the target of an assignment, an expression has
just begun, and none of the words that end a condition or a printed part can
follow. Where a name could still be a parameter, a round bracket has just been
opened, and only what keeps it open or closes it can follow. -/
def lookahead (q : ItemSet) (p : Production) : List Terminal :=
  let follow := p.lhs.follow
  if p = .unarySuffixed ∧ q.has .assign 1 then
    follow.filter fun t => t ∉ [Terminal.thenKw, .doKw, .dot]
  else if p = .primaryName ∧ q.has .paramTyped 1 then
    follow.filter fun t =>
      t ∉ [Terminal.thenKw, .elseKw, .doKw, .dot, .semicolon, .comma, .closeSquare, .finish]
  else follow

/-- What to do next. -/
inductive Action where
  /-- Read the terminal. -/
  | shift
  /-- Replace a complete right side by its left side. -/
  | reduce (p : Production)
  deriving DecidableEq, Repr

/-- What to do in a state when `t` comes next, if anything can be done. -/
def action (q : ItemSet) (t : Terminal) : Option Action :=
  if q.reads (.leaf t) then some .shift
  else (q.complete.find? fun p => t ∈ q.lookahead p).map .reduce

/-- The terminals on which something can be done in a state. -/
def expected (q : ItemSet) : List Terminal :=
  let reduced := q.complete.flatMap q.lookahead
  Terminal.all.filter fun t => q.reads (.leaf t) || reduced.contains t

/-! ## Where an item came from

An item with its dot past the start is in a state only because the symbol before
the dot has just been read; nothing that closing a set adds has its dot there. -/

theorem testBit_foldl_or {α : Type} (f : α → Nat) (xs : List α) (acc i : Nat) :
    (xs.foldl (fun a x => a ||| f x) acc).testBit i
      = (acc.testBit i || xs.any fun x => (f x).testBit i) := by
  induction xs generalizing acc with
  | nil => simp
  | cons x xs ih => simp [ih, Nat.testBit_or, Bool.or_assoc]

theorem testBit_one_shiftLeft (n i : Nat) : (1 <<< n).testBit i = decide (n = i) := by
  rw [Nat.one_shiftLeft, Nat.testBit_two_pow]

/-- Symbols are told apart by their position. -/
theorem index_injective {s t : Symbol} (h : s.index = t.index) : s = t := by
  have hall : ∀ s : Symbol, Symbol.all[s.index]? = some s := by
    intro s
    match s with
    | .leaf t => cases t <;> rfl
    | .branch n => cases n <;> rfl
  have hs := hall s
  rw [h, hall t] at hs
  exact (Option.some.inj hs).symm

theorem before_eq (s : Symbol) :
    before s = Production.all.foldl (fun acc p => acc ||| itemsBefore s (p.item 0) p.rhs) 0 := by
  have hall : Symbol.all[s.index]? = some s := by
    match s with
    | .leaf t => cases t <;> rfl
    | .branch n => cases n <;> rfl
  simp [before, beforeTable, List.getD_eq_getElem?_getD, List.getElem?_map, hall]

theorem testBit_itemsBefore {s : Symbol} {xs : List Symbol} {n i : Nat}
    (h : (itemsBefore s n xs).testBit i = true) : ∃ d, i = n + d ∧ xs[d]? = some s := by
  induction xs generalizing n with
  | nil => simp [itemsBefore] at h
  | cons x xs ih =>
    have step (h : (itemsBefore s (n + 1) xs).testBit i = true) :
        ∃ d, i = n + d ∧ (x :: xs)[d]? = some s := by
      obtain ⟨d, hi, hd⟩ := ih h
      exact ⟨d + 1, by omega, by simpa using hd⟩
    unfold itemsBefore at h
    cases hx : x.index == s.index with
    | false => rw [hx] at h; exact step h
    | true =>
      rw [hx, cond_true, Nat.testBit_or, testBit_one_shiftLeft, Bool.or_eq_true,
        decide_eq_true_eq] at h
      rcases h with rfl | h
      · exact ⟨0, by omega, by simp [index_injective (beq_iff_eq.1 hx)]⟩
      · exact step h

theorem item_injective {p r : Production} {d e : Nat} (hd : d < 8) (he : e < 8)
    (h : p.item d = r.item e) : p = r ∧ d = e := by
  have hi : ∀ p : Production, Production.all[p.index]? = some p := by
    intro p
    cases p <;> rfl
  have hpr : p.index = r.index := by unfold Production.item at h; omega
  have hp := hi p
  rw [hpr, hi r] at hp
  exact ⟨(Option.some.inj hp).symm, by unfold Production.item at h; omega⟩

/-- An item before `s` belongs to a right side that goes on with `s`. -/
theorem testBit_before {s : Symbol} {p : Production} {d : Nat} (hd : d < 8)
    (h : (before s).testBit (p.item d) = true) : p.rhs[d]? = some s := by
  rw [before_eq, testBit_foldl_or] at h
  simp only [Nat.zero_testBit, Bool.false_or, List.any_eq_true] at h
  obtain ⟨r, -, hr⟩ := h
  obtain ⟨e, hi, he⟩ := testBit_itemsBefore hr
  have hlt : e < 8 := Nat.lt_trans (List.getElem?_eq_some_iff.1 he).1 r.rhs_length_lt
  obtain ⟨rfl, rfl⟩ := item_injective (p := p) (r := r) hd hlt
    (by unfold Production.item at hi ⊢; omega)
  exact he

/-- Closing a set adds only items with the dot at the start. -/
theorem testBit_corner {n : Nonterminal} {i : Nat} (h : (corner n).testBit i = true) :
    i % 8 = 0 := by
  have hall : Nonterminal.all[n.index]? = some n := by cases n <;> rfl
  simp only [corner, cornerTable, List.getD_eq_getElem?_getD, List.getElem?_map, hall,
    Option.map_some, Option.getD_some, testBit_foldl_or, Nat.zero_testBit, Bool.false_or,
    List.any_eq_true, initial, testBit_one_shiftLeft, decide_eq_true_eq] at h
  obtain ⟨m, -, p, -, rfl⟩ := h
  simp [Production.item]

theorem testBit_close {k i : Nat} (hi : i % 8 ≠ 0) (h : (close k).bits.testBit i = true) :
    k.testBit i = true := by
  unfold close at h
  have key : ∀ (ns : List Nonterminal) (acc : Nat),
      (ns.foldl (fun acc n =>
        bif k &&& before (.branch n) == 0 then acc else acc ||| corner n) acc).testBit i = true →
      acc.testBit i = true := by
    intro ns
    induction ns with
    | nil => exact fun _ h => h
    | cons n ns ih =>
      intro acc h
      have h := ih _ h
      cases hk : k &&& before (.branch n) == 0 with
      | true => simpa only [hk, cond_true] using h
      | false =>
        simp only [hk, cond_false, Nat.testBit_or, Bool.or_eq_true] at h
        exact h.resolve_right fun hc => hi (testBit_corner hc)
  exact key _ _ h

/-- An item past its start is in a state because its last symbol was read in a state that
holds the item before it. -/
theorem has_goto {q : ItemSet} {s : Symbol} {p : Production} {d : Nat} (hd : d + 1 < 8)
    (h : (q.goto s).has p (d + 1) = true) : q.has p d = true ∧ p.rhs[d]? = some s := by
  have hmod : p.item (d + 1) % 8 ≠ 0 := by unfold Production.item; omega
  have hk := testBit_close hmod h
  rw [Nat.testBit_shiftLeft, Nat.testBit_and] at hk
  simp only [Bool.and_eq_true, decide_eq_true_eq] at hk
  have hpred : p.item (d + 1) - 1 = p.item d := by unfold Production.item; omega
  rw [hpred] at hk
  exact ⟨hk.2.1, testBit_before (by omega) hk.2.2⟩

/-- No item is past its start before anything is read. -/
theorem has_start {p : Production} {d : Nat} (hd : d + 1 < 8) :
    start.has p (d + 1) = false := by
  cases h : start.has p (d + 1) with
  | false => rfl
  | true =>
    have := testBit_corner (n := .program) h
    unfold Production.item at this
    omega

theorem has_of_action {q : ItemSet} {t : Terminal} {p : Production}
    (h : q.action t = some (.reduce p)) : q.has p p.rhs.length = true := by
  unfold action at h
  split at h
  · simp at h
  · simp only [Option.map_eq_some_iff, Action.reduce.injEq] at h
    obtain ⟨r, hr, rfl⟩ := h
    have := List.mem_of_find?_eq_some hr
    simpa [complete, completes] using (List.mem_filter.1 this).2

end ItemSet

end Mandate
