/-
  Mandate.Grammar.Tree

  Derivation trees, indexed by what they derive: a `Tree s` derives the symbol
  `s`, a `Forest ss` the symbols `ss` one after the other. A tree that is built
  at all is a derivation of the grammar.

  `Tree.tokens` is the yield of a tree, its tokens from left to right;
  `Tree.first?` and `Tree.last?` are the ends of it.
-/

import Mandate.Grammar.Production
import Mandate.Token

namespace Mandate

mutual

/-- A derivation of one symbol. -/
inductive Tree : Symbol → Type where
  /-- A token of the terminal `t`. -/
  | leaf (t : Terminal) (text : String) (start : Nat) : Tree (.leaf t)
  /-- A production applied to derivations of its right side. -/
  | node (p : Production) (children : Forest p.rhs) : Tree (.branch p.lhs)

/-- Derivations of several symbols. -/
inductive Forest : List Symbol → Type where
  | nil : Forest []
  | cons {s : Symbol} {ss : List Symbol} (head : Tree s) (tail : Forest ss) : Forest (s :: ss)

end

mutual

/-- The tokens of a tree from left to right. -/
def Tree.tokens {s : Symbol} : Tree s → List Token
  | .leaf t text start => [⟨t, text, start⟩]
  | .node _ children => children.tokens

/-- The tokens of a forest from left to right. -/
def Forest.tokens {ss : List Symbol} : Forest ss → List Token
  | .nil => []
  | .cons head tail => head.tokens ++ tail.tokens

end

mutual

/-- The first token of a tree. -/
def Tree.first? {s : Symbol} : Tree s → Option Token
  | .leaf t text start => some ⟨t, text, start⟩
  | .node _ children => children.first?

/-- The first token of a forest. -/
def Forest.first? {ss : List Symbol} : Forest ss → Option Token
  | .nil => none
  | .cons head tail =>
    match head.first? with
    | some t => some t
    | none => tail.first?

end

mutual

/-- The last token of a tree. -/
def Tree.last? {s : Symbol} : Tree s → Option Token
  | .leaf t text start => some ⟨t, text, start⟩
  | .node _ children => children.last?

/-- The last token of a forest. -/
def Forest.last? {ss : List Symbol} : Forest ss → Option Token
  | .nil => none
  | .cons head tail =>
    match tail.last? with
    | some t => some t
    | none => head.last?

end

mutual

theorem Tree.first?_eq_head? {s : Symbol} : (tree : Tree s) → tree.first? = tree.tokens.head?
  | .leaf .. => rfl
  | .node _ children => children.first?_eq_head?

theorem Forest.first?_eq_head? {ss : List Symbol} :
    (forest : Forest ss) → forest.first? = forest.tokens.head?
  | .nil => rfl
  | .cons head tail => by
    rw [Forest.first?, Forest.tokens, List.head?_append, head.first?_eq_head?,
      tail.first?_eq_head?]
    cases head.tokens.head? <;> rfl

end

mutual

theorem Tree.last?_eq_getLast? {s : Symbol} :
    (tree : Tree s) → tree.last? = tree.tokens.getLast?
  | .leaf .. => rfl
  | .node _ children => children.last?_eq_getLast?

theorem Forest.last?_eq_getLast? {ss : List Symbol} :
    (forest : Forest ss) → forest.last? = forest.tokens.getLast?
  | .nil => rfl
  | .cons head tail => by
    rw [Forest.last?, Forest.tokens, List.getLast?_append, head.last?_eq_getLast?,
      tail.last?_eq_getLast?]
    cases tail.tokens.getLast? <;> rfl

end

end Mandate
