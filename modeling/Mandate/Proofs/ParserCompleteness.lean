/-
  Mandate.Proofs.ParserCompleteness

  What the grammar derives, the parser accepts.

    * `Tree.all P`: every production applied in a tree fulfils `P`. A tree in which
      datatypes go by known names, the parameters of a list by different ones, and
      only names and their elements are assigned to stands for a program
      (`Tree.meaning_carries`).
    * `parse_complete`: the text of such a tree, its tokens with single spaces between
      them, stands for the same program, spans aside.
-/

import Mandate.Proofs.SpacedText

namespace Mandate

/-! ## Conditions on trees -/

mutual

/-- Whether every production applied in a tree fulfils a condition. -/
def Tree.all (check : (p : Production) → Forest p.rhs → Bool) {s : Symbol} : Tree s → Bool
  | .leaf .. => true
  | .node p children => check p children && children.all check

/-- The same of a forest. -/
def Forest.all (check : (p : Production) → Forest p.rhs → Bool) {ss : List Symbol} :
    Forest ss → Bool
  | .nil => true
  | .cons head tail => head.all check && tail.all check

end

/-- Whether a tree is a name and nothing else. -/
def Tree.isName {s : Symbol} : Tree s → Bool
  | .node .primaryName _ => true
  | _ => false

/-- Whether a tree is a name or an element of such a tree. -/
def Tree.isTarget {s : Symbol} : Tree s → Bool
  | .node .suffixedPrimary (.cons e .nil) => e.isName
  | .node .suffixedIndex (.cons e _) => e.isTarget
  | _ => false

mutual

/-- The names of the parameters in a tree. -/
def Tree.paramNames {s : Symbol} : Tree s → List String
  | .leaf .. => []
  | .node .paramTyped (.cons (.leaf _ text _) _) => [text]
  | .node _ children => children.paramNames

/-- The names of the parameters in a forest. -/
def Forest.paramNames {ss : List Symbol} : Forest ss → List String
  | .nil => []
  | .cons head tail => head.paramNames ++ tail.paramNames

end

namespace Production

/-- Whether a datatype goes by a known name. -/
def hasKnownType : (p : Production) → Forest p.rhs → Bool
  | .datatypeName, .cons (.leaf _ text _) .nil => (namedDatatype? text).isSome
  | _, _ => true

/-- Whether the parameters of a list go by different names. -/
def hasDistinctParams (p : Production) (children : Forest p.rhs) : Bool :=
  p.lhs != .params || decide children.paramNames.Nodup

/-- Whether what is assigned to is a name or an element of such a target. -/
def hasProperTarget : (p : Production) → Forest p.rhs → Bool
  | .assign, .cons target _ => target.isTarget
  | _, _ => true

end Production

/-! ## What parameters and targets stand for -/

theorem repeatedParam?_of_distinct {seen : List Name} {ps : List Param} {names : List String}
    (hps : ps.map Param.name = names.map Slot.proper) (hnames : names.Nodup)
    (hseen : ∀ x ∈ names, ∀ n ∈ seen, Name.same (.proper x) n = false) :
    repeatedParam? seen ps = none := by
  induction ps generalizing seen names with
  | nil => rfl
  | cons p ps ih =>
    cases names with
    | nil => cases hps
    | cons x names =>
      obtain ⟨hname, hrest⟩ := List.cons.inj hps
      rw [List.nodup_cons] at hnames
      have hfresh : seen.any p.name.same = false := by
        rw [List.any_eq_false, hname]
        intro n hn
        rw [hseen x List.mem_cons_self n hn]
        decide
      rw [repeatedParam?, hfresh, if_neg Bool.false_ne_true]
      refine ih hrest hnames.2 fun y hy n hn => ?_
      rcases List.mem_cons.1 hn with rfl | hn
      · rw [hname, Name.same_proper, decide_eq_false_iff_not]
        exact fun hyx => hnames.1 (hyx ▸ hy)
      · exact hseen y (List.mem_cons_of_mem x hy) n hn

theorem distinctParams_of_distinct {ps : List Param} {names : List String}
    (hps : ps.map Param.name = names.map Slot.proper) (hnames : names.Nodup) :
    distinctParams ps = .ok ps := by
  rw [distinctParams, repeatedParam?_of_distinct hps hnames fun _ _ _ hn => absurd hn List.not_mem_nil]

theorem toTarget_index {e t : Node} (h : e.toTarget = .ok t) (i : Node) (o : Origin) :
    (Node.index e i o).toTarget = .ok (.indexTarget t i o) := by
  rw [Node.toTarget, h]

/-- An assignment whose left side is a target. -/
theorem assign_eq_ok {e t : Node} (h : e.toTarget = .ok t) (value : Node) (span : Span) :
    (match e.toTarget with
      | .ok t => .ok (.assign t value span)
      | .error e => .error e : Except SyntaxError Node) = .ok (.assign t value span) := by
  rw [h]

/-- A datatype by a known name. -/
theorem named_eq_ok {name : String} {d : Datatype} (h : namedDatatype? name = some d)
    (e : SyntaxError) :
    (match namedDatatype? name with
      | some t => .ok t
      | none => .error e : Except SyntaxError Datatype) = .ok d := by
  rw [h]

/-- What a tree stands for is told by the tree, as far as parameters and targets go. -/
def Symbol.Carries : (s : Symbol) → Tree s → s.Meaning → Prop
  | .leaf _, tree, t => tree.tokens = [t]
  | .branch .primary, tree, e => tree.isName = true → ∃ x o, e = Node.name x o
  | .branch .suffixed, tree, e => tree.isTarget = true → ∃ t, Node.toTarget e = .ok t
  | .branch .param, tree, p => List.map Param.name [p] = tree.paramNames.map Slot.proper
  | .branch .params, tree, ps => List.map Param.name ps = tree.paramNames.map Slot.proper
  | .branch .moreParams, tree, ps => List.map Param.name ps = tree.paramNames.map Slot.proper
  | _, _, _ => True

/-- The same of several symbols. -/
inductive Forest.Carries : {ss : List Symbol} → Forest ss → Meanings ss → Prop where
  | nil : Carries .nil .nil
  | cons {s : Symbol} {ss : List Symbol} {head : Tree s} {tail : Forest ss} {m : s.Meaning}
      {ms : Meanings ss} (hhead : s.Carries head m) (htail : tail.Carries ms) :
      Carries (.cons head tail) (.cons m ms)

theorem names_append {ps qs : List Param} {xs ys : List String}
    (hps : ps.map Param.name = xs.map Slot.proper) (hqs : qs.map Param.name = ys.map Slot.proper) :
    (ps ++ qs).map Param.name = (xs ++ ys).map Slot.proper := by
  rw [List.map_append, List.map_append, hps, hqs]

/-- A production that fulfils the conditions makes something of what its right side carries. -/
theorem Production.build_carries {p : Production} {children : Forest p.rhs} {ms : Meanings p.rhs}
    (hms : children.Carries ms) (hknown : p.hasKnownType children = true)
    (hparams : p.hasDistinctParams children = true) (htarget : p.hasProperTarget children = true)
    (span : Span) :
    ∃ m, p.build span ms = .ok m ∧ Symbol.Carries (.branch p.lhs) (.node p children) m := by
  cases p
  case assign =>
    match children, ms, hms with
    | .cons target (.cons _ (.cons _ .nil)), .cons e (.cons _ (.cons v .nil)), .cons he _ =>
      obtain ⟨t, ht⟩ := he htarget
      exact ⟨_, assign_eq_ok ht v span, trivial⟩
  case primaryName =>
    match ms with
    | .cons _ .nil => exact ⟨_, rfl, fun _ => ⟨_, _, rfl⟩⟩
  case suffixedPrimary =>
    match children, ms, hms with
    | .cons _ .nil, .cons _ .nil, .cons he .nil =>
      refine ⟨_, rfl, fun hname => ?_⟩
      obtain ⟨x, o, rfl⟩ := he hname
      exact ⟨_, rfl⟩
  case suffixedIndex =>
    match children, ms, hms with
    | .cons _ (.cons _ (.cons _ (.cons _ .nil))), .cons e (.cons _ (.cons i (.cons _ .nil))),
        .cons he _ =>
      refine ⟨_, rfl, fun htarget => ?_⟩
      obtain ⟨t, ht⟩ := he htarget
      exact ⟨_, toTarget_index ht i span⟩
  case paramTyped =>
    match children, ms, hms with
    | .cons (.leaf _ text _) (.cons _ (.cons _ .nil)), .cons t (.cons _ (.cons d .nil)),
        .cons ht _ =>
      cases ht
      exact ⟨_, rfl, rfl⟩
  case paramsMany =>
    match children, ms, hms with
    | .cons first (.cons more .nil), .cons p (.cons ps .nil), .cons hp (.cons hps .nil) =>
      have hnames : List.map Param.name (List.append (α := Param) [p] ps)
          = (first.paramNames ++ (more.paramNames ++ [])).map Slot.proper := by
        rw [List.append_nil]
        exact names_append hp hps
      exact ⟨_, distinctParams_of_distinct hnames (of_decide_eq_true hparams), hnames⟩
  case paramsOne =>
    match children, ms, hms with
    | .cons first .nil, .cons p .nil, .cons hp .nil =>
      have hnames : List.map Param.name [p] = (first.paramNames ++ []).map Slot.proper := by
        rw [List.append_nil]
        exact hp
      exact ⟨_, distinctParams_of_distinct hnames (of_decide_eq_true hparams), hnames⟩
  case moreParamsOne =>
    match children, ms, hms with
    | .cons (.leaf _ _ _) (.cons first .nil), .cons _ (.cons p .nil), .cons _ (.cons hp .nil) =>
      have hnames : List.map Param.name [p] = (first.paramNames ++ []).map Slot.proper := by
        rw [List.append_nil]
        exact hp
      exact ⟨_, rfl, hnames⟩
  case moreParamsMore =>
    match children, ms, hms with
    | .cons more (.cons (.leaf _ _ _) (.cons last .nil)), .cons ps (.cons _ (.cons p .nil)),
        .cons hps (.cons _ (.cons hp .nil)) =>
      have hnames : List.map Param.name (List.append (α := Param) ps [p])
          = (more.paramNames ++ (last.paramNames ++ [])).map Slot.proper := by
        rw [List.append_nil]
        exact names_append hps hp
      exact ⟨_, rfl, hnames⟩
  case datatypeName =>
    match children, ms, hms with
    | .cons (.leaf _ text _) .nil, .cons t .nil, .cons ht .nil =>
      cases ht
      obtain ⟨d, hd⟩ := Option.isSome_iff_exists.1 hknown
      exact ⟨d, named_eq_ok hd _, trivial⟩
  all_goals
    rcases ms with _ | ⟨_, _ | ⟨_, _ | ⟨_, _ | ⟨_, _ | ⟨_, _ | ⟨_, _ | _⟩⟩⟩⟩⟩⟩
    first
    | exact ⟨_, rfl, trivial⟩
    | exact ⟨_, rfl, fun h => Bool.noConfusion h⟩

mutual

/-- A tree in which the conditions hold everywhere stands for something. -/
theorem Tree.meaning_carries {s : Symbol} : (tree : Tree s) →
    tree.all Production.hasKnownType = true → tree.all Production.hasDistinctParams = true →
    tree.all Production.hasProperTarget = true →
    ∃ m, tree.meaning = .ok m ∧ s.Carries tree m
  | .leaf t text start, _, _, _ => ⟨⟨t, text, start⟩, rfl, rfl⟩
  | .node p children, hknown, hparams, htargets => by
    rw [Tree.all, Bool.and_eq_true] at hknown hparams htargets
    obtain ⟨ms, hms, hcarries⟩ := children.meanings_carries hknown.2 hparams.2 htargets.2
    rw [Tree.meaning, hms]
    exact p.build_carries hcarries hknown.1 hparams.1 htargets.1 children.span

theorem Forest.meanings_carries {ss : List Symbol} : (forest : Forest ss) →
    forest.all Production.hasKnownType = true → forest.all Production.hasDistinctParams = true →
    forest.all Production.hasProperTarget = true →
    ∃ ms, forest.meanings = .ok ms ∧ forest.Carries ms
  | .nil, _, _, _ => ⟨.nil, rfl, .nil⟩
  | .cons head tail, hknown, hparams, htargets => by
    rw [Forest.all, Bool.and_eq_true] at hknown hparams htargets
    obtain ⟨m, hm, hhead⟩ := head.meaning_carries hknown.1 hparams.1 htargets.1
    obtain ⟨ms, hms, htail⟩ := tail.meanings_carries hknown.2 hparams.2 htargets.2
    exact ⟨.cons m ms, by rw [Forest.meanings, hm, hms], .cons hhead htail⟩

end

/-! ## Completeness -/

/-- The text of a derivation tree of a program, its tokens with single spaces between them,
stands for what the tree stands for, spans aside. -/
theorem parse_complete (tree : Tree (.branch .program))
    (hspelled : ∀ t ∈ tree.tokens, t.isSpelled = true)
    (hnames : ∀ t ∈ tree.tokens, t.terminal = .name → Terminal.isReserved t.text.toList = false)
    (hknown : tree.all Production.hasKnownType = true)
    (hparams : tree.all Production.hasDistinctParams = true)
    (htargets : tree.all Production.hasProperTarget = true)
    (hclear : tree.isClear .finish = true) :
    ∃ program ast : Node, parse (Token.spaced tree.tokens) = .ok program ∧
      tree.meaning = .ok ast ∧ program.bare = ast.bare := by
  obtain ⟨ast, hast, -⟩ := tree.meaning_carries hknown hparams htargets
  obtain ⟨tree', htree, hbare⟩ := (tree.derives hclear).parseFrom_spaced hspelled hnames rfl 0
  have hagree := Tree.meaning_agree hbare
  rw [hast] at hagree
  generalize hx : tree'.meaning = x at hagree
  cases hagree with
  | @ok program _ h =>
    refine ⟨program, ast, ?_, hast, h⟩
    rw [parse, Layout.separate_spaced hspelled, parseTree, htree]
    exact hx

/-! ### A tree and its text -/

/-- A token with a fixed text. -/
def Tree.fixed (t : Terminal) : Tree (.leaf t) := .leaf t t.text 0

/-- A name. -/
def Tree.named (x : String) : Tree (.branch .suffixed) :=
  .node .suffixedPrimary (.cons (.node .primaryName (.cons (.leaf .name x 0) .nil)) .nil)

/-- An operand as a factor of a term. -/
def Tree.factor (e : Tree (.branch .unary)) : Tree (.branch .product) :=
  .node .productPower (.cons (.node .powerUnary (.cons e .nil)) .nil)

/-- A sum as an expression. -/
def Tree.ofSum (e : Tree (.branch .sum)) : Tree (.branch .expression) :=
  .node .expressionLogic (.cons (.node .logicEquality (.cons (.node .equalityComparison
    (.cons (.node .comparisonSum (.cons e .nil)) .nil)) .nil)) .nil)

/-- A term as an expression. -/
def Tree.ofProduct (e : Tree (.branch .product)) : Tree (.branch .expression) :=
  .ofSum (.node .sumProduct (.cons e .nil))

/-- Two differences, the first of them taken first. -/
def Tree.differences (e d c : Tree (.branch .product)) : Tree (.branch .expression) :=
  .ofSum (.node .sumMinus (.cons (.node .sumMinus (.cons (.node .sumProduct (.cons e .nil))
    (.cons (.fixed .minus) (.cons d .nil)))) (.cons (.fixed .minus) (.cons c .nil))))

/-- A function of one parameter, stored in an element and called on what is typed in. -/
def calledElement : Tree (.branch .program) :=
  let f : Tree (.branch .suffixed) := .node .suffixedIndex (.cons (.named "f")
    (.cons (.fixed .openSquare) (.cons (.ofProduct (.factor (.node .unarySuffixed
      (.cons (.named "i") .nil)))) (.cons (.fixed .closeSquare) .nil))))
  let x : Tree (.branch .product) := .factor (.node .unarySuffixed (.cons (.named "x") .nil))
  let param : Tree (.branch .param) := .node .paramTyped (.cons (.leaf .name "x" 0)
    (.cons (.fixed .colon) (.cons (.node .datatypeName (.cons (.leaf .name "Number" 0) .nil)) .nil)))
  let body : Tree (.branch .primary) := .node .primaryGroup (.cons (.fixed .openRound)
    (.cons (.differences x x x) (.cons (.fixed .closeRound) .nil)))
  let function : Tree (.branch .primary) := .node .primaryFunction (.cons (.fixed .bar)
    (.cons (.node .paramsOne (.cons param .nil)) (.cons (.fixed .bar) (.cons (.fixed .thinArrow)
      (.cons (.node .datatypeName (.cons (.leaf .name "Any" 0) .nil)) (.cons body .nil))))))
  let store : Tree (.branch .expression) := .node .expressionInstruction (.cons (.node .assign
    (.cons f (.cons (.fixed .assignArrow) (.cons (.ofProduct (.factor (.node .unarySuffixed
      (.cons (.node .suffixedPrimary (.cons function .nil)) .nil)))) .nil)))) .nil)
  let typed : Tree (.branch .expression) := .ofProduct (.factor (.node .unaryInput
    (.cons (.fixed .inputKw) .nil)))
  let call : Tree (.branch .suffixed) := .node .suffixedCall (.cons f (.cons (.fixed .openRound)
    (.cons (.node .argumentsOne (.cons typed .nil)) (.cons (.fixed .closeRound) .nil))))
  .node .programLinesLast (.cons (.node .linesExpression (.cons store
    (.cons (.fixed .semicolon) .nil))) (.cons (.ofProduct (.factor (.node .unarySuffixed
      (.cons call .nil)))) .nil))

theorem parse_calledElement :
    ∃ program ast : Node,
      parse "f [ i ] <- | x : Number | -> Any ( x - x - x ) ; f [ i ] ( input )".toList
        = .ok program ∧ calledElement.meaning = .ok ast ∧ program.bare = ast.bare := by
  have htext : Token.spaced calledElement.tokens
      = "f [ i ] <- | x : Number | -> Any ( x - x - x ) ; f [ i ] ( input )".toList := by
    decide +kernel
  rw [← htext]
  exact parse_complete calledElement (by decide +kernel) (by decide +kernel) (by decide +kernel)
    (by decide +kernel) (by decide +kernel) (by decide +kernel)

end Mandate
