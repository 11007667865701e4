/-
  Mandate.Proofs.PrintedDatatypes

  Printed datatypes read back.

    * `Datatype.tree`: the derivation tree of a printed datatype. It stands for the
      datatype (`tree_meaning`), and its tokens are written as the printed form, before
      whatever may come after a datatype (`tree_written`). The induction is over the
      datatype, with any text behind it.
    * `Tree.isClear_of_signature`: no datatype, parameter or list of them is read as going
      on with what comes after it, so the parser finds these trees.
    * `parse_literal`: a function or closure with one parameter is read with the datatypes
      that are printed into it. So no two datatypes are printed the same.
-/

import Mandate.Proofs.Acceptance
import Mandate.Proofs.ParserCompleteness
import Mandate.Proofs.WrittenText

namespace Mandate

/-! ## Styles -/

namespace LambdaStyle

/-- The kind of datatype of what is called in a style. -/
def kind : LambdaStyle → Kind
  | .function => .function
  | .closure => .closure

/-- What stands before the parameters. -/
def opening : LambdaStyle → Terminal
  | .function => .bar
  | .closure => .openRound

/-- What stands after the parameters. -/
def closing : LambdaStyle → Terminal
  | .function => .bar
  | .closure => .closeRound

/-- What stands before the result. -/
def arrow : LambdaStyle → Terminal
  | .function => .thinArrow
  | .closure => .fatArrow

end LambdaStyle

/-! ## Derivation trees -/

namespace Tree

/-- A datatype by its name. -/
def typeNamed (name : String) : Tree (.branch .datatype) :=
  .node .datatypeName (.cons (.leaf .name name 0) .nil)

/-- The datatype of arrays. -/
def typeArray (element : Tree (.branch .datatype)) : Tree (.branch .datatype) :=
  .node .datatypeArray (.cons (.fixed .arrayKw) (.cons (.fixed .less) (.cons element
    (.cons (.fixed .more) .nil))))

/-- The second datatype of a list. -/
def typesSecond (second : Tree (.branch .datatype)) : Tree (.branch .moreDatatypes) :=
  .node .moreDatatypesOne (.cons (.fixed .comma) (.cons second .nil))

/-- One more datatype in a list. -/
def typesMore (more : Tree (.branch .moreDatatypes)) (next : Tree (.branch .datatype)) :
    Tree (.branch .moreDatatypes) :=
  .node .moreDatatypesMore (.cons more (.cons (.fixed .comma) (.cons next .nil)))

/-- A list of datatypes. -/
def types (first : Tree (.branch .datatype)) :
    List (Tree (.branch .datatype)) → Tree (.branch .datatypes)
  | [] => .node .datatypesOne (.cons first .nil)
  | second :: rest => .node .datatypesMany (.cons first
      (.cons (rest.foldl typesMore (typesSecond second)) .nil))

/-- The datatype of what can be called. -/
def typeCallable (style : LambdaStyle) (params : List (Tree (.branch .datatype)))
    (result : Tree (.branch .datatype)) : Tree (.branch .datatype) :=
  match style, params with
  | .function, [] => .node .datatypeFunctionEmpty (.cons (.fixed .bar) (.cons (.fixed .bar)
      (.cons (.fixed .thinArrow) (.cons result .nil))))
  | .function, p :: ps => .node .datatypeFunction (.cons (.fixed .bar) (.cons (types p ps)
      (.cons (.fixed .bar) (.cons (.fixed .thinArrow) (.cons result .nil)))))
  | .closure, [] => .node .datatypeClosureEmpty (.cons (.fixed .openRound)
      (.cons (.fixed .closeRound) (.cons (.fixed .fatArrow) (.cons result .nil))))
  | .closure, p :: ps => .node .datatypeClosure (.cons (.fixed .openRound) (.cons (types p ps)
      (.cons (.fixed .closeRound) (.cons (.fixed .fatArrow) (.cons result .nil)))))

/-- The tokens of a list of datatypes. -/
def typesTokens : List (Tree (.branch .datatype)) → List Token
  | [] => []
  | t :: ts => t.tokens ++ ts.flatMap fun u => Token.fixed .comma :: u.tokens

theorem tokens_typesMore (more : Tree (.branch .moreDatatypes))
    (ts : List (Tree (.branch .datatype))) :
    (ts.foldl typesMore more).tokens
      = more.tokens ++ ts.flatMap fun u => Token.fixed .comma :: u.tokens := by
  induction ts generalizing more with
  | nil => simp
  | cons t ts ih =>
    rw [List.foldl_cons, ih, List.flatMap_cons]
    simp [typesMore, tokens, Forest.tokens, fixed, Token.fixed]

theorem tokens_types (t : Tree (.branch .datatype)) (ts : List (Tree (.branch .datatype))) :
    (types t ts).tokens = typesTokens (t :: ts) := by
  cases ts with
  | nil => simp [types, typesTokens, tokens, Forest.tokens]
  | cons u us =>
    show t.tokens ++ ((us.foldl typesMore (typesSecond u)).tokens ++ []) = _
    rw [tokens_typesMore]
    simp [typesTokens, typesSecond, tokens, Forest.tokens, fixed, Token.fixed]

theorem tokens_typeCallable (style : LambdaStyle) (ps : List (Tree (.branch .datatype)))
    (r : Tree (.branch .datatype)) :
    (typeCallable style ps r).tokens = Token.fixed style.opening :: (typesTokens ps ++
      Token.fixed style.closing :: Token.fixed style.arrow :: r.tokens) := by
  cases style <;> cases ps <;>
    simp [typeCallable, tokens, Forest.tokens, tokens_types, typesTokens, fixed, Token.fixed,
      LambdaStyle.opening, LambdaStyle.closing, LambdaStyle.arrow]

end Tree

namespace Datatype

mutual

/-- The derivation tree of a printed datatype. -/
def tree : Datatype → Tree (.branch .datatype)
  | .mk .array (e :: _) _ => .typeArray e.tree
  | .mk .function ps (some r) => .typeCallable .function (treeAll ps) r.tree
  | .mk .closure ps (some r) => .typeCallable .closure (treeAll ps) r.tree
  | .mk k _ _ => .typeNamed k.name
  | .foreign _ => .typeNamed ""

/-- The derivation trees of some printed datatypes. -/
def treeAll : List Datatype → List (Tree (.branch .datatype))
  | [] => []
  | t :: ts => t.tree :: treeAll ts

end

theorem treeAll_eq_map (ts : List Datatype) : treeAll ts = ts.map tree := by
  induction ts with
  | nil => rfl
  | cons t ts ih => rw [treeAll, ih, List.map_cons]

/-- The kinds of datatypes that go by their names. -/
def namedKinds : List Kind := [.any, .string, .number, .boolean, .instruction]

theorem tree_named {k : Kind} (hk : k ∈ namedKinds) : (ofKind k).tree = .typeNamed k.name := by
  simp only [namedKinds, List.mem_cons, List.not_mem_nil, or_false] at hk
  rcases hk with rfl | rfl | rfl | rfl | rfl <;> rfl

theorem tree_callable (style : LambdaStyle) (ps : List Datatype) (r : Datatype) :
    (mk style.kind ps (some r)).tree = .typeCallable style (ps.map tree) r.tree := by
  rw [← treeAll_eq_map]
  cases style <;> rfl

/-! ## What the trees stand for -/

theorem tree_meaning_named {k : Kind} (hk : k ∈ namedKinds) :
    (ofKind k).tree.meaning = .ok (ofKind k) := by
  have hnamed : namedDatatype? k.name = some (ofKind k) := by
    simp only [namedKinds, List.mem_cons, List.not_mem_nil, or_false] at hk
    rcases hk with rfl | rfl | rfl | rfl | rfl <;> rfl
  rw [tree_named hk]
  exact named_eq_ok hnamed _

theorem typesMore_meaning {more : Tree (.branch .moreDatatypes)} {ds ts : List Datatype}
    (hmore : more.meaning = .ok ds) (hts : ∀ t ∈ ts, t.tree.meaning = .ok t) :
    ((ts.map tree).foldl Tree.typesMore more).meaning = .ok (List.append (α := Datatype) ds ts) := by
  induction ts generalizing more ds with
  | nil => exact hmore.trans (congrArg Except.ok (List.append_nil ds).symm)
  | cons t ts ih =>
    rw [List.forall_mem_cons] at hts
    have hnext : (Tree.typesMore more t.tree).meaning = .ok (List.append (α := Datatype) ds [t]) := by
      simp only [Tree.typesMore, Tree.meaning, Forest.meanings, hmore, hts.1, Tree.fixed]
      rfl
    have hassoc : List.append (α := Datatype) (List.append (α := Datatype) ds [t]) ts
        = List.append (α := Datatype) ds (t :: ts) := List.append_assoc ds [t] ts
    rw [List.map_cons, List.foldl_cons, ih hnext hts.2, hassoc]

theorem types_meaning {t : Datatype} {ts : List Datatype} (ht : t.tree.meaning = .ok t)
    (hts : ∀ u ∈ ts, u.tree.meaning = .ok u) :
    (Tree.types t.tree (ts.map tree)).meaning = .ok (List.cons (α := Datatype) t ts) := by
  cases ts with
  | nil =>
    simp only [List.map_nil, Tree.types, Tree.meaning, Forest.meanings, ht]
    rfl
  | cons u us =>
    rw [List.forall_mem_cons] at hts
    have hsecond : (Tree.typesSecond u.tree).meaning = .ok (List.cons (α := Datatype) u []) := by
      simp only [Tree.typesSecond, Tree.meaning, Forest.meanings, hts.1, Tree.fixed]
      rfl
    simp only [List.map_cons, Tree.types, Tree.meaning, Forest.meanings, ht,
      typesMore_meaning hsecond hts.2]
    rfl

theorem tree_meaning_callable (style : LambdaStyle) {ps : List Datatype} {r : Datatype}
    (hps : ∀ p ∈ ps, p.tree.meaning = .ok p) (hr : r.tree.meaning = .ok r) :
    (mk style.kind ps (some r)).tree.meaning = .ok (mk style.kind ps (some r)) := by
  rw [tree_callable]
  cases ps with
  | nil =>
    cases style <;>
    · simp only [List.map_nil, Tree.typeCallable, Tree.meaning, Forest.meanings, hr, Tree.fixed]
      rfl
  | cons p ps =>
    rw [List.forall_mem_cons] at hps
    have htypes := types_meaning hps.1 hps.2
    cases style <;>
    · simp only [List.map_cons, Tree.typeCallable, Tree.meaning, Forest.meanings, hr, Tree.fixed,
        htypes]
      rfl

/-- The tree of a printed datatype stands for the datatype. -/
theorem tree_meaning {t : Datatype} (h : t.WellFormed) : t.tree.meaning = .ok t := by
  induction h using WellFormed.induct with
  | any | string | number | boolean | instruction => exact tree_meaning_named (by decide)
  | array e he ih =>
    show (Tree.typeArray e.tree).meaning = _
    simp only [Tree.typeArray, Tree.meaning, Forest.meanings, ih, Tree.fixed]
    rfl
  | function ps r _ _ ihps ihr => exact tree_meaning_callable .function ihps ihr
  | closure ps r _ _ ihps ihr => exact tree_meaning_callable .closure ihps ihr

/-! ## Printed forms in turn -/

/-- What a printed datatype starts with. -/
def starters : List Char := ['A', 'S', 'N', 'B', 'I', '|', '(']

/-- What can come after a datatype in a program. -/
def closers : List Char := [',', '>', '|', ')', ' ']

/-- The marks and words of signatures. -/
def marks : List Terminal :=
  [.arrayKw, .less, .more, .comma, .colon, .bar, .openRound, .closeRound, .thinArrow, .fatArrow]

/-- What can come after a mark in a signature. A list may be empty, and then its closing mark comes
right after the opening one. -/
def followers : Terminal → List Char
  | .arrayKw => ['<']
  | .less => starters
  | .more => closers
  | .bar => ['|', ' ', 'x'] ++ starters
  | .openRound => [')', 'x'] ++ starters
  | _ => [' ']

/-- No mark goes on with what can come after it. -/
theorem not_goesOn_followers : ∀ t ∈ marks, t.text ≠ "" ∧
    (followers t).all (fun c => !Lexeme.goesOn t.text.toList c) = true := by
  decide +kernel

theorem written_mark {t : Terminal} (ht : t ∈ marks) {ts : List Token} {cs : List Char}
    (h : Token.Written ts cs) (hcs : ∀ c ∈ cs.head?, c ∈ followers t) :
    Token.Written (Token.fixed t :: ts) (t.text.toList ++ cs) := by
  obtain ⟨htext, hends⟩ := not_goesOn_followers t ht
  exact h.fixed htext (Lexeme.goesOn_eq_false hcs hends)

/-- A mark before a space. -/
theorem written_mark_space {t : Terminal} (ht : t ∈ marks) (hspace : ' ' ∈ followers t)
    {ts : List Token} {cs : List Char} (h : Token.Written ts cs) :
    Token.Written (Token.fixed t :: ts) (t.text.toList ++ ' ' :: cs) := by
  refine written_mark ht h.space ?_
  rintro c ⟨⟩
  exact hspace

theorem text_named {k : Kind} (hk : k ∈ namedKinds) : (ofKind k).text = k.name := by
  simp only [namedKinds, List.mem_cons, List.not_mem_nil, or_false] at hk
  rcases hk with rfl | rfl | rfl | rfl | rfl <;> rfl

theorem toList_text_array (e : Datatype) :
    (array e).text.toList = Terminal.arrayKw.text.toList ++
      (Terminal.less.text.toList ++ (e.text.toList ++ Terminal.more.text.toList)) := by
  show ("Array<" ++ e.text ++ ">").toList = _
  simp [Terminal.text]

theorem toList_text_callable (style : LambdaStyle) (ps : List Datatype) (r : Datatype) :
    (mk style.kind ps (some r)).text.toList = style.opening.text.toList ++
      ((textList ps).toList ++ (style.closing.text.toList ++
        ' ' :: (style.arrow.text.toList ++ ' ' :: r.text.toList))) := by
  cases style with
  | function =>
    show ("|" ++ textList ps ++ "| -> " ++ r.text).toList = _
    simp [LambdaStyle.opening, LambdaStyle.closing, LambdaStyle.arrow, Terminal.text]
  | closure =>
    show ("(" ++ textList ps ++ ") => " ++ r.text).toList = _
    simp [LambdaStyle.opening, LambdaStyle.closing, LambdaStyle.arrow, Terminal.text]

theorem toList_textList_cons (t : Datatype) (ts : List Datatype) :
    (textList (t :: ts)).toList
      = t.text.toList ++ ts.flatMap fun u => ',' :: ' ' :: u.text.toList := by
  induction ts generalizing t with
  | nil => simp [textList]
  | cons u us ih =>
    have hlist : textList (t :: u :: us) = t.text ++ ", " ++ textList (u :: us) := rfl
    rw [hlist, String.toList_append, String.toList_append, ih, List.flatMap_cons]
    simp

theorem exists_starter {t : Datatype} (h : t.WellFormed) :
    ∃ c ∈ starters, ∃ cs, t.text.toList = c :: cs := by
  induction h using WellFormed.induct with
  | any => exact ⟨'A', by decide, _, rfl⟩
  | string => exact ⟨'S', by decide, _, rfl⟩
  | number => exact ⟨'N', by decide, _, rfl⟩
  | boolean => exact ⟨'B', by decide, _, rfl⟩
  | instruction => exact ⟨'I', by decide, _, rfl⟩
  | array e => exact ⟨'A', by decide, _, toList_text_array e⟩
  | function ps r => exact ⟨'|', by decide, _, toList_text_callable .function ps r⟩
  | closure ps r => exact ⟨'(', by decide, _, toList_text_callable .closure ps r⟩

theorem head_text_mem {t : Datatype} (h : t.WellFormed) (cs : List Char) :
    ∀ c ∈ (t.text.toList ++ cs).head?, c ∈ starters := by
  obtain ⟨d, hd, ds, htext⟩ := exists_starter h
  rw [htext, List.cons_append, List.head?_cons]
  rintro c ⟨⟩
  exact hd

/-- The printed form of a datatype is written as the tokens of its tree, before whatever can come
after a datatype. -/
def Spelled (t : Datatype) : Prop :=
  ∀ {ts : List Token} {cs : List Char}, Token.Written ts cs → (∀ c ∈ cs.head?, c ∈ closers) →
    Token.Written (t.tree.tokens ++ ts) (t.text.toList ++ cs)

theorem Spelled.named {k : Kind} (hk : k ∈ namedKinds) : (ofKind k).Spelled := by
  have key : ∀ k ∈ namedKinds, (Token.mk .name k.name 0).isSpelled = true ∧
      Terminal.isReserved k.name.toList = false ∧
      closers.all (fun c => !Lexeme.goesOn k.name.toList c) = true := by decide +kernel
  obtain ⟨hspelled, hfree, hends⟩ := key k hk
  intro ts cs h hcs
  rw [tree_named hk, text_named hk]
  exact .token ⟨hspelled, fun _ => hfree⟩ (Lexeme.goesOn_eq_false hcs hends) h

theorem Spelled.array {e : Datatype} (he : e.WellFormed) (h : e.Spelled) :
    (Datatype.array e).Spelled := by
  intro ts cs hts hcs
  have hmore : Token.Written (Token.fixed .more :: ts) (Terminal.more.text.toList ++ cs) :=
    written_mark (by decide) hts hcs
  have helement := h hmore (fun c hc => by cases hc; decide)
  have hless : Token.Written (Token.fixed .less :: _) (Terminal.less.text.toList ++ _) :=
    written_mark (by decide) helement (head_text_mem he _)
  have harray : Token.Written (Token.fixed .arrayKw :: _) (Terminal.arrayKw.text.toList ++ _) :=
    written_mark (by decide) hless (fun c hc => by cases hc; decide)
  have htokens : (Datatype.array e).tree.tokens ++ ts = Token.fixed .arrayKw ::
      Token.fixed .less :: (e.tree.tokens ++ Token.fixed .more :: ts) := by
    show (Tree.typeArray e.tree).tokens ++ ts = _
    simp [Tree.typeArray, Tree.tokens, Forest.tokens, Tree.fixed, Token.fixed]
  rw [htokens, toList_text_array]
  simp only [List.append_assoc]
  exact harray

/-- The datatypes of a list after the first, each after a comma. -/
theorem spelled_more {ps : List Datatype} (hps : ∀ p ∈ ps, p.Spelled) {ts : List Token}
    {cs : List Char} (h : Token.Written ts cs) (hcs : ∀ c ∈ cs.head?, c ∈ closers) :
    Token.Written ((ps.map tree).flatMap (fun u => Token.fixed .comma :: u.tokens) ++ ts)
        (ps.flatMap (fun u => ',' :: ' ' :: u.text.toList) ++ cs) ∧
      ∀ c ∈ (ps.flatMap (fun u => ',' :: ' ' :: u.text.toList) ++ cs).head?, c ∈ closers := by
  induction ps with
  | nil => exact ⟨h, hcs⟩
  | cons p ps ih =>
    rw [List.forall_mem_cons] at hps
    obtain ⟨hrest, hhead⟩ := ih hps.2
    have hcomma : Token.Written (Token.fixed .comma :: _) (Terminal.comma.text.toList ++ _) :=
      written_mark_space (by decide) (by decide) (hps.1 hrest hhead)
    refine ⟨?_, fun c hc => by cases hc; decide⟩
    simp only [List.map_cons, List.flatMap_cons, List.append_assoc, List.cons_append]
    exact hcomma

theorem spelled_list {ps : List Datatype} (hps : ∀ p ∈ ps, p.Spelled) {ts : List Token}
    {cs : List Char} (h : Token.Written ts cs) (hcs : ∀ c ∈ cs.head?, c ∈ closers) :
    Token.Written (Tree.typesTokens (ps.map tree) ++ ts) ((textList ps).toList ++ cs) := by
  cases ps with
  | nil => exact h
  | cons p ps =>
    rw [List.forall_mem_cons] at hps
    obtain ⟨hrest, hhead⟩ := spelled_more hps.2 h hcs
    rw [toList_textList_cons, List.map_cons, Tree.typesTokens, List.append_assoc,
      List.append_assoc]
    exact hps.1 hrest hhead

/-- A list of datatypes starts as one of them does, or with what comes after it. -/
theorem head_textList_mem {ps : List Datatype} (hps : ∀ p ∈ ps, p.WellFormed) {cs : List Char}
    {c : Char} (hc : c ∈ ((textList ps).toList ++ cs).head?) : c ∈ starters ∨ c ∈ cs.head? := by
  cases ps with
  | nil =>
    rw [textList, String.toList_empty, List.nil_append] at hc
    exact .inr hc
  | cons p ps =>
    rw [toList_textList_cons, List.append_assoc] at hc
    exact .inl (head_text_mem (hps p List.mem_cons_self) _ c hc)

/-- The end of a list of parameters and the arrow after it, before a result. -/
theorem written_closing (style : LambdaStyle) {ts : List Token} {cs : List Char}
    (h : Token.Written ts cs) :
    Token.Written (Token.fixed style.closing :: Token.fixed style.arrow :: ts)
      (style.closing.text.toList ++ ' ' :: (style.arrow.text.toList ++ ' ' :: cs)) := by
  have harrow : Token.Written (Token.fixed style.arrow :: ts) (style.arrow.text.toList ++ _) :=
    written_mark_space (by cases style <;> decide) (by cases style <;> decide) h
  exact written_mark_space (by cases style <;> decide) (by cases style <;> decide) harrow

theorem Spelled.callable (style : LambdaStyle) {ps : List Datatype} {r : Datatype}
    (hwell : ∀ p ∈ ps, p.WellFormed) (hps : ∀ p ∈ ps, p.Spelled) (hr : r.Spelled) :
    (mk style.kind ps (some r)).Spelled := by
  intro ts cs h hcs
  have hresult := written_closing style (hr h hcs)
  have hparams := spelled_list hps hresult (fun c hc => by cases style <;> cases hc <;> decide)
  rw [tree_callable, Tree.tokens_typeCallable, toList_text_callable]
  simp only [List.append_assoc, List.cons_append]
  refine written_mark (by cases style <;> decide) hparams fun c hc => ?_
  rcases head_textList_mem hwell hc with hstart | hclose
  · cases style <;> exact List.mem_append_right _ hstart
  · cases style <;> cases hclose <;> decide

/-- Every datatype that a program can write is printed as the tokens of its tree. -/
theorem tree_written {t : Datatype} (h : t.WellFormed) : t.Spelled := by
  induction h using WellFormed.induct with
  | any | string | number | boolean | instruction => exact Spelled.named (by decide)
  | array e he ih => exact Spelled.array he ih
  | function ps r hps _ ihps ihr => exact Spelled.callable .function hps ihps ihr
  | closure ps r hps _ ihps ihr => exact Spelled.callable .closure hps ihps ihr

end Datatype

/-! ## Signatures -/

/-- Whether a symbol derives only datatypes and parameters. -/
def Symbol.inSignature : Symbol → Bool
  | .leaf _ => true
  | .branch n => [.datatype, .datatypes, .moreDatatypes, .param, .params, .moreParams].contains n

/-- A signature has only signatures in it, and takes nothing that comes after it. -/
theorem Production.inSignature {p : Production} (h : (Symbol.branch p.lhs).inSignature = true) :
    p.rhs.all Symbol.inSignature = true ∧ ∀ next, p.takes next = false := by
  cases p with
  | paramsMany | paramsOne | paramTyped | datatypeName | datatypeArray | datatypeFunction
  | datatypeFunctionEmpty | datatypeClosure | datatypeClosureEmpty | datatypesMany | datatypesOne
  | moreParamsOne | moreParamsMore | moreDatatypesOne | moreDatatypesMore =>
    exact ⟨rfl, fun _ => rfl⟩
  | _ => exact absurd h (by decide)

mutual

/-- No datatype, parameter or list of them is read as going on with what comes after it. -/
theorem Tree.isClear_of_signature {s : Symbol} : (tree : Tree s) → s.inSignature = true →
    ∀ next, tree.isClear next = true
  | .leaf .., _, _ => rfl
  | .node p children, hs, next => by
    obtain ⟨hrhs, htakes⟩ := Production.inSignature hs
    rw [Tree.isClear, htakes next, children.isClear_of_signature hrhs next]
    rfl

theorem Forest.isClear_of_signature {ss : List Symbol} : (forest : Forest ss) →
    ss.all Symbol.inSignature = true → ∀ next, forest.isClear next = true
  | .nil, _, _ => rfl
  | .cons head tail, hss, next => by
    rw [List.all_cons, Bool.and_eq_true] at hss
    rw [Forest.isClear, head.isClear_of_signature hss.1, tail.isClear_of_signature hss.2]
    rfl

end

/-! ## Literals -/

namespace Tree

/-- A parameter. -/
def param (x : String) (datatype : Tree (.branch .datatype)) : Tree (.branch .params) :=
  .node .paramsOne (.cons (.node .paramTyped (.cons (.leaf .name x 0)
    (.cons (.fixed .colon) (.cons datatype .nil)))) .nil)

/-- A literal with one parameter and a number for its body. -/
def literal (style : LambdaStyle) (x : String) (datatype result : Tree (.branch .datatype))
    (body : String) : Tree (.branch .primary) :=
  match style with
  | .function => .node .primaryFunction (.cons (.fixed .bar) (.cons (param x datatype)
      (.cons (.fixed .bar) (.cons (.fixed .thinArrow) (.cons result
        (.cons (.node .primaryNumber (.cons (.leaf .number body 0) .nil)) .nil))))))
  | .closure => .node .primaryClosure (.cons (.fixed .openRound) (.cons (param x datatype)
      (.cons (.fixed .closeRound) (.cons (.fixed .fatArrow) (.cons result
        (.cons (.node .primaryNumber (.cons (.leaf .number body 0) .nil)) .nil))))))

/-- A program of one operand. -/
def program (e : Tree (.branch .primary)) : Tree (.branch .program) :=
  .node .programLast (.cons (.ofProduct (.factor (.node .unarySuffixed
    (.cons (.node .suffixedPrimary (.cons e .nil)) .nil)))) .nil)

theorem tokens_program (e : Tree (.branch .primary)) : (program e).tokens = e.tokens := by
  simp [program, ofProduct, ofSum, factor, tokens, Forest.tokens]

theorem meaning_program {e : Tree (.branch .primary)} {n : Node} (h : e.meaning = .ok n) :
    (program e).meaning = .ok n := by
  simp only [program, ofProduct, ofSum, factor, meaning, Forest.meanings, h]
  rfl

theorem tokens_literal (style : LambdaStyle) (x : String) (t u : Tree (.branch .datatype))
    (body : String) :
    (literal style x t u body).tokens = Token.fixed style.opening :: ⟨.name, x, 0⟩ ::
      Token.fixed .colon :: (t.tokens ++ Token.fixed style.closing :: Token.fixed style.arrow ::
        (u.tokens ++ [⟨.number, body, 0⟩])) := by
  cases style <;>
    simp [literal, param, tokens, Forest.tokens, fixed, Token.fixed, LambdaStyle.opening,
      LambdaStyle.closing, LambdaStyle.arrow]

theorem isClear_literal (style : LambdaStyle) (x : String) (t u : Tree (.branch .datatype))
    (body : String) : (program (literal style x t u body)).isClear .finish = true := by
  have hparam := (param x t).isClear_of_signature rfl
  have hresult := u.isClear_of_signature rfl
  cases style <;>
    simp [program, ofProduct, ofSum, factor, literal, isClear, Forest.isClear, fixed,
      Production.takes, hparam, hresult]

theorem meaning_literal (style : LambdaStyle) (x : String) {t u : Datatype} (ht : t.WellFormed)
    (hu : u.WellFormed) (body : String) :
    ∃ a b c : Span, (literal style x t.tree u.tree body).meaning =
      .ok (Node.lambda style (.proper [⟨.proper x, .proper t, .proper a⟩]) (.proper u)
        (Node.number (Number.ofToken body.toList) b) (.proper c)) := by
  have htree := Datatype.tree_meaning ht
  have hresult := Datatype.tree_meaning hu
  cases style <;>
  · simp only [literal, param, meaning, Forest.meanings, htree, hresult, fixed]
    exact ⟨_, _, _, rfl⟩

end Tree

/-- A literal with one parameter and a number for its body, as text. -/
def LambdaStyle.literalText (style : LambdaStyle) (t u : Datatype) : List Char :=
  style.opening.text.toList ++ ("x: ".toList ++ (t.text.toList ++
    (style.closing.text.toList ++ ' ' :: (style.arrow.text.toList ++ ' ' ::
      (u.text.toList ++ " 0".toList)))))

theorem literal_written (style : LambdaStyle) {t u : Datatype} (ht : t.WellFormed)
    (hu : u.WellFormed) :
    Token.Written (Tree.literal style "x" t.tree u.tree "0").tokens (style.literalText t u) := by
  have hbody : Token.Written [⟨.number, "0", 0⟩] ("0".toList ++ []) :=
    .token ⟨by decide +kernel, fun h => by cases h⟩ (by simp) .nil
  have hresult := Datatype.written_closing style
    (Datatype.tree_written hu hbody.space fun c hc => by cases hc; decide)
  have hparam := Datatype.tree_written ht hresult fun c hc => by cases style <;> cases hc <;> decide
  have hcolon : Token.Written (Token.fixed .colon :: _) (Terminal.colon.text.toList ++ _) :=
    Datatype.written_mark_space (by decide) (by decide) hparam
  have hname : Token.Written (⟨.name, "x", 0⟩ :: _) ("x".toList ++ _) :=
    .token ⟨by decide +kernel, fun _ => by decide +kernel⟩
      (fun c hc => by cases hc; decide +kernel) hcolon
  have hopened : Token.Written (Token.fixed style.opening :: _) (style.opening.text.toList ++ _) :=
    Datatype.written_mark (by cases style <;> decide) hname
      (fun c hc => by cases hc; cases style <;> decide)
  rw [Tree.tokens_literal]
  exact hopened

/-- A regular tree that differs from a number only in its span. -/
theorem Node.Regular.eq_number {n : Node} {v : Float} {s : Span} (h : n.Regular true)
    (hbare : n.bare = (Node.number v s).bare) : ∃ b : Span, n = Node.number v b := by
  cases h with
  | number x o =>
    cases hbare
    exact ⟨o, rfl⟩
  | _ => cases hbare

/-- A regular parameter that differs from another only in its span. -/
theorem Param.Regular.eq_of_bare {p : Param} {x : String} {t : Datatype} {o : Origin}
    (h : p.Regular) (hbare : p.bare = (Param.mk (.proper x) (.proper t) o).bare) :
    ∃ a : Span, p = ⟨.proper x, .proper t, .proper a⟩ := by
  cases h with
  | mk name span ht =>
    cases hbare
    exact ⟨span, rfl⟩

/-- A regular tree that differs from a literal with one parameter only in its spans. -/
theorem Node.Regular.eq_lambda {n : Node} {style : LambdaStyle} {x : String} {t u : Datatype}
    {v : Float} {s : Span} {o o' : Origin} (h : n.Regular true)
    (hbare : n.bare = (Node.lambda style (.proper [⟨.proper x, .proper t, o⟩]) (.proper u)
      (Node.number v s) o').bare) :
    ∃ a b c : Span, n = .lambda style (.proper [⟨.proper x, .proper t, .proper a⟩]) (.proper u)
      (Node.number v b) (.proper c) := by
  cases h with
  | @lambda style' ps r body c hps hr hb =>
    simp only [Node.bare, Param.bareAll, Node.lambda.injEq, Slot.proper.injEq] at hbare
    obtain ⟨rfl, hparams, rfl, hbody, -⟩ := hbare
    obtain ⟨b, rfl⟩ := hb.eq_number hbody
    obtain ⟨p, rfl, hparam⟩ := List.map_eq_singleton_iff.1 hparams
    obtain ⟨a, rfl⟩ := (hps.regular p List.mem_cons_self).eq_of_bare hparam
    exact ⟨a, b, c, rfl⟩
  | _ => cases hbare

/-- A literal with one parameter is read with the datatypes that are printed into it. -/
theorem parse_literal (style : LambdaStyle) {t u : Datatype} (ht : t.WellFormed)
    (hu : u.WellFormed) :
    ∃ a b c : Span, parse (style.literalText t u) =
      .ok (.lambda style (.proper [⟨.proper "x", .proper t, .proper a⟩]) (.proper u)
        (Node.number (Number.ofToken "0".toList) b) (.proper c)) := by
  obtain ⟨a, b, c, hmeaning⟩ := Tree.meaning_literal style "x" ht hu "0"
  have hwritten := literal_written style ht hu
  rw [← Tree.tokens_program] at hwritten
  obtain ⟨program, hparse, hbare⟩ := parse_written hwritten
    (Tree.isClear_literal style "x" t.tree u.tree "0") (Tree.meaning_program hmeaning)
  obtain ⟨a, b, c, rfl⟩ := (parse_regular hparse).eq_lambda hbare
  exact ⟨a, b, c, hparse⟩

/-- Datatypes that are printed the same are the same: the text of a literal tells its
parameter. -/
theorem Datatype.eq_of_text {t u : Datatype} (ht : t.WellFormed) (hu : u.WellFormed)
    (h : t.text = u.text) : t = u := by
  have hsame : LambdaStyle.function.literalText t t = LambdaStyle.function.literalText u u := by
    rw [LambdaStyle.literalText, LambdaStyle.literalText, h]
  obtain ⟨a, b, c, hparse⟩ := parse_literal .function ht ht
  obtain ⟨a', b', c', hparse'⟩ := parse_literal .function hu hu
  rw [hsame, hparse'] at hparse
  cases hparse
  rfl

/-- Printed into a function or closure, datatypes are read back as they were. So no two of them
have the same printed form. -/
theorem parse_printed {t u : Datatype} (ht : t.WellFormed) (hu : u.WellFormed) :
    (∃ a b c : Span, parse ("|x: " ++ t.text ++ "| -> " ++ u.text ++ " 0").toList =
      .ok (.lambda .function (.proper [⟨.proper "x", .proper t, .proper a⟩]) (.proper u)
        (Node.number (Number.ofToken "0".toList) b) (.proper c))) ∧
    (∃ a b c : Span, parse ("(x: " ++ t.text ++ ") => " ++ u.text ++ " 0").toList =
      .ok (.lambda .closure (.proper [⟨.proper "x", .proper t, .proper a⟩]) (.proper u)
        (Node.number (Number.ofToken "0".toList) b) (.proper c))) ∧
    t.shown = .ok t.text ∧ (t.text = u.text → t = u) := by
  have hfunction : ("|x: " ++ t.text ++ "| -> " ++ u.text ++ " 0").toList =
      LambdaStyle.function.literalText t u := by
    simp [LambdaStyle.literalText, LambdaStyle.opening, LambdaStyle.closing, LambdaStyle.arrow,
      Terminal.text]
  have hclosure : ("(x: " ++ t.text ++ ") => " ++ u.text ++ " 0").toList =
      LambdaStyle.closure.literalText t u := by
    simp [LambdaStyle.literalText, LambdaStyle.opening, LambdaStyle.closing, LambdaStyle.arrow,
      Terminal.text]
  rw [hfunction, hclosure]
  exact ⟨parse_literal .function ht hu, parse_literal .closure ht hu, Datatype.shown_eq_ok ht,
    Datatype.eq_of_text ht hu⟩

/-- The datatype of functions that take a function without parameters, printed with three bars in
a row. -/
def takesFunction : Datatype :=
  .function [.function [] .any] (.closure [.array (.array .number)] .instruction)

/-- The datatype of closures that return functions. -/
def returnsFunction : Datatype := .closure [] (.function [.string, .boolean] .any)

theorem parse_printed_takesFunction :
    (∃ a b c : Span, parse ("|x: ||| -> Any| -> (Array<Array<Number>>) => Instruction| -> " ++
        "() => |String, Boolean| -> Any 0").toList =
      .ok (.lambda .function (.proper [⟨.proper "x", .proper takesFunction, .proper a⟩])
        (.proper returnsFunction) (Node.number (Number.ofToken "0".toList) b) (.proper c))) ∧
    takesFunction.text = "||| -> Any| -> (Array<Array<Number>>) => Instruction" ∧
    returnsFunction.text = "() => |String, Boolean| -> Any" := by
  have htakes : takesFunction.text = "||| -> Any| -> (Array<Array<Number>>) => Instruction" := rfl
  have hreturns : returnsFunction.text = "() => |String, Boolean| -> Any" := rfl
  obtain ⟨hfunction, -⟩ := parse_printed (t := takesFunction) (u := returnsFunction) rfl rfl
  rw [htakes, hreturns] at hfunction
  exact ⟨hfunction, htakes, hreturns⟩

end Mandate
