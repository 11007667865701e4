/-
  Mandate.Proofs.Spanless

  Programs with their spans left aside.

    * `Node.bare` is a program tree without spans, and `Tree.bare` a derivation
      tree whose tokens all start at zero.
    * `Agree f x y`: both computations fail, or both succeed with results that
      `f` does not tell apart.
    * `Tree.meaning_agree`: derivation trees that differ only in where their
      tokens start stand for programs that differ only in their spans.
    * `settle_bare`: the reductions do not depend on where tokens start.
-/

import Mandate.Proofs.Parsing
import Mandate.Proofs.ProgramTree

namespace Mandate

/-! ## Outcomes -/

/-- Both computations fail, or both succeed with results that `f` does not tell apart. -/
inductive Agree {ε α β : Type} (f : α → β) : Except ε α → Except ε α → Prop where
  | ok {a b : α} (h : f a = f b) : Agree f (.ok a) (.ok b)
  | error (e e' : ε) : Agree f (.error e) (.error e')

namespace Agree

variable {ε α β : Type} {f : α → β} {x y z : Except ε α}

theorem symm (h : Agree f x y) : Agree f y x := by
  cases h with
  | ok h => exact .ok h.symm
  | error e e' => exact .error e' e

theorem trans (h : Agree f x y) (h' : Agree f y z) : Agree f x z := by
  cases h with
  | ok h =>
    cases h' with
    | ok h' => exact .ok (h.trans h')
  | error e e' =>
    cases h' with
    | error _ e'' => exact .error e e''

end Agree

/-! ## Program trees -/

/-- A parameter without its span. -/
def Param.bare (p : Param) : Param := { p with span := Origin.none }

/-- Parameters without their spans. -/
def Param.bareAll : Slot (List Param) → Slot (List Param)
  | .proper ps => .proper (ps.map Param.bare)
  | .stray d => .stray d

namespace Node

mutual

/-- A program tree without its spans. -/
@[simp]
def bare : Node → Node
  | .literal v k _ => .literal v k Origin.none
  | .lambda style ps r b _ => .lambda style (Param.bareAll ps) r b.bare Origin.none
  | .array es _ => .array (bareAll es) Origin.none
  | .name x _ => .name x Origin.none
  | .group e _ => .group e.bare Origin.none
  | .index t i _ => .index t.bare i.bare Origin.none
  | .call f as _ => .call f.bare (bareAll as) Origin.none
  | .unary op e _ => .unary op e.bare Origin.none
  | .binary op l r _ => .binary op l.bare r.bare Origin.none
  | .nameTarget x _ => .nameTarget x Origin.none
  | .indexTarget t i _ => .indexTarget t.bare i.bare Origin.none
  | .print es _ => .print (bareAll es) Origin.none
  | .assign t v _ => .assign t.bare v.bare Origin.none
  | .eval e _ => .eval e.bare Origin.none
  | .exec e _ => .exec e.bare Origin.none
  | .branch c t e _ => .branch c.bare t.bare e.bare Origin.none
  | .loop c b _ => .loop c.bare b.bare Origin.none
  | .builtin w e _ => .builtin w e.bare Origin.none
  | .data d => .data d

/-- Program trees in a slot without their spans. -/
@[simp]
def bareAll : Slot (List Node) → Slot (List Node)
  | .proper es => .proper (bareList es)
  | .stray d => .stray d

/-- Program trees without their spans. -/
@[simp]
def bareList : List Node → List Node
  | [] => []
  | e :: es => e.bare :: bareList es

end

theorem bareList_append (es ds : List Node) :
    bareList (es ++ ds) = bareList es ++ bareList ds := by
  induction es with
  | nil => rfl
  | cons e es ih => simp [ih]

theorem bareList_cons {es es' : List Node} {e e' : Node} (he : e.bare = e'.bare)
    (hes : bareList es = bareList es') : bareList (e :: es) = bareList (e' :: es') := by
  simp [he, hes]

theorem bareList_concat {es es' : List Node} {e e' : Node} (hes : bareList es = bareList es')
    (he : e.bare = e'.bare) : bareList (es ++ [e]) = bareList (es' ++ [e']) := by
  rw [bareList_append, bareList_append, hes, bareList_cons he rfl]

section Congruence

variable {e e' c c' l l' r r' : Node} {es es' : List Node} (o o' : Origin)

theorem bare_array (hes : bareList es = bareList es') :
    (Node.array (.proper es) o).bare = (Node.array (.proper es') o').bare := by
  simp [hes]

theorem bare_print (hes : bareList es = bareList es') :
    (Node.print (.proper es) o).bare = (Node.print (.proper es') o').bare := by
  simp [hes]

theorem bare_call (he : e.bare = e'.bare) (hes : bareList es = bareList es') :
    (Node.call e (.proper es) o).bare = (Node.call e' (.proper es') o').bare := by
  simp [he, hes]

theorem bare_lambda {style : LambdaStyle} {ps ps' : List Param} {t : Slot Datatype}
    (hps : ps.map Param.bare = ps'.map Param.bare) (he : e.bare = e'.bare) :
    (Node.lambda style (.proper ps) t e o).bare = (Node.lambda style (.proper ps') t e' o').bare := by
  simp [Param.bareAll, hps, he]

theorem bare_group (he : e.bare = e'.bare) : (Node.group e o).bare = (Node.group e' o').bare := by
  simp [he]

theorem bare_eval (he : e.bare = e'.bare) : (Node.eval e o).bare = (Node.eval e' o').bare := by
  simp [he]

theorem bare_exec (he : e.bare = e'.bare) : (Node.exec e o).bare = (Node.exec e' o').bare := by
  simp [he]

theorem bare_unary {op : Slot UnaryOp} (he : e.bare = e'.bare) :
    (Node.unary op e o).bare = (Node.unary op e' o').bare := by
  simp [he]

theorem bare_builtin {word : Builtin} (he : e.bare = e'.bare) :
    (Node.builtin word e o).bare = (Node.builtin word e' o').bare := by
  simp [he]

theorem bare_index (hl : l.bare = l'.bare) (hr : r.bare = r'.bare) :
    (Node.index l r o).bare = (Node.index l' r' o').bare := by
  simp [hl, hr]

theorem bare_binary {op : Slot BinaryOp} (hl : l.bare = l'.bare) (hr : r.bare = r'.bare) :
    (Node.binary op l r o).bare = (Node.binary op l' r' o').bare := by
  simp [hl, hr]

theorem bare_loop (hc : c.bare = c'.bare) (he : e.bare = e'.bare) :
    (Node.loop c e o).bare = (Node.loop c' e' o').bare := by
  simp [hc, he]

theorem bare_branch (hc : c.bare = c'.bare) (hl : l.bare = l'.bare) (hr : r.bare = r'.bare) :
    (Node.branch c l r o).bare = (Node.branch c' l' r' o').bare := by
  simp [hc, hl, hr]

end Congruence

theorem ofExpressions_bare {es es' : List Node} (h : bareList es = bareList es')
    (span span' : Span) :
    (Node.ofExpressions es span).bare = (Node.ofExpressions es' span').bare := by
  match es, es' with
  | [], [] => rfl
  | [e], [e'] => exact (List.cons.inj h).1
  | [], _ :: _ | _ :: _, [] | [_], _ :: _ :: _ | _ :: _ :: _, [_] => simp [bareList] at h
  | _ :: _ :: _, _ :: _ :: _ => exact bare_array span span' h

theorem bare_eq_name {n : Node} {x : Name} {o : Origin} (h : n.bare = .name x o) :
    ∃ o', n = .name x o' := by
  cases n with
  | name x o' =>
    cases h
    exact ⟨o', rfl⟩
  | _ => cases h

theorem bare_eq_index {n t i : Node} {o : Origin} (h : n.bare = .index t i o) :
    ∃ t' i' o', n = .index t' i' o' ∧ t'.bare = t ∧ i'.bare = i := by
  cases n with
  | index t' i' o' =>
    cases h
    exact ⟨t', i', o', rfl, rfl, rfl⟩
  | _ => cases h

/-- Whether a node can be assigned to has nothing to do with its spans. -/
theorem toTarget_agree {n n' : Node} (h : n.bare = n'.bare) :
    Agree Node.bare n.toTarget n'.toTarget := by
  fun_induction Node.toTarget n generalizing n' with
  | case1 x o =>
    obtain ⟨o', rfl⟩ := bare_eq_name h.symm
    exact .ok rfl
  | case2 target i o t ht ih =>
    obtain ⟨target', i', o', rfl, htarget, hi⟩ := bare_eq_index h.symm
    have hagree := ih htarget.symm
    rw [ht] at hagree
    rw [toTarget]
    generalize target'.toTarget = y at hagree
    cases hagree with
    | ok hbare =>
      refine .ok ?_
      rw [bare, bare, hbare, hi]
  | case3 target i o e he ih =>
    obtain ⟨target', i', o', rfl, htarget, hi⟩ := bare_eq_index h.symm
    have hagree := ih htarget.symm
    rw [he] at hagree
    rw [toTarget]
    generalize target'.toTarget = y at hagree
    cases hagree with
    | error _ e' => exact .error e e'
  | case4 n hname hindex =>
    -- The other node is no name and no element either, or this one would be.
    fun_cases Node.toTarget n' with
    | case1 x o =>
      obtain ⟨o', rfl⟩ := bare_eq_name h
      exact absurd rfl (hname x o')
    | case2 target i o t ht =>
      obtain ⟨target', i', o', rfl, -⟩ := bare_eq_index h
      exact absurd rfl (hindex target' i' o')
    | case3 target i o e he =>
      obtain ⟨target', i', o', rfl, -⟩ := bare_eq_index h
      exact absurd rfl (hindex target' i' o')
    | case4 => exact .error _ _

end Node

theorem map_bare_concat {ps ps' : List Param} {p p' : Param}
    (hps : ps.map Param.bare = ps'.map Param.bare) (hp : p.bare = p'.bare) :
    (ps ++ [p]).map Param.bare = (ps' ++ [p']).map Param.bare := by
  rw [List.map_append, List.map_append, hps, List.map_singleton, List.map_singleton, hp]

theorem repeatedParam?_bare (seen : List Name) (ps : List Param) :
    repeatedParam? seen (ps.map Param.bare) = (repeatedParam? seen ps).map Param.bare := by
  induction ps generalizing seen with
  | nil => rfl
  | cons p ps ih =>
    have hname : p.bare.name = p.name := rfl
    rw [List.map_cons, repeatedParam?, repeatedParam?, ih, hname]
    by_cases h : seen.any p.name.same
    · rw [if_pos h, if_pos h, Option.map_some]
    · rw [if_neg h, if_neg h]

theorem distinctParams_agree {ps ps' : List Param} (h : ps.map Param.bare = ps'.map Param.bare) :
    Agree (List.map Param.bare) (distinctParams ps) (distinctParams ps') := by
  have hrep := repeatedParam?_bare [] ps
  rw [h, repeatedParam?_bare] at hrep
  unfold distinctParams
  generalize repeatedParam? [] ps = x, repeatedParam? [] ps' = y at hrep
  match x, y, hrep with
  | none, none, _ => exact .ok h
  | some p, some p', _ => exact .error _ _

/-! ## Meanings -/

/-- A token as if it stood at the start of the text. -/
def Token.bare (t : Token) : Token := { t with start := 0 }

/-- What a derivation of a nonterminal stands for, without spans. -/
def Nonterminal.bare : (n : Nonterminal) → n.Meaning → n.Meaning
  | .params | .moreParams => List.map Param.bare
  | .param => Param.bare
  | .datatype => fun t : Datatype => t
  | .datatypes | .moreDatatypes => fun ts : List Datatype => ts
  | .lines | .moreParts | .moreExpressions | .arguments => Node.bareList
  | .program | .expression | .instruction | .logic | .equality | .comparison | .sum | .product
  | .power | .unary | .suffixed | .primary => Node.bare

/-- What a derivation of a symbol stands for, without spans. -/
def Symbol.bare : (s : Symbol) → s.Meaning → s.Meaning
  | .leaf _ => Token.bare
  | .branch n => n.bare

/-- Meanings that differ only in their spans. -/
inductive Meanings.Alike : {ss : List Symbol} → Meanings ss → Meanings ss → Prop where
  | nil : Alike .nil .nil
  | cons {s : Symbol} {ss : List Symbol} {a b : s.Meaning} {as bs : Meanings ss}
      (head : s.bare a = s.bare b) (tail : as.Alike bs) : Alike (.cons a as) (.cons b bs)

/-- Meanings without spans. -/
def Meanings.bare {ss : List Symbol} : Meanings ss → Meanings ss
  | .nil => .nil
  | .cons (s := s) head tail => .cons (s.bare head) tail.bare

theorem Meanings.alike_of_bare : {ss : List Symbol} → (as bs : Meanings ss) →
    as.bare = bs.bare → as.Alike bs
  | _, .nil, .nil, _ => .nil
  | _, .cons a as, .cons b bs, h => by
    rw [bare, bare] at h
    injection h with _ _ hhead htail
    exact .cons hhead (alike_of_bare as bs htail)

/-- Tokens that differ only in their place have the same text. -/
theorem Token.text_eq {t u : Token} (h : t.bare = u.bare) : t.text = u.text := by
  have htext : t.bare.text = u.bare.text := by rw [h]
  exact htext

theorem binaryOf_agree {op : BinaryOp} {l l' r r' : Node} (hl : l.bare = l'.bare)
    (hr : r.bare = r'.bare) (span span' : Span) :
    Agree Node.bare (binaryOf op l r span) (binaryOf op l' r' span') :=
  .ok (Node.bare_binary span span' hl hr)

theorem assign_agree {t t' v v' : Node} (ht : t.bare = t'.bare) (hv : v.bare = v'.bare)
    (span span' : Span) :
    Agree Node.bare
      (match t.toTarget with
      | .ok t => .ok (.assign t v span)
      | .error e => .error e : Except SyntaxError Node)
      (match t'.toTarget with
      | .ok t => .ok (.assign t v' span')
      | .error e => .error e : Except SyntaxError Node) := by
  have h := Node.toTarget_agree ht
  generalize t.toTarget = x, t'.toTarget = y at h
  cases h with
  | ok h =>
    refine .ok ?_
    rw [Node.bare, Node.bare, h, hv]
  | error e e' => exact .error e e'

theorem named_agree {name name' : String} (h : name = name') (e e' : SyntaxError) :
    Agree (fun t : Datatype => t)
      (match namedDatatype? name with
      | some t => .ok t
      | none => .error e : Except SyntaxError Datatype)
      (match namedDatatype? name' with
      | some t => .ok t
      | none => .error e' : Except SyntaxError Datatype) := by
  subst h
  cases namedDatatype? name with
  | some t => exact .ok rfl
  | none => exact .error e e'

/-- What a production makes of meanings that differ only in their spans. -/
theorem Production.build_agree (p : Production) (span span' : Span) (ms ms' : Meanings p.rhs)
    (h : ms.Alike ms') : Agree p.lhs.bare (p.build span ms) (p.build span' ms') := by
  -- Only an assignment, a parameter list and the name of a datatype can be refused; what the
  -- others build differs in its spans if its parts do.
  cases p with
  | programLast | expressionInstruction | expressionLogic | logicEquality | equalityComparison
  | comparisonSum | sumProduct | productPower | powerUnary | unarySuffixed | suffixedPrimary =>
    match ms, ms', h with
    | .cons _ .nil, .cons _ .nil, .cons he .nil => exact .ok he
  | logicAnd | logicAmpersand | logicOr | logicBar | equalityEqual | equalityNotEqual
  | comparisonLess | comparisonMore | comparisonAtMost | comparisonAtLeast | sumPlus | sumMinus
  | productStar | productSlash | productPercent | powerCaret =>
    match ms, ms', h with
    | .cons _ (.cons _ (.cons _ .nil)), .cons _ (.cons _ (.cons _ .nil)),
        .cons hl (.cons _ (.cons hr .nil)) =>
      exact binaryOf_agree hl hr span span'
  | unaryPlus | unaryMinus =>
    match ms, ms', h with
    | .cons _ (.cons _ .nil), .cons _ (.cons _ .nil), .cons _ (.cons he .nil) =>
      exact .ok (Node.bare_unary span span' he)
  | unaryLen | unaryToString | unaryToNumber | unaryToBoolean | unaryIsNumber | unaryIsBoolean
  | unaryInputPrompt =>
    match ms, ms', h with
    | .cons _ (.cons _ .nil), .cons _ (.cons _ .nil), .cons _ (.cons he .nil) =>
      exact .ok (Node.bare_builtin span span' he)
  | unaryInput =>
    match ms, ms' with
    | .cons _ .nil, .cons _ .nil => exact .ok (Node.bare_builtin span span' rfl)
  | programLinesLast =>
    match ms, ms', h with
    | .cons _ (.cons _ .nil), .cons _ (.cons _ .nil), .cons hes (.cons he .nil) =>
      exact .ok (Node.ofExpressions_bare (Node.bareList_concat hes he) _ _)
  | programLines =>
    match ms, ms', h with
    | .cons _ .nil, .cons _ .nil, .cons hes .nil => exact .ok (Node.ofExpressions_bare hes _ _)
  | programEmpty =>
    match ms, ms' with
    | .nil, .nil => exact .ok rfl
  | printMany =>
    match ms, ms', h with
    | .cons _ (.cons _ (.cons _ .nil)), .cons _ (.cons _ (.cons _ .nil)),
        .cons _ (.cons he (.cons hes .nil)) =>
      exact .ok (Node.bare_print span span' (Node.bareList_cons he hes))
  | printOne =>
    match ms, ms', h with
    | .cons _ (.cons _ .nil), .cons _ (.cons _ .nil), .cons _ (.cons he .nil) =>
      exact .ok (Node.bare_print span span' (Node.bareList_cons he rfl))
  | eval =>
    match ms, ms', h with
    | .cons _ (.cons _ .nil), .cons _ (.cons _ .nil), .cons _ (.cons he .nil) =>
      exact .ok (Node.bare_eval span span' he)
  | exec =>
    match ms, ms', h with
    | .cons _ (.cons _ .nil), .cons _ (.cons _ .nil), .cons _ (.cons he .nil) =>
      exact .ok (Node.bare_exec span span' he)
  | ifElse =>
    match ms, ms', h with
    | .cons _ (.cons _ (.cons _ (.cons _ (.cons _ (.cons _ .nil))))),
        .cons _ (.cons _ (.cons _ (.cons _ (.cons _ (.cons _ .nil))))),
        .cons _ (.cons hc (.cons _ (.cons ht (.cons _ (.cons he .nil))))) =>
      exact .ok (Node.bare_branch span span' hc ht he)
  | ifThen =>
    match ms, ms', h with
    | .cons _ (.cons _ (.cons _ (.cons _ .nil))), .cons _ (.cons _ (.cons _ (.cons _ .nil))),
        .cons _ (.cons hc (.cons _ (.cons ht .nil))) =>
      exact .ok (Node.bare_branch span span' hc ht rfl)
  | whileDo =>
    match ms, ms', h with
    | .cons _ (.cons _ (.cons _ (.cons _ .nil))), .cons _ (.cons _ (.cons _ (.cons _ .nil))),
        .cons _ (.cons hc (.cons _ (.cons hb .nil))) =>
      exact .ok (Node.bare_loop span span' hc hb)
  | assign =>
    match ms, ms', h with
    | .cons _ (.cons _ (.cons _ .nil)), .cons _ (.cons _ (.cons _ .nil)),
        .cons ht (.cons _ (.cons hv .nil)) =>
      exact assign_agree ht hv span span'
  | suffixedIndex =>
    match ms, ms', h with
    | .cons _ (.cons _ (.cons _ (.cons _ .nil))), .cons _ (.cons _ (.cons _ (.cons _ .nil))),
        .cons he (.cons _ (.cons hi _)) =>
      exact .ok (Node.bare_index span span' he hi)
  | suffixedCall =>
    match ms, ms', h with
    | .cons _ (.cons _ (.cons _ (.cons _ .nil))), .cons _ (.cons _ (.cons _ (.cons _ .nil))),
        .cons hf (.cons _ (.cons has _)) =>
      exact .ok (Node.bare_call span span' hf has)
  | suffixedCallEmpty =>
    match ms, ms', h with
    | .cons _ (.cons _ (.cons _ .nil)), .cons _ (.cons _ (.cons _ .nil)), .cons hf _ =>
      exact .ok (Node.bare_call span span' hf rfl)
  | primaryString =>
    match ms, ms', h with
    | .cons _ .nil, .cons _ .nil, .cons ht .nil =>
      exact .ok (congrArg (fun s : String => (Node.string (stringValue s.toList) span).bare)
        (Token.text_eq ht))
  | primaryNumber =>
    match ms, ms', h with
    | .cons _ .nil, .cons _ .nil, .cons ht .nil =>
      exact .ok (congrArg (fun s : String => (Node.number (Number.ofToken s.toList) span).bare)
        (Token.text_eq ht))
  | primaryTrue | primaryFalse =>
    match ms, ms' with
    | .cons _ .nil, .cons _ .nil => exact .ok rfl
  | primaryName =>
    match ms, ms', h with
    | .cons _ .nil, .cons _ .nil, .cons ht .nil =>
      exact .ok (congrArg (fun s : String => (Node.name (.proper s) span).bare)
        (Token.text_eq ht))
  | primaryGroup =>
    match ms, ms', h with
    | .cons _ (.cons _ (.cons _ .nil)), .cons _ (.cons _ (.cons _ .nil)),
        .cons _ (.cons he _) =>
      exact .ok (Node.bare_group span span' he)
  | primaryArrayMany =>
    match ms, ms', h with
    | .cons _ (.cons _ (.cons _ (.cons _ .nil))), .cons _ (.cons _ (.cons _ (.cons _ .nil))),
        .cons _ (.cons he (.cons hes _)) =>
      exact .ok (Node.bare_array span span' (Node.bareList_cons he hes))
  | primaryArrayOne =>
    match ms, ms', h with
    | .cons _ (.cons _ (.cons _ .nil)), .cons _ (.cons _ (.cons _ .nil)),
        .cons _ (.cons he _) =>
      exact .ok (Node.bare_array span span' (Node.bareList_cons he rfl))
  | primaryArrayEmpty =>
    match ms, ms' with
    | .cons _ (.cons _ .nil), .cons _ (.cons _ .nil) => exact .ok rfl
  | primaryFunction | primaryClosure =>
    match ms, ms', h with
    | .cons _ (.cons _ (.cons _ (.cons _ (.cons _ (.cons _ .nil))))),
        .cons _ (.cons _ (.cons _ (.cons _ (.cons _ (.cons _ .nil))))),
        .cons _ (.cons hps (.cons _ (.cons _ (.cons hr (.cons hb .nil))))) =>
      cases hr
      exact .ok (Node.bare_lambda span span' hps hb)
  | primaryFunctionEmpty | primaryClosureEmpty =>
    match ms, ms', h with
    | .cons _ (.cons _ (.cons _ (.cons _ (.cons _ .nil)))),
        .cons _ (.cons _ (.cons _ (.cons _ (.cons _ .nil)))),
        .cons _ (.cons _ (.cons _ (.cons hr (.cons hb .nil)))) =>
      cases hr
      exact .ok (Node.bare_lambda span span' rfl hb)
  | paramsMany =>
    match ms, ms', h with
    | .cons _ (.cons _ .nil), .cons _ (.cons _ .nil), .cons hp (.cons hps .nil) =>
      exact distinctParams_agree (List.cons_eq_cons.2 ⟨hp, hps⟩)
  | paramsOne =>
    match ms, ms', h with
    | .cons _ .nil, .cons _ .nil, .cons hp .nil =>
      exact @distinctParams_agree [_] [_] (List.cons_eq_cons.2 ⟨hp, rfl⟩)
  | paramTyped =>
    match ms, ms', h with
    | .cons _ (.cons _ (.cons _ .nil)), .cons _ (.cons _ (.cons _ .nil)),
        .cons ht (.cons _ (.cons hd .nil)) =>
      cases hd
      exact .ok (congrArg (fun s : String => Param.mk (.proper s) _ Origin.none)
        (Token.text_eq ht))
  | datatypeName =>
    match ms, ms', h with
    | .cons _ .nil, .cons _ .nil, .cons ht .nil => exact named_agree (Token.text_eq ht) _ _
  | datatypeArray =>
    match ms, ms', h with
    | .cons _ (.cons _ (.cons _ (.cons _ .nil))), .cons _ (.cons _ (.cons _ (.cons _ .nil))),
        .cons _ (.cons _ (.cons hd _)) =>
      exact .ok (congrArg Datatype.array hd)
  | datatypeFunction | datatypeClosure =>
    match ms, ms', h with
    | .cons _ (.cons _ (.cons _ (.cons _ (.cons _ .nil)))),
        .cons _ (.cons _ (.cons _ (.cons _ (.cons _ .nil)))),
        .cons _ (.cons hds (.cons _ (.cons _ (.cons hr .nil)))) =>
      cases hds
      cases hr
      exact .ok rfl
  | datatypeFunctionEmpty | datatypeClosureEmpty =>
    match ms, ms', h with
    | .cons _ (.cons _ (.cons _ (.cons _ .nil))), .cons _ (.cons _ (.cons _ (.cons _ .nil))),
        .cons _ (.cons _ (.cons _ (.cons hr .nil))) =>
      cases hr
      exact .ok rfl
  | argumentsMany =>
    match ms, ms', h with
    | .cons _ (.cons _ .nil), .cons _ (.cons _ .nil), .cons he (.cons hes .nil) =>
      exact .ok (Node.bareList_cons he hes)
  | datatypesMany =>
    match ms, ms', h with
    | .cons _ (.cons _ .nil), .cons _ (.cons _ .nil), .cons hd (.cons hds .nil) =>
      cases hd
      cases hds
      exact .ok rfl
  | argumentsOne =>
    match ms, ms', h with
    | .cons _ .nil, .cons _ .nil, .cons he .nil => exact .ok (Node.bareList_cons he rfl)
  | datatypesOne =>
    match ms, ms', h with
    | .cons _ .nil, .cons _ .nil, .cons hd .nil =>
      cases hd
      exact .ok rfl
  | linesExpression =>
    match ms, ms', h with
    | .cons _ (.cons _ .nil), .cons _ (.cons _ .nil), .cons he _ =>
      exact .ok (Node.bareList_cons he rfl)
  | linesBlank =>
    match ms, ms' with
    | .cons _ .nil, .cons _ .nil => exact .ok rfl
  | linesMoreExpression =>
    match ms, ms', h with
    | .cons _ (.cons _ (.cons _ .nil)), .cons _ (.cons _ (.cons _ .nil)),
        .cons hes (.cons he _) =>
      exact .ok (Node.bareList_concat hes he)
  | linesMoreBlank =>
    match ms, ms', h with
    | .cons _ (.cons _ .nil), .cons _ (.cons _ .nil), .cons hes _ => exact .ok hes
  | partsOne | expressionsOne =>
    match ms, ms', h with
    | .cons _ (.cons _ .nil), .cons _ (.cons _ .nil), .cons _ (.cons he .nil) =>
      exact .ok (Node.bareList_cons he rfl)
  | partsMore | expressionsMore =>
    match ms, ms', h with
    | .cons _ (.cons _ (.cons _ .nil)), .cons _ (.cons _ (.cons _ .nil)),
        .cons hes (.cons _ (.cons he .nil)) =>
      exact .ok (Node.bareList_concat hes he)
  | moreParamsOne =>
    match ms, ms', h with
    | .cons _ (.cons _ .nil), .cons _ (.cons _ .nil), .cons _ (.cons hp .nil) =>
      exact .ok (List.cons_eq_cons.2 ⟨hp, rfl⟩)
  | moreParamsMore =>
    match ms, ms', h with
    | .cons _ (.cons _ (.cons _ .nil)), .cons _ (.cons _ (.cons _ .nil)),
        .cons hps (.cons _ (.cons hp .nil)) =>
      exact .ok (map_bare_concat hps hp)
  | moreDatatypesOne =>
    match ms, ms', h with
    | .cons _ (.cons _ .nil), .cons _ (.cons _ .nil), .cons _ (.cons hd .nil) =>
      cases hd
      exact .ok rfl
  | moreDatatypesMore =>
    match ms, ms', h with
    | .cons _ (.cons _ (.cons _ .nil)), .cons _ (.cons _ (.cons _ .nil)),
        .cons hds (.cons _ (.cons hd .nil)) =>
      cases hds
      cases hd
      exact .ok rfl

/-! ## Derivation trees -/

mutual

/-- A derivation tree whose tokens all start at zero. -/
def Tree.bare {s : Symbol} : Tree s → Tree s
  | .leaf t text _ => .leaf t text 0
  | .node p children => .node p children.bare

/-- Derivation trees whose tokens all start at zero. -/
def Forest.bare {ss : List Symbol} : Forest ss → Forest ss
  | .nil => .nil
  | .cons head tail => .cons head.bare tail.bare

end

mutual

/-- Where the tokens of a tree start decides only about spans. -/
theorem Tree.meaning_bare {s : Symbol} :
    (tree : Tree s) → Agree s.bare tree.meaning tree.bare.meaning
  | .leaf t text start => .ok rfl
  | .node p children => by
    have h := children.meanings_bare
    rw [Tree.bare, Tree.meaning, Tree.meaning]
    generalize children.meanings = x, children.bare.meanings = y at h
    cases h with
    | ok h => exact p.build_agree _ _ _ _ (Meanings.alike_of_bare _ _ h)
    | error d e => exact .error d e

theorem Forest.meanings_bare {ss : List Symbol} :
    (forest : Forest ss) → Agree Meanings.bare forest.meanings forest.bare.meanings
  | .nil => .ok rfl
  | .cons head tail => by
    have hhead := head.meaning_bare
    have htail := tail.meanings_bare
    rw [Forest.bare, Forest.meanings, Forest.meanings]
    generalize head.meaning = x, head.bare.meaning = y at hhead
    cases hhead with
    | error d e => exact .error d e
    | ok hhead =>
      generalize tail.meanings = x, tail.bare.meanings = y at htail
      cases htail with
      | error d e => exact .error d e
      | ok htail =>
        refine .ok ?_
        rw [Meanings.bare, Meanings.bare, hhead, htail]

end

/-- Trees that differ only in where their tokens start stand for programs that differ only in
their spans. -/
theorem Tree.meaning_agree {s : Symbol} {tree tree' : Tree s} (h : tree.bare = tree'.bare) :
    Agree s.bare tree.meaning tree'.meaning := by
  have hbare := tree.meaning_bare
  rw [h] at hbare
  exact hbare.trans tree'.meaning_bare.symm

/-! ## Reductions -/

/-- A stack whose tokens all start at zero. -/
def Stack.bare {q : ItemSet} : Stack q → Stack q
  | .bottom => .bottom
  | .push below tree => .push below.bare tree.bare

theorem Stack.weight_bare {q : ItemSet} (stack : Stack q) : stack.bare.weight = stack.weight := by
  induction stack with
  | bottom => rfl
  | push below tree ih => rw [Stack.bare, Stack.weight, Stack.weight, ih]

theorem Forest.bare_cast {ss ts : List Symbol} (h : ss = ts) (forest : Forest ss) :
    (h ▸ forest).bare = h ▸ forest.bare := by
  subst h
  rfl

theorem Tree.bare_cast {n m : Nonterminal} (h : n = m) (tree : Tree (.branch n)) :
    (h ▸ tree : Tree (.branch m)).bare = h ▸ tree.bare := by
  subst h
  rfl

/-- A state that holds `p` past a symbol was entered by that symbol. -/
theorem ItemSet.rhs_drop {q : ItemSet} {s : Symbol} {p : Production} {d : Nat}
    (h : (q.goto s).has p (d + 1) = true) (hd : d + 1 ≤ p.rhs.length) :
    s :: p.rhs.drop (d + 1) = p.rhs.drop d := by
  have hlt := p.rhs_length_lt
  have hfrom := ItemSet.has_goto (by omega) h
  rw [List.drop_eq_getElem_cons hd, (List.getElem?_eq_some_iff.1 hfrom.2).2]

section Pop

variable {p : Production} {q state : ItemSet} {stack : Stack q} {below : Stack state}
  {children : Forest p.rhs}

/-- Taking symbols off a stack does not depend on where tokens start. -/
theorem Stack.popFrom_bare {d w v : Nat} {h : q.has p d = true} {hd : d ≤ p.rhs.length}
    {later : Forest (p.rhs.drop d)} {hw : stack.weight + Symbol.total (p.rhs.drop d) = w}
    {hx : below.weight + Symbol.total p.rhs = w}
    (hpop : stack.popFrom p w d h hd later hw = ⟨state, below, children, hx⟩)
    (hv : stack.bare.weight + Symbol.total (p.rhs.drop d) = v)
    (hy : below.bare.weight + Symbol.total p.rhs = v) :
    stack.bare.popFrom p v d h hd later.bare hv = ⟨state, below.bare, children.bare, hy⟩ := by
  induction d generalizing q with
  | zero =>
    cases hpop
    rfl
  | succ d ih =>
    cases stack with
    | bottom =>
      have := p.rhs_length_lt
      simp [ItemSet.has_start (p := p) (d := d) (by omega)] at h
    | push below tree =>
      have hcast := Forest.bare_cast (ItemSet.rhs_drop h hd) (.cons tree later)
      rw [Forest.bare] at hcast
      have hlater := ih hpop (by
        rw [← ItemSet.rhs_drop h hd]
        simp only [Stack.bare, Stack.weight, Symbol.total] at hv ⊢
        omega)
      rw [hcast] at hlater
      exact hlater

theorem Stack.pop_bare {h : q.has p p.rhs.length = true}
    {hw : below.weight + Symbol.total p.rhs = stack.weight}
    (hpop : stack.pop p h = ⟨state, below, children, hw⟩) :
    stack.bare.pop p h = ⟨state, below.bare, children.bare, by
      rw [below.weight_bare, stack.weight_bare, hw]⟩ := by
  have hnil := Forest.bare_cast (List.drop_length (l := p.rhs)).symm .nil
  rw [Forest.bare] at hnil
  have hbare := Stack.popFrom_bare hpop (v := stack.bare.weight) (by simp [Symbol.total])
    (by rw [below.weight_bare, stack.weight_bare, hw])
  rw [hnil] at hbare
  exact hbare

end Pop

/-- What becomes of a stack, with its tokens starting at zero. -/
def Settled.bare {t : Terminal} : Settled t → Settled t
  | .shift stack h => .shift stack.bare h
  | .accept tree h => .accept tree.bare h
  | .reject q => .reject q

/-- The reductions do not depend on where tokens start. -/
theorem settle_bare (t : Terminal) {q : ItemSet} (stack : Stack q) :
    settle t stack.bare = (settle t stack).bare := by
  induction q, stack using settle.induct t with
  | case1 q stack h => rw [settle_eq_reject h, settle_eq_reject h, Settled.bare]
  | case2 q stack h => rw [settle_eq_shift h, settle_eq_shift h, Settled.bare]
  | case3 q stack p h state below children hw hpop hp =>
    rw [settle_eq_accept h hpop hp, settle_eq_accept h (Stack.pop_bare hpop) hp,
      Settled.bare, Tree.bare_cast, Tree.bare]
  | case4 q stack p h state below children hw hpop hp ih =>
    rw [settle_eq_settle h hpop hp, settle_eq_settle h (Stack.pop_bare hpop) hp, ← ih,
      Stack.bare, Tree.bare]

end Mandate
