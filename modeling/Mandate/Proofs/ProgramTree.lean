/-
  Mandate.Proofs.ProgramTree

  The program trees that sources stand for.

    * `Node.Regular` says what such a tree is made of: every slot is filled
      properly, every datatype can be written, the parameters of a literal have
      different names, and what is assigned to is a name or an element of what
      can be assigned to. The flag tells whether elements may be assigned to.
    * `Tree.meaning_proper`: what a derivation tree stands for is regular.
    * `Node.Regular.withoutElements`: a regular tree in which no element is
      assigned to is one of the smaller class.
-/

import Mandate.Program
import Mandate.Proofs.Acceptance

namespace Mandate

/-! ## Regular trees -/

/-- A parameter with a name, a datatype and a span. -/
inductive Param.Regular : Param → Prop where
  | mk (name : String) {t : Datatype} (span : Span) (ht : t.WellFormed) :
      Regular ⟨.proper name, .proper t, .proper span⟩

/-- Parameters of one literal. -/
structure Param.RegularList (ps : List Param) : Prop where
  regular : ∀ p ∈ ps, p.Regular
  distinct : ps.Pairwise fun p q => p.name ≠ q.name

mutual

/-- A tree of the kind that the parser makes. -/
inductive Node.Regular (elements : Bool) : Node → Prop where
  | string (s : String) (o : Span) : Regular elements (Node.string s o)
  | number (x : Float) (o : Span) : Regular elements (Node.number x o)
  | boolean (b : Bool) (o : Span) : Regular elements (Node.boolean b o)
  | lambda (style : LambdaStyle) {ps : List Param} {r : Datatype} {b : Node} (o : Span)
      (hps : Param.RegularList ps) (hr : r.WellFormed) (hb : Regular elements b) :
      Regular elements (.lambda style (.proper ps) (.proper r) b (.proper o))
  | array {es : List Node} (o : Span) (hes : ∀ e ∈ es, Regular elements e) :
      Regular elements (.array (.proper es) (.proper o))
  | name (x : String) (o : Span) : Regular elements (.name (.proper x) (.proper o))
  | group {e : Node} (o : Span) (he : Regular elements e) :
      Regular elements (.group e (.proper o))
  | index {t i : Node} (o : Span) (ht : Regular elements t) (hi : Regular elements i) :
      Regular elements (.index t i (.proper o))
  | call {f : Node} {as : List Node} (o : Span) (hf : Regular elements f)
      (has : ∀ a ∈ as, Regular elements a) :
      Regular elements (.call f (.proper as) (.proper o))
  | unary (op : UnaryOp) {e : Node} (o : Span) (he : Regular elements e) :
      Regular elements (.unary (.proper op) e (.proper o))
  | binary (op : BinaryOp) {l r : Node} (o : Span) (hl : Regular elements l)
      (hr : Regular elements r) : Regular elements (.binary (.proper op) l r (.proper o))
  | print {es : List Node} (o : Span) (hes : ∀ e ∈ es, Regular elements e) :
      Regular elements (.print (.proper es) (.proper o))
  | assign {t v : Node} (o : Span) (ht : Target elements t) (hv : Regular elements v) :
      Regular elements (.assign t v (.proper o))
  | eval {e : Node} (o : Span) (he : Regular elements e) :
      Regular elements (.eval e (.proper o))
  | exec {e : Node} (o : Span) (he : Regular elements e) :
      Regular elements (.exec e (.proper o))
  | branch {c t e : Node} (o : Span) (hc : Regular elements c) (ht : Regular elements t)
      (he : Regular elements e) : Regular elements (.branch c t e (.proper o))
  /-- `if` without `else`. -/
  | branchThen {c t : Node} (o : Span) (hc : Regular elements c) (ht : Regular elements t) :
      Regular elements (.branch c t Node.absent (.proper o))
  | loop {c b : Node} (o : Span) (hc : Regular elements c) (hb : Regular elements b) :
      Regular elements (.loop c b (.proper o))
  | builtin (word : Builtin) {e : Node} (o : Span) (he : Regular elements e) :
      Regular elements (.builtin word e (.proper o))
  /-- `input` without a prompt. -/
  | input (o : Span) : Regular elements (.builtin .input Node.absent (.proper o))

/-- What can be assigned to: a name, or an element of a target. -/
inductive Node.Target (elements : Bool) : Node → Prop where
  | name (x : String) (o : Span) : Target elements (.nameTarget (.proper x) (.proper o))
  | element {t i : Node} (o : Span) (h : elements = true) (ht : Target elements t)
      (hi : Regular elements i) : Target elements (.indexTarget t i (.proper o))

end

namespace Node

/-- A regular tree comes from somewhere. -/
theorem Regular.origin {elements : Bool} {n : Node} (h : n.Regular elements) :
    ∃ o : Span, n.origin? = some (.proper o) := by
  cases h <;> exact ⟨_, rfl⟩

theorem Target.origin {elements : Bool} {n : Node} (h : n.Target elements) :
    ∃ o : Span, n.origin? = some (.proper o) := by
  cases h <;> exact ⟨_, rfl⟩

/-! ## Trees that assign to no element -/

mutual

/-- Whether an element is assigned to anywhere in a tree. -/
def assignsElement : Node → Bool
  | .indexTarget .. => true
  | .lambda _ _ _ b _ => b.assignsElement
  | .array es _ | .print es _ => anyAssignsElement es
  | .group e _ | .eval e _ | .exec e _ | .unary _ e _ | .builtin _ e _ => e.assignsElement
  | .index t i _ => t.assignsElement || i.assignsElement
  | .call f as _ => f.assignsElement || anyAssignsElement as
  | .binary _ l r _ => l.assignsElement || r.assignsElement
  | .assign t v _ => t.assignsElement || v.assignsElement
  | .branch c t e _ => c.assignsElement || t.assignsElement || e.assignsElement
  | .loop c b _ => c.assignsElement || b.assignsElement
  | .literal .. | .name .. | .nameTarget .. | .data _ => false

/-- Whether an element is assigned to anywhere in a list of trees. -/
def anyAssignsElement : Slot (List Node) → Bool
  | .proper es => listAssignsElement es
  | .stray _ => false

/-- Whether an element is assigned to in one of several trees. -/
def listAssignsElement : List Node → Bool
  | [] => false
  | e :: es => e.assignsElement || listAssignsElement es

end

theorem assignsElement_of_mem {es : List Node} (h : listAssignsElement es = false) :
    ∀ e ∈ es, e.assignsElement = false := by
  induction es with
  | nil =>
    intro e he
    cases he
  | cons d ds ih =>
    rw [listAssignsElement, Bool.or_eq_false_iff] at h
    intro e he
    rcases List.mem_cons.1 he with rfl | he
    · exact h.1
    · exact ih h.2 e he

mutual

/-- A regular tree in which no element is assigned to. -/
theorem Regular.withoutElements : {n : Node} → n.Regular true → n.assignsElement = false →
    n.Regular false
  | _, .string s o, _ => .string s o
  | _, .number x o, _ => .number x o
  | _, .boolean b o, _ => .boolean b o
  | _, .name x o, _ => .name x o
  | _, .input o, _ => .input o
  | _, .lambda style o hps hr hb, hn => .lambda style o hps hr (hb.withoutElements hn)
  | _, .array o hes, hn =>
    .array o fun e he => (hes e he).withoutElements (assignsElement_of_mem hn e he)
  | _, .print o hes, hn =>
    .print o fun e he => (hes e he).withoutElements (assignsElement_of_mem hn e he)
  | _, .group o he, hn => .group o (he.withoutElements hn)
  | _, .eval o he, hn => .eval o (he.withoutElements hn)
  | _, .exec o he, hn => .exec o (he.withoutElements hn)
  | _, .unary op o he, hn => .unary op o (he.withoutElements hn)
  | _, .builtin word o he, hn => .builtin word o (he.withoutElements hn)
  | _, .index o ht hi, hn => by
    rw [assignsElement, Bool.or_eq_false_iff] at hn
    exact .index o (ht.withoutElements hn.1) (hi.withoutElements hn.2)
  | _, .call o hf has, hn => by
    rw [assignsElement, Bool.or_eq_false_iff] at hn
    exact .call o (hf.withoutElements hn.1) fun a ha =>
      (has a ha).withoutElements (assignsElement_of_mem hn.2 a ha)
  | _, .binary op o hl hr, hn => by
    rw [assignsElement, Bool.or_eq_false_iff] at hn
    exact .binary op o (hl.withoutElements hn.1) (hr.withoutElements hn.2)
  | _, .assign o ht hv, hn => by
    rw [assignsElement, Bool.or_eq_false_iff] at hn
    exact .assign o (ht.withoutElements hn.1) (hv.withoutElements hn.2)
  | _, .branch o hc ht he, hn => by
    rw [assignsElement, Bool.or_eq_false_iff, Bool.or_eq_false_iff] at hn
    exact .branch o (hc.withoutElements hn.1.1) (ht.withoutElements hn.1.2)
      (he.withoutElements hn.2)
  | _, .branchThen o hc ht, hn => by
    rw [assignsElement, Bool.or_eq_false_iff, Bool.or_eq_false_iff] at hn
    exact .branchThen o (hc.withoutElements hn.1.1) (ht.withoutElements hn.1.2)
  | _, .loop o hc hb, hn => by
    rw [assignsElement, Bool.or_eq_false_iff] at hn
    exact .loop o (hc.withoutElements hn.1) (hb.withoutElements hn.2)

theorem Target.withoutElements : {n : Node} → n.Target true → n.assignsElement = false →
    n.Target false
  | _, .name x o, _ => .name x o
  | _, .element .., hn => by cases hn

end

end Node

/-! ## What a derivation tree stands for -/

/-- Whatever a computation comes to has a property. -/
def Yields {ε α : Type} (x : Except ε α) (P : α → Prop) : Prop := ∀ a, x = .ok a → P a

theorem Yields.ok {ε α : Type} {a : α} {P : α → Prop} (h : P a) :
    Yields (.ok a : Except ε α) P := by
  intro b hb
  cases hb
  exact h

theorem exists_of_isOk {ε α : Type} {x : Except ε α} (h : x.isOk = true) : ∃ a, x = .ok a := by
  cases x with
  | ok a => exact ⟨a, rfl⟩
  | error e => cases h

/-- What a derivation of a nonterminal stands for is made of regular trees. -/
def Nonterminal.Proper : (n : Nonterminal) → n.Meaning → Prop
  | .params => Param.RegularList
  | .moreParams => fun ps : List Param => ∀ p ∈ ps, p.Regular
  | .param => Param.Regular
  | .datatype => Datatype.WellFormed
  | .datatypes | .moreDatatypes => fun ts : List Datatype => ∀ t ∈ ts, t.WellFormed
  | .lines | .moreParts | .moreExpressions | .arguments =>
    fun es : List Node => ∀ e ∈ es, e.Regular true
  | .program | .expression | .instruction | .logic | .equality | .comparison | .sum | .product
  | .power | .unary | .suffixed | .primary => Node.Regular true

/-- What a derivation of a symbol stands for is made of regular trees; of tokens nothing is
asked. -/
def Symbol.Proper : (s : Symbol) → s.Meaning → Prop
  | .leaf _ => fun _ => True
  | .branch n => n.Proper

/-- The same of several symbols. -/
inductive Meanings.Proper : {ss : List Symbol} → Meanings ss → Prop where
  | nil : Proper .nil
  | cons {s : Symbol} {ss : List Symbol} {head : s.Meaning} {tail : Meanings ss}
      (hhead : s.Proper head) (htail : tail.Proper) : Proper (.cons head tail)

theorem repeatedParam?_eq_none {seen : List Name} {ps : List Param}
    (h : repeatedParam? seen ps = none) :
    (∀ p ∈ ps, ∀ n ∈ seen, p.name.same n = false) ∧
      ps.Pairwise fun p q => q.name.same p.name = false := by
  induction ps generalizing seen with
  | nil => simp
  | cons p ps ih =>
    unfold repeatedParam? at h
    split at h
    · cases h
    · next hseen =>
      obtain ⟨hold, hpair⟩ := ih h
      refine ⟨fun q hq n hn => ?_, List.pairwise_cons.2 ⟨fun q hq => hold q hq p.name (by simp), hpair⟩⟩
      rcases List.mem_cons.1 hq with rfl | hq
      · simpa using fun hs => hseen (List.any_eq_true.2 ⟨n, hn, hs⟩)
      · exact hold q hq n (by simp [hn])

theorem distinctParams_proper {ps : List Param} (h : ∀ p ∈ ps, p.Regular) :
    Yields (distinctParams ps) Param.RegularList := by
  intro qs hqs
  unfold distinctParams at hqs
  split at hqs
  · next hrep =>
    cases hqs
    refine ⟨h, (repeatedParam?_eq_none hrep).2.imp_of_mem ?_⟩
    intro p q hp hq hne heq
    cases h p hp
    cases h q hq
    simp_all
  · cases hqs

theorem toTarget_proper {n : Node} (h : n.Regular true) :
    Yields n.toTarget (Node.Target true) := by
  fun_induction Node.toTarget n with
  | case1 x o =>
    cases h
    exact Yields.ok (.name _ _)
  | case2 target i o t ht ih =>
    cases h with
    | index o htarget hi => exact Yields.ok (.element o rfl (ih htarget t ht) hi)
  | case3 target i o e he ih =>
    intro m hm
    cases hm
  | case4 e hname hindex =>
    intro m hm
    cases hm

theorem namedDatatype?_wellFormed {name : String} {t : Datatype}
    (h : namedDatatype? name = some t) : t.WellFormed := by
  unfold namedDatatype? at h
  split at h
  all_goals cases h
  next k harray hfunction hclosure hk =>
    cases k <;> first | rfl | simp_all

/-- An assignment, if its left side is a target. -/
theorem assign_proper {target value : Node} (ht : target.Regular true)
    (hv : value.Regular true) (span : Span) :
    Yields
      (match target.toTarget with
      | .ok t => .ok (.assign t value span)
      | .error e => .error e : Except SyntaxError Node)
      (Node.Regular true) := by
  intro n hn
  split at hn
  · next t htarget =>
    cases hn
    exact .assign span (toTarget_proper ht t htarget) hv
  · cases hn

/-- A datatype by its name, if there is one. -/
theorem named_proper (name : String) (e : SyntaxError) :
    Yields
      (match namedDatatype? name with
      | some t => .ok t
      | none => .error e : Except SyntaxError Datatype)
      Datatype.WellFormed := by
  intro t ht
  split at ht
  · next d hd =>
    cases ht
    exact namedDatatype?_wellFormed hd
  · cases ht

theorem forall_mem_concat {α : Type} {P : α → Prop} {xs : List α} {x : α}
    (hxs : ∀ y ∈ xs, P y) (hx : P x) : ∀ y ∈ xs ++ [x], P y :=
  List.forall_mem_append.2 ⟨hxs, List.forall_mem_singleton.2 hx⟩

theorem ofExpressions_regular {es : List Node} (h : ∀ e ∈ es, e.Regular true) (span : Span) :
    (Node.ofExpressions es span).Regular true := by
  unfold Node.ofExpressions
  split
  · exact h _ (by simp)
  · exact .array span h

/-- What a production makes of regular parts is regular. -/
theorem Production.build_proper (span : Span) (p : Production) (ms : Meanings p.rhs)
    (h : ms.Proper) : Yields (p.build span ms) p.lhs.Proper := by
  -- Productions that build the same thing of parts in the same places share a case.
  cases p with
  | programLast | expressionInstruction | expressionLogic | logicEquality | equalityComparison
  | comparisonSum | sumProduct | productPower | powerUnary | unarySuffixed | suffixedPrimary =>
    match ms, h with
    | .cons _ .nil, .cons he .nil => exact .ok he
  | logicAnd | logicAmpersand | logicOr | logicBar | equalityEqual | equalityNotEqual
  | comparisonLess | comparisonMore | comparisonAtMost | comparisonAtLeast | sumPlus | sumMinus
  | productStar | productSlash | productPercent | powerCaret =>
    match ms, h with
    | .cons _ (.cons _ (.cons _ .nil)), .cons hl (.cons _ (.cons hr .nil)) =>
      exact .ok (.binary _ _ hl hr)
  | unaryPlus | unaryMinus =>
    match ms, h with
    | .cons _ (.cons _ .nil), .cons _ (.cons he .nil) => exact .ok (.unary _ _ he)
  | unaryLen | unaryToString | unaryToNumber | unaryToBoolean | unaryIsNumber | unaryIsBoolean
  | unaryInputPrompt =>
    match ms, h with
    | .cons _ (.cons _ .nil), .cons _ (.cons he .nil) => exact .ok (.builtin _ _ he)
  | unaryInput =>
    match ms with
    | .cons _ .nil => exact .ok (.input _)
  | programLinesLast =>
    match ms, h with
    | .cons _ (.cons _ .nil), .cons hes (.cons he .nil) =>
      exact .ok (ofExpressions_regular (forall_mem_concat hes he) _)
  | programLines =>
    match ms, h with
    | .cons _ .nil, .cons hes .nil => exact .ok (ofExpressions_regular hes _)
  | programEmpty =>
    match ms with
    | .nil => exact .ok (.array _ (by simp))
  | printMany =>
    match ms, h with
    | .cons _ (.cons _ (.cons _ .nil)), .cons _ (.cons he (.cons hes .nil)) =>
      exact .ok (.print _ (List.forall_mem_cons.2 ⟨he, hes⟩))
  | printOne =>
    match ms, h with
    | .cons _ (.cons _ .nil), .cons _ (.cons he .nil) =>
      exact .ok (.print _ (List.forall_mem_singleton.2 he))
  | eval =>
    match ms, h with
    | .cons _ (.cons _ .nil), .cons _ (.cons he .nil) => exact .ok (.eval _ he)
  | exec =>
    match ms, h with
    | .cons _ (.cons _ .nil), .cons _ (.cons he .nil) => exact .ok (.exec _ he)
  | ifElse =>
    match ms, h with
    | .cons _ (.cons _ (.cons _ (.cons _ (.cons _ (.cons _ .nil))))),
        .cons _ (.cons hc (.cons _ (.cons ht (.cons _ (.cons he .nil))))) =>
      exact .ok (.branch _ hc ht he)
  | ifThen =>
    match ms, h with
    | .cons _ (.cons _ (.cons _ (.cons _ .nil))), .cons _ (.cons hc (.cons _ (.cons ht .nil))) =>
      exact .ok (.branchThen _ hc ht)
  | whileDo =>
    match ms, h with
    | .cons _ (.cons _ (.cons _ (.cons _ .nil))), .cons _ (.cons hc (.cons _ (.cons hb .nil))) =>
      exact .ok (.loop _ hc hb)
  | assign =>
    match ms, h with
    | .cons target (.cons _ (.cons value .nil)), .cons ht (.cons _ (.cons hv .nil)) =>
      exact assign_proper ht hv span
  | suffixedIndex =>
    match ms, h with
    | .cons _ (.cons _ (.cons _ (.cons _ .nil))), .cons he (.cons _ (.cons hi _)) =>
      exact .ok (.index _ he hi)
  | suffixedCall =>
    match ms, h with
    | .cons _ (.cons _ (.cons _ (.cons _ .nil))), .cons hf (.cons _ (.cons has _)) =>
      exact .ok (.call _ hf has)
  | suffixedCallEmpty =>
    match ms, h with
    | .cons _ (.cons _ (.cons _ .nil)), .cons hf _ => exact .ok (.call _ hf (by simp))
  | primaryString =>
    match ms with
    | .cons _ .nil => exact .ok (.string _ _)
  | primaryNumber =>
    match ms with
    | .cons _ .nil => exact .ok (.number _ _)
  | primaryTrue | primaryFalse =>
    match ms with
    | .cons _ .nil => exact .ok (.boolean _ _)
  | primaryName =>
    match ms with
    | .cons _ .nil => exact .ok (.name _ _)
  | primaryGroup =>
    match ms, h with
    | .cons _ (.cons _ (.cons _ .nil)), .cons _ (.cons he _) => exact .ok (.group _ he)
  | primaryArrayMany =>
    match ms, h with
    | .cons _ (.cons _ (.cons _ (.cons _ .nil))), .cons _ (.cons he (.cons hes _)) =>
      exact .ok (.array _ (List.forall_mem_cons.2 ⟨he, hes⟩))
  | primaryArrayOne =>
    match ms, h with
    | .cons _ (.cons _ (.cons _ .nil)), .cons _ (.cons he _) =>
      exact .ok (.array _ (List.forall_mem_singleton.2 he))
  | primaryArrayEmpty =>
    match ms with
    | .cons _ (.cons _ .nil) => exact .ok (.array _ (by simp))
  | primaryFunction | primaryClosure =>
    match ms, h with
    | .cons _ (.cons _ (.cons _ (.cons _ (.cons _ (.cons _ .nil))))),
        .cons _ (.cons hps (.cons _ (.cons _ (.cons hr (.cons hb .nil))))) =>
      exact .ok (.lambda _ _ hps hr hb)
  | primaryFunctionEmpty | primaryClosureEmpty =>
    match ms, h with
    | .cons _ (.cons _ (.cons _ (.cons _ (.cons _ .nil)))),
        .cons _ (.cons _ (.cons _ (.cons hr (.cons hb .nil)))) =>
      exact .ok (.lambda _ _ ⟨by simp, .nil⟩ hr hb)
  | paramsMany =>
    match ms, h with
    | .cons _ (.cons _ .nil), .cons hp (.cons hps .nil) =>
      exact distinctParams_proper (List.forall_mem_cons.2 ⟨hp, hps⟩)
  | paramsOne =>
    match ms, h with
    | .cons _ .nil, .cons hp .nil =>
      exact distinctParams_proper (List.forall_mem_singleton.2 hp)
  | paramTyped =>
    match ms, h with
    | .cons _ (.cons _ (.cons _ .nil)), .cons _ (.cons _ (.cons ht .nil)) =>
      exact .ok (.mk _ _ ht)
  | datatypeName =>
    match ms with
    | .cons token .nil => exact named_proper token.text _
  | datatypeArray =>
    match ms, h with
    | .cons _ (.cons _ (.cons _ (.cons _ .nil))), .cons _ (.cons _ (.cons ht _)) => exact .ok ht
  | datatypeFunction =>
    match ms, h with
    | .cons _ (.cons _ (.cons _ (.cons _ (.cons _ .nil)))),
        .cons _ (.cons hts (.cons _ (.cons _ (.cons hr .nil)))) =>
      exact .ok (Datatype.wellFormed_function.2 ⟨hts, hr⟩)
  | datatypeFunctionEmpty =>
    match ms, h with
    | .cons _ (.cons _ (.cons _ (.cons _ .nil))), .cons _ (.cons _ (.cons _ (.cons hr .nil))) =>
      exact .ok (Datatype.wellFormed_function.2 ⟨by simp, hr⟩)
  | datatypeClosure =>
    match ms, h with
    | .cons _ (.cons _ (.cons _ (.cons _ (.cons _ .nil)))),
        .cons _ (.cons hts (.cons _ (.cons _ (.cons hr .nil)))) =>
      exact .ok (Datatype.wellFormed_closure.2 ⟨hts, hr⟩)
  | datatypeClosureEmpty =>
    match ms, h with
    | .cons _ (.cons _ (.cons _ (.cons _ .nil))), .cons _ (.cons _ (.cons _ (.cons hr .nil))) =>
      exact .ok (Datatype.wellFormed_closure.2 ⟨by simp, hr⟩)
  | argumentsMany | datatypesMany =>
    match ms, h with
    | .cons _ (.cons _ .nil), .cons hx (.cons hxs .nil) =>
      exact .ok (List.forall_mem_cons.2 ⟨hx, hxs⟩)
  | argumentsOne | datatypesOne =>
    match ms, h with
    | .cons _ .nil, .cons hx .nil => exact .ok (List.forall_mem_singleton.2 hx)
  | linesExpression =>
    match ms, h with
    | .cons _ (.cons _ .nil), .cons he _ => exact .ok (List.forall_mem_singleton.2 he)
  | linesBlank =>
    match ms with
    | .cons _ .nil => exact .ok (List.forall_mem_nil (Node.Regular true))
  | linesMoreExpression =>
    match ms, h with
    | .cons _ (.cons _ (.cons _ .nil)), .cons hes (.cons he _) =>
      exact .ok (forall_mem_concat hes he)
  | linesMoreBlank =>
    match ms, h with
    | .cons _ (.cons _ .nil), .cons hes _ => exact .ok hes
  | partsOne | expressionsOne | moreParamsOne | moreDatatypesOne =>
    match ms, h with
    | .cons _ (.cons _ .nil), .cons _ (.cons hx .nil) =>
      exact .ok (List.forall_mem_singleton.2 hx)
  | partsMore | expressionsMore | moreParamsMore | moreDatatypesMore =>
    match ms, h with
    | .cons _ (.cons _ (.cons _ .nil)), .cons hxs (.cons _ (.cons hx .nil)) =>
      exact .ok (forall_mem_concat hxs hx)

mutual

/-- What a derivation tree stands for is regular. -/
theorem Tree.meaning_proper {s : Symbol} : (tree : Tree s) → Yields tree.meaning s.Proper
  | .leaf t text start => .ok trivial
  | .node p children => by
    intro m hm
    unfold Tree.meaning at hm
    split at hm
    · next ms hms => exact p.build_proper children.span ms (children.meanings_proper ms hms) m hm
    · cases hm

theorem Forest.meanings_proper {ss : List Symbol} :
    (forest : Forest ss) → Yields forest.meanings Meanings.Proper
  | .nil => .ok .nil
  | .cons head tail => by
    intro ms hms
    unfold Forest.meanings at hms
    split at hms
    · next m hm =>
      split at hms
      · next ms' hms' =>
        cases hms
        exact .cons (head.meaning_proper m hm) (tail.meanings_proper ms' hms')
      · cases hms
    · cases hms

end

/-- A program is what the derivation tree of its source stands for. -/
theorem exists_tree_of_parse {source : List Char} {program : Node}
    (h : parse source = .ok program) :
    ∃ tree, parseTree (Layout.separate source) = .ok tree ∧ tree.meaning = .ok program := by
  unfold parse at h
  dsimp only at h
  split at h
  · next tree htree => exact ⟨tree, htree, h⟩
  · cases h

/-- The program of a source is regular. -/
theorem parse_regular {source : List Char} {program : Node} (h : parse source = .ok program) :
    program.Regular true := by
  obtain ⟨tree, -, hmeaning⟩ := exists_tree_of_parse h
  exact tree.meaning_proper program hmeaning

end Mandate
