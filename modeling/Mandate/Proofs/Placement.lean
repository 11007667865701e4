/-
  Mandate.Proofs.Placement

  Where the nodes of a program stand in its source.

    * `Datum.Placed`: a node takes up a part of its surroundings that is not
      empty, and its fields follow each other inside it. Parameters and targets are
      nodes like all others; texts, numbers and datatypes have no place.
    * `deliveredFrom_inOrder`: tokens follow each other in the text they are
      delivered from.
    * `Tree.meaning_placed`: what a derivation tree stands for is placed among the
      tree's tokens.
    * `parse_placed`: the nodes of a program are placed in its source. Only a
      program without a token has no place.
-/

import Mandate.Document.Tree
import Mandate.Proofs.ParserSoundness
import Mandate.Proofs.ReadableText

namespace Mandate

/-! ## Placed data -/

/-- Data that has no place of its own in a source. -/
inductive Datum.Bare : Datum → Prop where
  | null : Bare .null
  | bool (b : Bool) : Bare (.bool b)
  | number (x : Float) : Bare (.number x)
  | text (s : String) : Bare (.text s)
  | datatype (t : Datatype) : Bare (.datatype t.toDatum)

mutual

/-- Data that stands between two offsets. -/
inductive Datum.Placed : Int → Int → Datum → Prop where
  | bare {lo hi : Int} {d : Datum} (hd : d.Bare) (hle : lo ≤ hi) : Placed lo hi d
  | list {lo hi : Int} {items : List Datum} (h : InOrder lo hi items) :
      Placed lo hi (.list items)
  /-- A node covers something, and nothing inside it goes beyond it. -/
  | node {lo hi : Int} (label : Label) {fields : List Datum} {span : Span}
      (hcount : fields.length = label.fields.length) (hstart : lo ≤ span.start)
      (hcovers : span.start < span.stop) (hstop : span.stop ≤ hi)
      (h : InOrder span.start span.stop fields) :
      Placed lo hi (.node label fields (.span (.int span.start) (.int span.stop)))

/-- Data that stands between two offsets, one after the other. -/
inductive Datum.InOrder : Int → Int → List Datum → Prop where
  | nil {lo hi : Int} (hle : lo ≤ hi) : InOrder lo hi []
  | cons {lo mid hi : Int} {d : Datum} {ds : List Datum} (head : Placed lo mid d)
      (tail : InOrder mid hi ds) : InOrder lo hi (d :: ds)

end

namespace Datum

mutual

theorem Placed.widen : {lo lo' hi hi' : Int} → {d : Datum} → d.Placed lo hi → lo' ≤ lo →
    hi ≤ hi' → d.Placed lo' hi'
  | _, _, _, _, _, .bare hd hle, hlo, hhi => .bare hd (by omega)
  | _, _, _, _, _, .list h, hlo, hhi => .list (h.widen hlo hhi)
  | _, _, _, _, _, .node label hcount hstart hcovers hstop h, hlo, hhi =>
    .node label hcount (by omega) hcovers (by omega) h

theorem InOrder.widen : {lo lo' hi hi' : Int} → {ds : List Datum} → InOrder lo hi ds → lo' ≤ lo →
    hi ≤ hi' → InOrder lo' hi' ds
  | _, _, _, _, _, .nil hle, hlo, hhi => .nil (by omega)
  | _, _, _, _, _, .cons head tail, hlo, hhi =>
    .cons (head.widen hlo (Int.le_refl _)) (tail.widen (Int.le_refl _) hhi)

end

mutual

theorem Placed.le : {lo hi : Int} → {d : Datum} → d.Placed lo hi → lo ≤ hi
  | _, _, _, .bare _ hle => hle
  | _, _, _, .list h => h.le
  | _, _, _, .node _ _ hstart hcovers hstop _ => by omega

theorem InOrder.le : {lo hi : Int} → {ds : List Datum} → InOrder lo hi ds → lo ≤ hi
  | _, _, _, .nil hle => hle
  | _, _, _, .cons head tail => Int.le_trans head.le tail.le

end

variable {lo mid hi : Int} {d : Datum} {ds es : List Datum}

theorem InOrder.singleton (h : d.Placed lo hi) : InOrder lo hi [d] :=
  .cons h (.nil (Int.le_refl hi))

/-- What has no place can stand anywhere. -/
theorem InOrder.bare (hd : d.Bare) (h : InOrder lo hi ds) : InOrder lo hi (d :: ds) :=
  .cons (.bare hd (Int.le_refl lo)) h

/-- What comes after something that is not asked for. -/
theorem InOrder.after (hle : lo ≤ mid) (h : InOrder mid hi ds) : InOrder lo hi ds :=
  h.widen hle (Int.le_refl hi)

/-- A node takes up exactly its span. -/
theorem Placed.spanned (label : Label) {span : Span} (hspan : span.start < span.stop)
    (hcount : ds.length = label.fields.length) (h : InOrder span.start span.stop ds) :
    (Datum.node label ds (.span (.int span.start) (.int span.stop))).Placed
      span.start span.stop :=
  .node label hcount (Int.le_refl _) hspan (Int.le_refl _) h

/-- A node stays in its place under another label, with something else in the place of its first
field. -/
theorem Placed.relabel {label label' : Label} {place d' : Datum}
    (h : (Datum.node label (d :: ds) place).Placed lo hi)
    (hcount : label.fields.length = label'.fields.length)
    (hd : ∀ {lo hi : Int}, d.Placed lo hi → d'.Placed lo hi) :
    (Datum.node label' (d' :: ds) place).Placed lo hi := by
  cases h with
  | bare hbare hle => cases hbare
  | node label hlength hstart hcovers hstop h =>
    cases h with
    | cons head tail =>
      exact .node label' (hlength.trans hcount) hstart hcovers hstop (.cons (hd head) tail)

theorem InOrder.append (hds : InOrder lo mid ds) (hes : InOrder mid hi es) :
    InOrder lo hi (ds ++ es) := by
  induction ds generalizing lo with
  | nil =>
    cases hds with
    | nil hle => exact hes.after hle
  | cons d ds ih =>
    cases hds with
    | cons head tail => exact .cons head (ih tail)

end Datum

/-! ## Tokens in order -/

/-- A token that stands between two offsets. -/
structure Token.Within (lo hi : Int) (t : Token) : Prop where
  start : lo ≤ t.start
  covers : t.start < t.stop
  stop : t.stop ≤ hi

theorem Token.Within.le {lo hi : Int} {t : Token} (h : t.Within lo hi) : lo ≤ hi := by
  have hstart := h.start
  have hcovers := h.covers
  have hstop := h.stop
  omega

/-- Tokens that stand between two offsets, one after the other. -/
inductive Token.InOrder : Int → Int → List Token → Prop where
  | nil {lo hi : Int} (hle : lo ≤ hi) : InOrder lo hi []
  | cons {lo mid hi : Int} {t : Token} {ts : List Token} (head : t.Within lo mid)
      (tail : InOrder mid hi ts) : InOrder lo hi (t :: ts)

namespace Token.InOrder

variable {lo hi : Int} {t : Token} {ts us : List Token}

theorem startEarlier {lo' : Int} (h : InOrder lo hi ts) (hlo : lo' ≤ lo) : InOrder lo' hi ts := by
  cases h with
  | nil hle => exact .nil (by omega)
  | cons head tail =>
    exact .cons ⟨Int.le_trans hlo head.start, head.covers, head.stop⟩ tail

theorem split (h : InOrder lo hi (ts ++ us)) : ∃ mid, InOrder lo mid ts ∧ InOrder mid hi us := by
  induction ts generalizing lo with
  | nil => exact ⟨lo, .nil (Int.le_refl lo), h⟩
  | cons t ts ih =>
    cases h with
    | cons head tail =>
      obtain ⟨mid, hts, hus⟩ := ih tail
      exact ⟨mid, .cons head hts, hus⟩

/-- Tokens in order start with the first of them. -/
theorem fromFirst (h : InOrder lo hi ts) (ht : ts.head? = some t) :
    lo ≤ t.start ∧ InOrder t.start hi ts := by
  cases h with
  | nil hle => cases ht
  | cons head tail =>
    cases ht
    exact ⟨head.start, .cons ⟨Int.le_refl _, head.covers, head.stop⟩ tail⟩

/-- Tokens in order stop with the last of them. -/
theorem toLast (h : InOrder lo hi ts) (ht : ts.getLast? = some t) :
    lo < t.stop ∧ t.stop ≤ hi ∧ InOrder lo t.stop ts := by
  induction h with
  | nil hle => cases ht
  | cons head tail ih =>
    have hhead := head
    obtain ⟨hstart, hcovers, hstop⟩ := hhead
    cases tail with
    | nil hle =>
      rw [List.getLast?_singleton, Option.some.injEq] at ht
      subst ht
      exact ⟨by omega, by omega, .cons ⟨hstart, hcovers, Int.le_refl _⟩ (.nil (Int.le_refl _))⟩
    | cons head' tail' =>
      rw [List.getLast?_cons_cons] at ht
      obtain ⟨hlt, hlast, hinit⟩ := ih ht
      exact ⟨by omega, hlast, .cons head hinit⟩

end Token.InOrder

theorem length_drop_from {n offset : Nat} {cs : List Char} (h : n ≤ cs.length) :
    ((offset + n : Nat) : Int) + ((cs.drop n).length : Int) = offset + cs.length := by
  rw [List.length_drop]
  omega

theorem within_of_scan {allowed : List Terminal} {cs : List Char} {t : Terminal} {n : Nat}
    (h : Lexeme.scan allowed cs = some (.token t n)) (offset : Nat) :
    Token.Within offset (offset + n) ⟨t, String.ofList (cs.take n), offset⟩ := by
  have hle := Lexeme.scan_length_le h
  have hpos := Lexeme.scan_length_ne_zero h
  simp only [Lexeme.length] at hle hpos
  have hstop : (Token.mk t (String.ofList (cs.take n)) offset).stop = offset + n := by
    simp only [Token.stop, String.length_ofList, List.length_take]
    omega
  refine ⟨Int.le_refl _, ?_, ?_⟩
  · rw [hstop]
    show offset < offset + n
    omega
  · rw [hstop]
    omega

/-- The tokens that are delivered from a text follow each other in it. -/
theorem deliveredFrom_inOrder (offset : Nat) (cs : List Char) {q : ItemSet} (stack : Stack q) :
    Token.InOrder offset (offset + cs.length) (deliveredFrom offset cs stack) := by
  fun_induction deliveredFrom offset cs stack with
  | case1 offset q stack => exact .nil (by omega)
  | case2 offset cs q stack hcs hscan => exact .nil (by omega)
  | case3 offset cs q stack hcs n hscan ih =>
    have hle : n ≤ cs.length := Lexeme.scan_length_le hscan
    rw [length_drop_from hle] at ih
    exact ih.startEarlier (by omega)
  | case4 offset cs q stack hcs t n hscan text r below hreads hsettle ih =>
    have hle : n ≤ cs.length := Lexeme.scan_length_le hscan
    rw [length_drop_from hle] at ih
    exact .cons (within_of_scan hscan offset) (ih.startEarlier (by omega))
  | case5 offset cs q stack hcs n text accepted hscan hsettle
  | case6 offset cs q stack hcs t n hscan text r hsettle =>
    have hle : n ≤ cs.length := Lexeme.scan_length_le hscan
    exact .cons (within_of_scan hscan offset) (.nil (by omega))

/-! ## Trees without tokens -/

/-- Only a program can be derived as nothing, and no production has one on its right side. -/
theorem Production.rhs_ne {p : Production} (hp : p ≠ .programEmpty) :
    p.rhs ≠ [] ∧ p.rhs.head? ≠ some (.branch .program) := by
  cases p <;> first | exact absurd rfl hp | decide

mutual

theorem Tree.tokens_ne_nil {s : Symbol} : (tree : Tree s) → s ≠ .branch .program →
    tree.tokens ≠ []
  | .leaf .., _ => List.cons_ne_nil _ _
  | .node p children, hs => by
    have hp : p ≠ .programEmpty := by
      rintro rfl
      exact hs rfl
    exact children.tokens_ne_nil (Production.rhs_ne hp).1 (Production.rhs_ne hp).2

theorem Forest.tokens_ne_nil {ss : List Symbol} : (forest : Forest ss) → ss ≠ [] →
    ss.head? ≠ some (.branch .program) → forest.tokens ≠ []
  | .nil, hss, _ => absurd rfl hss
  | .cons head tail, _, hhead => by
    have hne := head.tokens_ne_nil fun hs => hhead (congrArg some hs)
    exact List.append_ne_nil_of_left_ne_nil hne _

end

/-! ## What a derivation tree stands for -/

/-- What a derivation of a nonterminal stands for stands between two offsets. A program without
a token has no place. -/
def Nonterminal.Placed (lo hi : Int) : (n : Nonterminal) → n.Meaning → Prop
  | .params | .moreParams => fun ps : List Param => Datum.InOrder lo hi (ps.map Param.toDatum)
  | .param => fun p : Param => p.toDatum.Placed lo hi
  | .datatype | .datatypes | .moreDatatypes => fun _ => lo ≤ hi
  | .lines | .moreParts | .moreExpressions | .arguments =>
    fun es : List Node => Datum.InOrder lo hi (es.map Node.toDatum)
  | .program => fun n : Node =>
    n.toDatum.Placed lo hi ∨ n = .array (.proper []) (.proper Span.none)
  | .expression | .instruction | .logic | .equality | .comparison | .sum | .product
  | .power | .unary | .suffixed | .primary => fun n : Node => n.toDatum.Placed lo hi

/-- The same of a symbol. -/
def Symbol.Placed (lo hi : Int) : (s : Symbol) → s.Meaning → Prop
  | .leaf _ => Token.Within lo hi
  | .branch n => n.Placed lo hi

/-- What derivations of several symbols stand for, one after the other. -/
inductive Meanings.Placed : Int → Int → {ss : List Symbol} → Meanings ss → Prop where
  | nil {lo hi : Int} (hle : lo ≤ hi) : Placed lo hi .nil
  | cons {lo mid hi : Int} {s : Symbol} {ss : List Symbol} {head : s.Meaning}
      {tail : Meanings ss} (hhead : s.Placed lo mid head) (htail : tail.Placed mid hi) :
      Placed lo hi (.cons head tail)

theorem Symbol.Placed.widen {lo lo' hi hi' : Int} {s : Symbol} {m : s.Meaning}
    (h : s.Placed lo hi m) (hlo : lo' ≤ lo) (hhi : hi ≤ hi') : s.Placed lo' hi' m := by
  cases s with
  | leaf t => exact ⟨Int.le_trans hlo h.start, h.covers, Int.le_trans h.stop hhi⟩
  | branch n =>
    cases n with
    | params | moreParams | lines | moreParts | moreExpressions | arguments =>
      exact Datum.InOrder.widen h hlo hhi
    | datatype | datatypes | moreDatatypes => exact Int.le_trans hlo (Int.le_trans h hhi)
    | program => exact h.imp_left fun h => h.widen hlo hhi
    | param | expression | instruction | logic | equality | comparison | sum | product
    | power | unary | suffixed | primary => exact Datum.Placed.widen h hlo hhi

theorem Node.toDatumAll_eq_map (es : List Node) : toDatumAll es = es.map toDatum := by
  induction es with
  | nil => rfl
  | cons e es ih => rw [toDatumAll, ih, List.map_cons]

section Parts

variable {lo mid hi : Int} {es : List Node} {e : Node}

theorem slotToDatum_placed (h : Datum.InOrder lo hi (es.map Node.toDatum)) :
    (Node.slotToDatum (.proper es)).Placed lo hi := by
  rw [Node.slotToDatum, Node.toDatumAll_eq_map]
  exact .list h

theorem inOrder_concat {α : Type} {store : α → Datum} {xs : List α} {x : α}
    (hxs : Datum.InOrder lo mid (xs.map store)) (hx : (store x).Placed mid hi) :
    Datum.InOrder lo hi ((xs ++ [x]).map store) := by
  rw [List.map_append]
  exact hxs.append (.singleton hx)

theorem ofExpressions_placed {span : Span} (hspan : span.start < span.stop)
    (h : Datum.InOrder span.start span.stop (es.map Node.toDatum)) :
    (Node.ofExpressions es span).toDatum.Placed span.start span.stop := by
  unfold Node.ofExpressions
  split
  · cases h with
    | cons head tail =>
      cases tail with
      | nil hle => exact head.widen (Int.le_refl _) hle
  · exact .spanned .array hspan rfl (.singleton (slotToDatum_placed h))

theorem toTarget_placed (h : e.toDatum.Placed lo hi) :
    Yields e.toTarget fun t => t.toDatum.Placed lo hi := by
  fun_induction Node.toTarget e generalizing lo hi with
  | case1 x o => exact .ok (h.relabel rfl id)
  | case2 target i o t ht ih => exact .ok (h.relabel rfl fun htarget => ih htarget t ht)
  | case3 target i o e he ih =>
    intro m hm
    cases hm
  | case4 e hname hindex =>
    intro m hm
    cases hm

/-- An assignment, if its left side is a target. -/
theorem assign_placed {target value : Node} {span : Span} (hspan : span.start < span.stop)
    (ht : target.toDatum.Placed span.start mid)
    (hv : Datum.InOrder mid span.stop [value.toDatum]) :
    Yields
      (match target.toTarget with
      | .ok t => .ok (.assign t value span)
      | .error e => .error e : Except SyntaxError Node)
      fun n => n.toDatum.Placed span.start span.stop := by
  intro n hn
  split at hn
  · next t htarget =>
    cases hn
    exact .spanned .assign hspan rfl (.cons (toTarget_placed ht t htarget) hv)
  · cases hn

theorem distinctParams_placed (ps : List Param)
    (h : Datum.InOrder lo hi (ps.map Param.toDatum)) :
    Yields (distinctParams ps) fun ps => Datum.InOrder lo hi (ps.map Param.toDatum) := by
  intro qs hqs
  unfold distinctParams at hqs
  split at hqs
  · cases hqs
    exact h
  · cases hqs

end Parts

/-- What a production makes of parts in order is placed in their span. -/
theorem Production.build_placed {span : Span} (hspan : span.start < span.stop) (p : Production)
    (ms : Meanings p.rhs) (h : ms.Placed span.start span.stop) :
    Yields (p.build span ms) (p.lhs.Placed span.start span.stop) := by
  -- Each case names where its parts end. Keywords, brackets and datatypes between two parts only
  -- make the next one start later.
  cases p with
  | programLast =>
    match ms, h with
    | .cons _ .nil, .cons he (.nil hle) => exact .ok (.inl (he.widen (Int.le_refl _) hle))
  | expressionInstruction | expressionLogic | logicEquality | equalityComparison
  | comparisonSum | sumProduct | productPower | powerUnary | unarySuffixed | suffixedPrimary =>
    match ms, h with
    | .cons _ .nil, .cons he (.nil hle) => exact .ok (he.widen (Int.le_refl _) hle)
  | logicAnd | logicAmpersand | logicOr | logicBar | equalityEqual | equalityNotEqual
  | comparisonLess | comparisonMore | comparisonAtMost | comparisonAtLeast | sumPlus | sumMinus
  | productStar | productSlash | productPercent | powerCaret =>
    match ms, h with
    | .cons _ (.cons _ (.cons _ .nil)), .cons hl (.cons ht (.cons hr (.nil hle))) =>
      exact .ok (.spanned .binary hspan rfl
        (.bare (.text _) (.cons hl (.after ht.le (.cons hr (.nil hle))))))
  | unaryPlus | unaryMinus =>
    match ms, h with
    | .cons _ (.cons _ .nil), .cons ht (.cons he (.nil hle)) =>
      exact .ok (.spanned .unary hspan rfl
        (.bare (.text _) (.after ht.le (.cons he (.nil hle)))))
  | unaryLen | unaryToString | unaryToNumber | unaryToBoolean | unaryIsNumber | unaryIsBoolean
  | unaryInputPrompt =>
    match ms, h with
    | .cons _ (.cons _ .nil), .cons ht (.cons he (.nil hle)) =>
      exact .ok (.spanned _ hspan rfl (.after ht.le (.cons he (.nil hle))))
  | unaryInput =>
    match ms, h with
    | .cons _ .nil, .cons ht (.nil hle) =>
      exact .ok (.spanned .input hspan rfl (.bare .null (.after ht.le (.nil hle))))
  | programLinesLast =>
    match ms, h with
    | .cons _ (.cons _ .nil), .cons hes (.cons he (.nil hle)) =>
      exact .ok (.inl (ofExpressions_placed hspan
        (inOrder_concat hes (he.widen (Int.le_refl _) hle))))
  | programLines =>
    match ms, h with
    | .cons _ .nil, .cons hes (.nil hle) =>
      exact .ok (.inl (ofExpressions_placed hspan (hes.widen (Int.le_refl _) hle)))
  | programEmpty =>
    match ms, h with
    | .nil, .nil hle => exact .ok (.inr rfl)
  | printMany =>
    match ms, h with
    | .cons _ (.cons _ (.cons _ .nil)), .cons ht (.cons he (.cons hes (.nil hle))) =>
      exact .ok (.spanned .print hspan rfl (.after ht.le (.singleton
        (slotToDatum_placed (.cons he (hes.widen (Int.le_refl _) hle))))))
  | printOne =>
    match ms, h with
    | .cons _ (.cons _ .nil), .cons ht (.cons he (.nil hle)) =>
      exact .ok (.spanned .print hspan rfl (.after ht.le (.singleton
        (slotToDatum_placed (.cons he (.nil hle))))))
  | eval =>
    match ms, h with
    | .cons _ (.cons _ .nil), .cons ht (.cons he (.nil hle)) =>
      exact .ok (.spanned .eval hspan rfl (.after ht.le (.cons he (.nil hle))))
  | exec =>
    match ms, h with
    | .cons _ (.cons _ .nil), .cons ht (.cons he (.nil hle)) =>
      exact .ok (.spanned .exec hspan rfl (.after ht.le (.cons he (.nil hle))))
  | ifElse =>
    match ms, h with
    | .cons _ (.cons _ (.cons _ (.cons _ (.cons _ (.cons _ .nil))))),
        .cons hif (.cons hc (.cons hthen (.cons ht (.cons helse (.cons he (.nil hle)))))) =>
      exact .ok (.spanned .branch hspan rfl (.after hif.le (.cons hc (.after hthen.le
        (.cons ht (.after helse.le (.cons he (.nil hle))))))))
  | ifThen =>
    match ms, h with
    | .cons _ (.cons _ (.cons _ (.cons _ .nil))),
        .cons hif (.cons hc (.cons hthen (.cons ht (.nil hle)))) =>
      exact .ok (.spanned .branch hspan rfl (.after hif.le (.cons hc (.after hthen.le
        (.cons ht (.bare .null (.nil hle)))))))
  | whileDo =>
    match ms, h with
    | .cons _ (.cons _ (.cons _ (.cons _ .nil))),
        .cons hwhile (.cons hc (.cons hdo (.cons hb (.nil hle)))) =>
      exact .ok (.spanned .loop hspan rfl (.after hwhile.le (.cons hc (.after hdo.le
        (.cons hb (.nil hle))))))
  | assign =>
    match ms, h with
    | .cons target (.cons _ (.cons value .nil)), .cons ht (.cons harrow (.cons hv (.nil hle))) =>
      exact assign_placed hspan ht (.after harrow.le (.cons hv (.nil hle)))
  | suffixedIndex =>
    match ms, h with
    | .cons _ (.cons _ (.cons _ (.cons _ .nil))),
        .cons he (.cons hopen (.cons hi (.cons hclose (.nil hle)))) =>
      exact .ok (.spanned .index hspan rfl (.cons he (.after hopen.le (.cons hi
        (.after hclose.le (.nil hle))))))
  | suffixedCall =>
    match ms, h with
    | .cons _ (.cons _ (.cons _ (.cons _ .nil))),
        .cons hf (.cons hopen (.cons has (.cons hclose (.nil hle)))) =>
      exact .ok (.spanned .call hspan rfl (.cons hf (.after hopen.le
        (.cons (slotToDatum_placed has) (.after hclose.le (.nil hle))))))
  | suffixedCallEmpty =>
    match ms, h with
    | .cons _ (.cons _ (.cons _ .nil)), .cons hf (.cons hopen (.cons hclose (.nil hle))) =>
      exact .ok (.spanned .call hspan rfl (.cons hf (.after hopen.le
        (.cons (slotToDatum_placed (.nil hclose.le)) (.nil hle)))))
  | primaryString =>
    match ms, h with
    | .cons _ .nil, .cons ht (.nil hle) =>
      exact .ok (.spanned .literal hspan rfl
        (.bare (.text _) (.bare (.text _) (.after ht.le (.nil hle)))))
  | primaryNumber =>
    match ms, h with
    | .cons _ .nil, .cons ht (.nil hle) =>
      exact .ok (.spanned .literal hspan rfl
        (.bare (.number _) (.bare (.text _) (.after ht.le (.nil hle)))))
  | primaryTrue | primaryFalse =>
    match ms, h with
    | .cons _ .nil, .cons ht (.nil hle) =>
      exact .ok (.spanned .literal hspan rfl
        (.bare (.bool _) (.bare (.text _) (.after ht.le (.nil hle)))))
  | primaryName =>
    match ms, h with
    | .cons _ .nil, .cons ht (.nil hle) =>
      exact .ok (.spanned .name hspan rfl (.bare (.text _) (.after ht.le (.nil hle))))
  | primaryGroup =>
    match ms, h with
    | .cons _ (.cons _ (.cons _ .nil)), .cons hopen (.cons he (.cons hclose (.nil hle))) =>
      exact .ok (.spanned .group hspan rfl (.after hopen.le (.cons he
        (.after hclose.le (.nil hle)))))
  | primaryArrayMany =>
    match ms, h with
    | .cons _ (.cons _ (.cons _ (.cons _ .nil))),
        .cons hopen (.cons he (.cons hes (.cons hclose (.nil hle)))) =>
      exact .ok (.spanned .array hspan rfl (.after hopen.le
        (.cons (slotToDatum_placed (.cons he hes)) (.after hclose.le (.nil hle)))))
  | primaryArrayOne =>
    match ms, h with
    | .cons _ (.cons _ (.cons _ .nil)), .cons hopen (.cons he (.cons hclose (.nil hle))) =>
      exact .ok (.spanned .array hspan rfl (.after hopen.le
        (.cons (slotToDatum_placed (.singleton he)) (.after hclose.le (.nil hle)))))
  | primaryArrayEmpty =>
    match ms, h with
    | .cons _ (.cons _ .nil), .cons hopen (.cons hclose (.nil hle)) =>
      exact .ok (.spanned .array hspan rfl (.after hopen.le
        (.cons (slotToDatum_placed (.nil hclose.le)) (.nil hle))))
  | primaryFunction | primaryClosure =>
    match ms, h with
    | .cons _ (.cons _ (.cons _ (.cons _ (.cons _ (.cons _ .nil))))),
        .cons hopen (.cons hps (.cons hclose (.cons harrow (.cons hr (.cons hb (.nil hle)))))) =>
      exact .ok (.spanned _ hspan rfl (.after hopen.le (.cons (.list hps)
        (.bare (.datatype _) (.after hclose.le (.after harrow.le (.after hr
          (.cons hb (.nil hle)))))))))
  | primaryFunctionEmpty | primaryClosureEmpty =>
    match ms, h with
    | .cons _ (.cons _ (.cons _ (.cons _ (.cons _ .nil)))),
        .cons hopen (.cons hclose (.cons harrow (.cons hr (.cons hb (.nil hle))))) =>
      exact .ok (.spanned _ hspan rfl (.after hopen.le (.cons (.list (.nil hclose.le))
        (.bare (.datatype _) (.after harrow.le (.after hr (.cons hb (.nil hle))))))))
  | paramsMany =>
    match ms, h with
    | .cons _ (.cons _ .nil), .cons hp (.cons hps (.nil hle)) =>
      exact distinctParams_placed (_ :: _) (.cons hp (hps.widen (Int.le_refl _) hle))
  | paramsOne =>
    match ms, h with
    | .cons _ .nil, .cons hp (.nil hle) => exact distinctParams_placed [_] (.cons hp (.nil hle))
  | paramTyped =>
    -- A parameter has the span of its name alone.
    match ms, h with
    | .cons token (.cons _ (.cons _ .nil)), .cons ht (.cons hcolon (.cons hd (.nil hle))) =>
      have hstop := Int.le_trans ht.stop (Int.le_trans hcolon.le (Int.le_trans hd hle))
      have hcovers : token.span.start < token.span.stop := Int.ofNat_lt.2 ht.covers
      exact .ok (.node .param rfl ht.start hcovers hstop
        (.bare (.text _) (.bare (.datatype _) (.nil (Int.le_of_lt hcovers)))))
  | datatypeName | datatypeArray | datatypeFunction | datatypeFunctionEmpty | datatypeClosure
  | datatypeClosureEmpty | datatypesMany | datatypesOne | moreDatatypesOne
  | moreDatatypesMore => exact fun _ _ => Int.le_of_lt hspan
  | argumentsMany =>
    match ms, h with
    | .cons _ (.cons _ .nil), .cons he (.cons hes (.nil hle)) =>
      exact .ok (.cons he (hes.widen (Int.le_refl _) hle))
  | argumentsOne =>
    match ms, h with
    | .cons _ .nil, .cons he (.nil hle) => exact .ok (.cons he (.nil hle))
  | linesExpression =>
    match ms, h with
    | .cons _ (.cons _ .nil), .cons he (.cons ht (.nil hle)) =>
      exact .ok (.cons he (.after ht.le (.nil hle)))
  | linesBlank =>
    match ms, h with
    | .cons _ .nil, .cons ht (.nil hle) => exact .ok (.after ht.le (.nil hle))
  | linesMoreExpression =>
    match ms, h with
    | .cons _ (.cons _ (.cons _ .nil)), .cons hes (.cons he (.cons ht (.nil hle))) =>
      exact .ok (inOrder_concat hes (he.widen (Int.le_refl _) (Int.le_trans ht.le hle)))
  | linesMoreBlank =>
    match ms, h with
    | .cons _ (.cons _ .nil), .cons hes (.cons ht (.nil hle)) =>
      exact .ok (hes.widen (Int.le_refl _) (Int.le_trans ht.le hle))
  | partsOne | expressionsOne | moreParamsOne =>
    match ms, h with
    | .cons _ (.cons _ .nil), .cons ht (.cons hx (.nil hle)) =>
      exact .ok (.after ht.le (.cons hx (.nil hle)))
  | partsMore | expressionsMore | moreParamsMore =>
    match ms, h with
    | .cons _ (.cons _ (.cons _ .nil)), .cons hxs (.cons ht (.cons hx (.nil hle))) =>
      exact .ok (inOrder_concat hxs (hx.widen ht.le hle))

/-! ## Programs -/

/-- The span of a forest is that of its tokens. -/
theorem Forest.span_inOrder {ss : List Symbol} {lo hi : Int} (forest : Forest ss)
    (h : Token.InOrder lo hi forest.tokens) (hne : forest.tokens ≠ []) :
    lo ≤ forest.span.start ∧ forest.span.start < forest.span.stop ∧ forest.span.stop ≤ hi ∧
      Token.InOrder forest.span.start forest.span.stop forest.tokens := by
  obtain ⟨a, ha⟩ := Option.ne_none_iff_exists'.1 (mt List.head?_eq_none_iff.1 hne)
  obtain ⟨b, hb⟩ := Option.ne_none_iff_exists'.1 (mt List.getLast?_eq_none_iff.1 hne)
  have hspan : forest.span = ⟨a.start, b.stop⟩ := by
    rw [Forest.span, forest.first?_eq_head?, forest.last?_eq_getLast?, ha, hb]
  -- The ends are cut down to the tokens one after the other.
  obtain ⟨hstart, hfirst⟩ := h.fromFirst ha
  obtain ⟨hlt, hstop, hlast⟩ := hfirst.toLast hb
  rw [hspan]
  exact ⟨hstart, hlt, hstop, hlast⟩

mutual

/-- What a derivation tree stands for is placed among its tokens. -/
theorem Tree.meaning_placed {s : Symbol} {lo hi : Int} : (tree : Tree s) →
    Token.InOrder lo hi tree.tokens → Yields tree.meaning (s.Placed lo hi)
  | .leaf t text start, h => by
    cases h with
    | cons head tail =>
      cases tail with
      | nil hle => exact .ok ⟨head.start, head.covers, Int.le_trans head.stop hle⟩
  | .node p children, h => by
    intro m hm
    unfold Tree.meaning at hm
    split at hm
    · next ms hms =>
      -- Nothing but the empty program is built of no token, and then there is no span.
      by_cases hp : p = .programEmpty
      · subst hp
        match ms, hm with
        | .nil, rfl => exact .inr rfl
      · have hne := children.tokens_ne_nil (Production.rhs_ne hp).1 (Production.rhs_ne hp).2
        obtain ⟨hstart, hcovers, hstop, hinner⟩ := children.span_inOrder h hne
        have hms := children.meanings_placed hinner ms hms
        exact Symbol.Placed.widen (s := .branch p.lhs) (p.build_placed hcovers ms hms m hm)
          hstart hstop
    · cases hm

theorem Forest.meanings_placed {ss : List Symbol} {lo hi : Int} : (forest : Forest ss) →
    Token.InOrder lo hi forest.tokens → Yields forest.meanings (Meanings.Placed lo hi)
  | .nil, h => by
    cases h with
    | nil hle => exact .ok (.nil hle)
  | .cons head tail, h => by
    obtain ⟨mid, hhead, htail⟩ := h.split
    intro ms hms
    unfold Forest.meanings at hms
    split at hms
    · next m hm =>
      split at hms
      · next ms' hms' =>
        cases hms
        exact .cons (head.meaning_placed hhead m hm) (tail.meanings_placed htail ms' hms')
      · cases hms
    · cases hms

end

/-- The program of a source is placed in the source, if it has a token. -/
theorem parse_placed {source : List Char} {program : Node} (h : parse source = .ok program) :
    program.toDatum.Placed 0 source.length ∨
      program = .array (.proper []) (.proper Span.none) := by
  obtain ⟨tree, htree, hmeaning⟩ := exists_tree_of_parse h
  have htokens : tree.tokens = deliveredFrom 0 (Layout.separate source) .bottom :=
    (parseFrom_sound htree fun next => trivial).1
  have horder := deliveredFrom_inOrder 0 (Layout.separate source) Stack.bottom
  rw [← htokens, Layout.length_separate, Int.natCast_zero, Int.zero_add] at horder
  exact tree.meaning_placed horder program hmeaning

end Mandate
