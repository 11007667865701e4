/-
  Mandate.Proofs.Operators

  Operators and built-in words under a watch: on sound operands each comes to a
  sound value or to an error for the program's author. Only a text that spells a
  number beyond the range makes an exception.

    * `Guard.Follows` is what is asked of the engine that runs the parts.
    * `Follows.binary`, `Follows.unary` and `Follows.builtin` are the rules.
-/

import Mandate.Proofs.Steps

namespace Mandate

/-! ## Payloads of operators -/

theorem Datatype.WellFormed.kind_eq_ok {t : Datatype} (h : t.WellFormed) :
    ∃ k as r, t = .mk k as r := by
  cases t with
  | mk k as r => exact ⟨k, as, r, rfl⟩
  | foreign f => cases h

/-- Sums are of two numbers or of two texts. -/
theorem Datatype.WellFormed.of_isSummable {k : Kind} {as : List Datatype} {r : Option Datatype}
    (h : (mk k as r).WellFormed) (hk : k.isSummable = true) :
    mk k as r = number ∨ mk k as r = string := by
  cases k with
  | number =>
    obtain ⟨rfl, rfl⟩ := h.bare (by decide)
    exact .inl rfl
  | string =>
    obtain ⟨rfl, rfl⟩ := h.bare (by decide)
    exact .inr rfl
  | _ => cases hk

namespace Payload

variable {elements : Bool}

theorem quantity_eq_ok {p : Payload} (hp : p.IsNumber) : ∃ x, p.quantity = .ok (.real x) := by
  obtain ⟨x, hx⟩ := hp.quantity
  exact ⟨x, by rw [quantity, hx]⟩

theorem add_eq_ok (id : Nat) {t : Datatype} (ht : t = Datatype.number ∨ t = Datatype.string)
    {p q : Payload} (hp : t.holds p = true) (hq : t.holds q = true) :
    ∃ r, p.add id q = .ok r ∧ r.Regular elements ∧ t.holds r = true := by
  rcases ht with rfl | rfl
  · have hsum : ∃ z, p.add id q = .ok (real (.made id) z) := by
      cases Datatype.number_of_holds hp <;> cases Datatype.number_of_holds hq <;> exact ⟨_, rfl⟩
    obtain ⟨z, hz⟩ := hsum
    have hnumber := IsNumber.real (.made id) z
    exact ⟨_, hz, hnumber.regular _, hnumber.holds⟩
  · obtain ⟨s, rfl⟩ := Datatype.text_of_holds hp
    obtain ⟨t, rfl⟩ := Datatype.text_of_holds hq
    exact ⟨_, rfl, .text (s ++ t), rfl⟩

theorem arithmetic_eq_ok {op : BinaryOp} (hop : op.isArithmetic = true) (id : Nat) {p q : Payload}
    (hp : p.IsNumber) (hq : q.IsNumber) :
    ∃ object z, arithmetic id op p q = .ok (real object z) := by
  obtain ⟨x, hx⟩ := quantity_eq_ok hp
  obtain ⟨y, hy⟩ := quantity_eq_ok hq
  cases op with
  | multiply =>
    obtain ⟨x, hx⟩ := hp.quantity
    obtain ⟨y, hy⟩ := hq.quantity
    refine ⟨.made id, x * y, ?_⟩
    show p.multiply id q = _
    rw [multiply, hx, hy]
    rfl
  | subtract | modulo =>
    unfold arithmetic
    rw [hx, hy]
    exact ⟨_, _, rfl⟩
  | power =>
    have hpower : arithmetic id BinaryOp.power p q = p.power id q := rfl
    rw [hpower, power, hx, hy]
    exact ⟨_, _, rfl⟩
  | divide =>
    have hdiv : ∃ z, (Number.Quantity.real x).div (.real y) = .ok z := by
      unfold Number.Quantity.div
      split
      · split <;> exact ⟨_, rfl⟩
      · exact ⟨_, rfl⟩
    obtain ⟨z, hz⟩ := hdiv
    refine ⟨quotientObject id (.real y), z, ?_⟩
    simp only [arithmetic, hx, hy, ok_bind, hz]
    rfl
  | _ => cases hop

theorem compares_eq_ok {op : BinaryOp} (hop : op.isComparison = true) {p q : Payload}
    (hp : p.IsNumber) (hq : q.IsNumber) : ∃ b, compares op p q = .ok b := by
  have horder : ∃ c, p.order q = .ok c := by
    cases hp <;> cases hq <;> exact ⟨_, rfl⟩
  obtain ⟨c, hc⟩ := horder
  cases op with
  | less | more | atMost | atLeast =>
    unfold compares
    rw [hc]
    exact ⟨_, rfl⟩
  | _ => cases hop

/-- What is callable: a function literal or a closure. -/
inductive Callable (elements : Bool) : Payload → Prop where
  | function {ps : List Param} {r : Datatype} {b : Node} (o : Span)
      (hps : Param.RegularList ps) (hr : r.WellFormed) (hb : b.Regular elements) :
      Callable elements (.node (.lambda .function (.proper ps) (.proper r) b (.proper o)))
  | closure {c : Closure} (h : c.Regular elements) : Callable elements (.closure c)

end Payload

/-- A number is a sound value. -/
theorem Value.number_sound (elements : Bool) {p : Payload} (hp : p.IsNumber) {o : Origin}
    (ho : o.Known) : Value.Sound elements ⟨p, Datatype.number, o⟩ :=
  ⟨⟨hp.regular elements, rfl, ho⟩, hp.holds⟩

/-- A truth value is a sound value. -/
theorem Value.bool_sound (elements : Bool) (b : Bool) {o : Origin} (ho : o.Known) :
    Value.Sound elements ⟨.bool b, Datatype.boolean, o⟩ :=
  ⟨⟨.bool b, rfl, ho⟩, rfl⟩

/-- A text is a sound value. -/
theorem Value.text_sound (elements : Bool) (s : Text) {o : Origin} (ho : o.Known) :
    Value.Sound elements ⟨.text s, Datatype.string, o⟩ :=
  ⟨⟨.text s, rfl, ho⟩, rfl⟩

theorem Node.Regular.originOf {elements : Bool} {n : Node} (h : n.Regular elements) :
    ∃ o : Span, Semantics.originOf n = .ok (.proper o) := by
  obtain ⟨o, ho⟩ := h.origin
  refine ⟨o, ?_⟩
  rw [Semantics.originOf, ho]

namespace Guard

variable {G : Guard} {m : Machine} {self : Option Payload} {F E : Engine}

/-! ## Engines -/

/-- `self` stands for nothing or for what was called. -/
def SelfKnown (G : Guard) (self : Option Payload) : Prop := ∀ p ∈ self, p.Callable G.elements

/-- What evaluating a node leaves behind. -/
def Computed (G : Guard) (v : Value) (m : Machine) : Prop :=
  m.Sound G.elements ∧ v.Sound G.elements

/-- An engine under the watch, beside the engine without. -/
structure Follows (G : Guard) (F E : Engine) : Prop where
  limit : F.limit = E.limit
  evaluate : ∀ {self : Option Payload} {n : Node} {m : Machine} (mode : Mode),
    G.SelfKnown self → n.Regular G.elements → m.Sound G.elements →
      G.Keeps m (F.evaluate self mode n) (E.evaluate self mode n) fun v m' =>
        m'.Sound G.elements ∧ G.Passes v
  perform : ∀ {self : Option Payload} {p : Payload} {o : Origin} {m : Machine},
    G.SelfKnown self → p.Regular G.elements → o.Known → m.Sound G.elements →
      G.Keeps m (F.perform self p o) (E.perform self p o) fun r m' =>
        m'.Sound G.elements ∧ ∀ v ∈ r, v.Sound G.elements

namespace Follows

variable (h : G.Follows F E) (hself : G.SelfKnown self) (hm : m.Sound G.elements)

include h hself hm

theorem compute {n : Node} (hn : n.Regular G.elements) :
    G.Keeps m (F.compute self n) (E.compute self n) fun v m' =>
      m'.Sound G.elements ∧ G.Passes v :=
  h.evaluate .compute hself hn hm

/-- An expression whose value is checked. -/
theorem computeAs {t : Datatype} {n : Node} (ht : t.WellFormed) (hn : n.Regular G.elements) :
    G.Keeps m (F.computeAs self t n) (E.computeAs self t n) fun v m' =>
      m'.Sound G.elements ∧ G.Passes v ∧ t.accepts v.datatype = .ok true := by
  unfold Engine.computeAs
  refine (h.compute hself hm hn).bind fun v m' _ ⟨hm', hv⟩ => ?_
  refine (Keeps.expect ht hv.toSound hm').mono fun w m'' _ ⟨hm'', hw, hacc⟩ => ?_
  subst hm'' hw
  exact ⟨hm', hv, hacc⟩

theorem computeNumber {n : Node} (hn : n.Regular G.elements) :
    G.Keeps m (F.computeAs self Datatype.number n) (E.computeAs self Datatype.number n)
      fun v m' => m'.Sound G.elements ∧ v.Sound G.elements ∧ v.payload.IsNumber := by
  refine (h.computeAs hself hm Datatype.wellFormed_number hn).mono fun v m' _ ⟨hm', hv, hacc⟩ =>
    ⟨hm', hv.toSound, ?_⟩
  exact Datatype.number_of_holds (hv.holds_of_accepts Datatype.wellFormed_number hacc)

theorem computeBoolean {n : Node} (hn : n.Regular G.elements) :
    G.Keeps m (F.computeAs self Datatype.boolean n) (E.computeAs self Datatype.boolean n)
      fun v m' => m'.Sound G.elements ∧ ∃ b, v.payload = .bool b := by
  refine (h.computeAs hself hm Datatype.wellFormed_boolean hn).mono fun v m' _ ⟨hm', hv, hacc⟩ =>
    ⟨hm', ?_⟩
  exact Datatype.bool_of_holds (hv.holds_of_accepts Datatype.wellFormed_boolean hacc)

/-- Expressions from left to right. -/
theorem computeAll {ns : List Node} (hns : ∀ n ∈ ns, n.Regular G.elements) :
    G.Keeps m (F.computeAll self ns) (E.computeAll self ns) fun vs m' =>
      m'.Sound G.elements ∧ ∀ v ∈ vs, v.Sound G.elements := by
  induction ns generalizing m with
  | nil => exact Keeps.pure ⟨hm, by simp⟩
  | cons n ns ih =>
    unfold Engine.computeAll
    refine (h.compute hself hm (hns n (by simp))).bind fun v m₁ _ ⟨hm₁, hv⟩ => ?_
    refine (ih hm₁ fun k hk => hns k (by simp [hk])).bind fun vs m₂ _ ⟨hm₂, hvs⟩ => ?_
    exact Keeps.pure ⟨hm₂, List.forall_mem_cons.2 ⟨hv.toSound, hvs⟩⟩

/-- Running a node. -/
theorem run {n : Node} (hn : n.Regular G.elements) :
    G.Keeps m (F.run self n) (E.run self n) fun r m' =>
      m'.Sound G.elements ∧ ∀ v ∈ r, v.Sound G.elements := by
  have hpayload : Payload.ofNode n = .node n := by cases hn <;> rfl
  unfold Engine.run
  rw [hpayload]
  exact h.perform hself (.node hn) (Origin.known_proper _) hm

end Follows

/-! ## Binary operators -/

namespace Keeps

variable {left right : Value} {o : Origin}

theorem sum (hl : left.Sound G.elements) (hr : right.Sound G.elements) (ho : o.Known)
    (hm : m.Sound G.elements) :
    G.Keeps m (Semantics.sum left right o) (Semantics.sum left right o) G.Computed := by
  obtain ⟨p, t, lo⟩ := left
  obtain ⟨k, as, r, rfl⟩ := hl.datatype.kind_eq_ok
  unfold Semantics.sum
  refine lift_bind rfl ?_
  by_cases hk : k.isSummable = true
  · have ht := hl.datatype.of_isSummable hk
    simp only [Option.any_some, hk, if_true]
    refine (require hl.datatype hr.datatype hr.origin hm).bind fun _ m' _ ⟨hm', hacc⟩ => ?_
    subst hm'
    refine (freshObject hm).bind fun id m'' _ hm'' => ?_
    obtain ⟨q, hq, hregular, hholds⟩ :=
      @Payload.add_eq_ok G.elements id _ ht _ _ hl.fits (hr.holds_of_accepts hl.datatype hacc)
    exact lift_bind hq (pure ⟨hm'', ⟨hregular, hl.datatype, ho⟩, hholds⟩)
  · simp only [Option.any_some, hk]
    refine throw_bind (allows_unexpected ?_ hl.datatype hl.origin) hm
    decide

theorem equality (hl : left.Sound G.elements) (hr : right.Sound G.elements)
    (hm : m.Sound G.elements) :
    G.Keeps m (Semantics.equality left right) (Semantics.equality left right) fun _ m' =>
      m' = m := by
  obtain ⟨p, t, lo⟩ := left
  obtain ⟨k, as, r, rfl⟩ := hl.datatype.kind_eq_ok
  unfold Semantics.equality
  refine lift_bind rfl ?_
  by_cases hk : k.isComparable = true
  · simp only [Option.all_some, hk, if_true]
    refine (require hl.datatype hr.datatype hr.origin hm).bind fun _ m' _ ⟨hm', _⟩ => ?_
    exact pure hm'
  · simp only [Option.all_some, hk]
    exact throw_bind (allows_of rfl hl.origin) hm

theorem requireNumbers (hl : left.Sound G.elements) (hr : right.Sound G.elements)
    (hm : m.Sound G.elements) :
    G.Keeps m (Semantics.requireNumbers left right) (Semantics.requireNumbers left right)
      fun _ m' => m' = m ∧ left.payload.IsNumber ∧ right.payload.IsNumber := by
  unfold Semantics.requireNumbers
  have hnumber := Datatype.wellFormed_number
  refine (require hnumber hl.datatype hl.origin hm).bind fun _ m₁ _ ⟨hm₁, hlacc⟩ => ?_
  subst hm₁
  refine (require hnumber hr.datatype hr.origin hm).mono fun _ m₂ _ ⟨hm₂, hracc⟩ =>
    ⟨hm₂, ?_, ?_⟩
  · exact Datatype.number_of_holds (hl.holds_of_accepts hnumber hlacc)
  · exact Datatype.number_of_holds (hr.holds_of_accepts hnumber hracc)

/-- An operator on two values; `and` and `or` never come this far. -/
theorem operate {op : BinaryOp} (hop : op ≠ .and ∧ op ≠ .or) (hl : left.Sound G.elements)
    (hr : right.Sound G.elements) (ho : o.Known) (hm : m.Sound G.elements) :
    G.Keeps m (Semantics.operate op left right o) (Semantics.operate op left right o)
      G.Computed := by
  have harithmetic : op.isArithmetic = true → G.Keeps m
      (do
        Semantics.requireNumbers left right
        let id ← Run.freshObject
        return ⟨← Payload.arithmetic id op left.payload right.payload, Datatype.number, o⟩)
      (do
        Semantics.requireNumbers left right
        let id ← Run.freshObject
        return ⟨← Payload.arithmetic id op left.payload right.payload, Datatype.number, o⟩)
      G.Computed := by
    intro hop
    refine (requireNumbers hl hr hm).bind fun _ m' _ ⟨hm', hx, hy⟩ => ?_
    subst hm'
    refine (freshObject hm).bind fun id m'' _ hm'' => ?_
    obtain ⟨object, z, hz⟩ := Payload.arithmetic_eq_ok hop id hx hy
    exact lift_bind hz (pure ⟨hm'', Value.number_sound _ (.real object z) ho⟩)
  have hcomparison : op.isComparison = true → G.Keeps m
      (do
        Semantics.requireNumbers left right
        return ⟨.bool (← Payload.compares op left.payload right.payload), Datatype.boolean, o⟩)
      (do
        Semantics.requireNumbers left right
        return ⟨.bool (← Payload.compares op left.payload right.payload), Datatype.boolean, o⟩)
      G.Computed := by
    intro hop
    refine (requireNumbers hl hr hm).bind fun _ m' _ ⟨hm', hx, hy⟩ => ?_
    obtain ⟨b, hb⟩ := Payload.compares_eq_ok hop hx hy
    subst hm'
    exact lift_bind hb (pure ⟨hm, Value.bool_sound _ b ho⟩)
  cases op with
  | add => exact sum hl hr ho hm
  | equal | notEqual =>
    refine (equality hl hr hm).bind fun b m' _ hm' => ?_
    subst hm'
    exact pure ⟨hm, Value.bool_sound _ _ ho⟩
  | subtract | multiply | divide | modulo | power => exact harithmetic rfl
  | less | more | atMost | atLeast => exact hcomparison rfl
  | and => exact absurd rfl hop.1
  | or => exact absurd rfl hop.2

end Keeps

namespace Follows

variable (h : G.Follows F E) (hself : G.SelfKnown self) (hm : m.Sound G.elements)

include h hself hm

theorem connective (decisive : Bool) {left right : Node} {o : Origin}
    (hl : left.Regular G.elements) (hr : right.Regular G.elements) (ho : o.Known) :
    G.Keeps m (Semantics.connective F self decisive left right o)
      (Semantics.connective E self decisive left right o) G.Computed := by
  unfold Semantics.connective
  refine (h.computeBoolean hself hm hl).bind fun l m₁ _ ⟨hm₁, b, hb⟩ => ?_
  by_cases htruth : l.payload.truth = decisive
  · simp only [htruth, if_true]
    exact Keeps.pure ⟨hm₁, Value.bool_sound _ decisive ho⟩
  · simp only [htruth, if_false]
    refine (h.computeBoolean hself hm₁ hr).bind fun r m₂ _ ⟨hm₂, c, hc⟩ => ?_
    rw [hc]
    exact Keeps.pure ⟨hm₂, Value.bool_sound _ c ho⟩

theorem binary (op : BinaryOp) {left right : Node} {o : Origin}
    (hl : left.Regular G.elements) (hr : right.Regular G.elements) (ho : o.Known) :
    G.Keeps m (Semantics.binary F self op left right o)
      (Semantics.binary E self op left right o) G.Computed := by
  by_cases hop : op ≠ .and ∧ op ≠ .or
  · have heq : ∀ D : Engine, Semantics.binary D self op left right o =
        (do
          let l ← D.compute self left
          let r ← D.compute self right
          Semantics.operate op l r o) := by
      intro D
      cases op <;> simp_all [Semantics.binary]
    rw [heq F, heq E]
    refine (h.compute hself hm hl).bind fun l m₁ _ ⟨hm₁, hlv⟩ => ?_
    refine (h.compute hself hm₁ hr).bind fun r m₂ _ ⟨hm₂, hrv⟩ => ?_
    exact Keeps.operate hop hlv.toSound hrv.toSound ho hm₂
  · have hcases : op = .and ∨ op = .or := by
      cases op <;> simp_all
    rcases hcases with rfl | rfl
    · exact h.connective hself hm false hl hr ho
    · exact h.connective hself hm true hl hr ho

theorem unary (op : UnaryOp) {e : Node} {o : Origin} (he : e.Regular G.elements)
    (ho : o.Known) :
    G.Keeps m (Semantics.unary F self op e o) (Semantics.unary E self op e o) G.Computed := by
  unfold Semantics.unary
  refine (h.computeNumber hself hm he).bind fun v m' _ ⟨hm', _, hnumber⟩ => ?_
  cases op with
  | plus => exact Keeps.pure ⟨hm', Value.number_sound _ hnumber ho⟩
  | minus =>
    refine (Keeps.freshObject hm').bind fun id m'' _ hm'' => ?_
    obtain ⟨x, hx⟩ := Payload.quantity_eq_ok hnumber
    have hnegate : v.payload.negate id = .ok (Payload.real (.made id) (-x)) := by
      rw [Payload.negate, hx]
      rfl
    exact Keeps.lift_bind hnegate (Keeps.pure ⟨hm'', Value.number_sound _ (.real _ _) ho⟩)

end Follows

/-! ## Built-in words -/

/-- Reading a number fails only beyond the range. -/
theorem tooLarge_of_read {cs : List Char} {f : Fault} (h : Number.read cs = .error f) :
    f = .tooLarge := by
  unfold Number.read at h
  dsimp only at h
  split at h
  · split at h
    · cases h
    · cases h
      rfl
  · cases h

namespace Keeps

/-- A text that the watch let pass, looked at for a number. -/
theorem spelledNumber_bind {β : Type} {R : β → Machine → Prop} {v : Value} {s : Text}
    (hv : G.Passes v) (hs : v.payload = .text s) (hm : m.Sound G.elements)
    {g f : Option Float → Run β} (hf : ∀ x?, G.Keeps m (g x?) (f x?) R) :
    G.Keeps m (liftM (Semantics.spelledNumber (.text s)) >>= g)
      (liftM (Semantics.spelledNumber (.text s)) >>= f) R := by
  have hspelled : Semantics.spelledNumber (.text s) = Number.read s.chars := rfl
  rw [hspelled]
  cases hread : Number.read s.chars with
  | ok x? => exact hf x?
  | error e =>
    have hlarge : G.large := Classical.byContradiction fun hnot => by
      have hreadable := hv.readable hnot
      rw [Value.readable, hs] at hreadable
      simp only [hread] at hreadable
      cases hreadable
    exact throw_bind ⟨hlarge, tooLarge_of_read hread⟩ hm

theorem requireSequence {found : Datatype} {o : Origin} (hfound : found.WellFormed)
    (ho : o.Known) (hm : m.Sound G.elements) :
    G.Keeps m (Semantics.requireSequence found o) (Semantics.requireSequence found o)
      fun _ m' => m' = m ∧
        (found = Datatype.string ∨ ∃ e, found = Datatype.array e ∧ e.WellFormed) := by
  obtain ⟨a, ha⟩ := Datatype.hasKind_eq_ok hfound .string
  obtain ⟨b, hb⟩ := Datatype.accepts_eq_ok Datatype.wellFormed_anyArray found hfound
  unfold Semantics.requireSequence
  refine lift_bind ha (lift_bind hb ?_)
  cases a with
  | true => exact pure ⟨rfl, .inl ((Datatype.hasKind_iff_eq_ofKind hfound (by decide)).1 ha)⟩
  | false =>
    cases b with
    | true =>
      obtain ⟨e, he, hwf, _⟩ := Datatype.array_accepts hfound hb
      exact pure ⟨rfl, .inr ⟨e, he, hwf⟩⟩
    | false => exact throw (allows_unexpected (by decide) hfound ho) hm

/-- A line that is read is a text. -/
theorem inputLine {o : Origin} (ho : o.Known) (hm : m.Sound G.elements) :
    G.Keeps m (do return ⟨.text (← Run.readLine), Datatype.string, o⟩)
      (do return ⟨.text (← Run.readLine), Datatype.string, o⟩) G.Computed := by
  refine (readLine hm).bind fun line m₁ _ hm₁ => ?_
  exact pure ⟨hm₁, Value.text_sound _ line ho⟩

/-- A word on a text. -/
theorem onText (word : Builtin) {v : Value} {s : Text} {operand : Node} {o : Origin}
    (hv : G.Passes v) (hs : v.payload = .text s) (hn : operand.Regular G.elements)
    (ho : o.Known) (hm : m.Sound G.elements) :
    G.Keeps m (Semantics.onText word v.payload operand o)
      (Semantics.onText word v.payload operand o) G.Computed := by
  obtain ⟨place, hplace⟩ := hn.originOf
  rw [hs]
  unfold Semantics.onText
  cases word with
  | toNumber =>
    refine spelledNumber_bind hv hs hm fun x? => ?_
    cases x? with
    | some x => exact pure ⟨hm, Value.number_sound _ (.number x) ho⟩
    | none => exact lift_bind hplace (fail rfl (Origin.known_proper place) hm)
  | toBoolean =>
    dsimp only
    cases Semantics.spelledBoolean (.text s) with
    | some b => exact pure ⟨hm, Value.bool_sound _ b ho⟩
    | none => exact lift_bind hplace (fail rfl (Origin.known_proper place) hm)
  | isNumber => exact spelledNumber_bind hv hs hm fun x? => pure ⟨hm, Value.bool_sound _ _ ho⟩
  | _ => exact pure ⟨hm, Value.bool_sound _ _ ho⟩

end Keeps

namespace Follows

variable (h : G.Follows F E) (hself : G.SelfKnown self) (hm : m.Sound G.elements)

include h hself hm

/-- `input` with a prompt. -/
theorem inputPrompt {prompt : Node} {o : Origin} (hn : prompt.Regular G.elements)
    (ho : o.Known) :
    G.Keeps m (Semantics.input F self prompt o) (Semantics.input E self prompt o)
      G.Computed := by
  have heq : ∀ D : Engine, Semantics.input D self prompt o =
      (do
        Run.ask (← D.computeAs self Datatype.string prompt).payload
        return ⟨.text (← Run.readLine), Datatype.string, o⟩) := by
    intro D
    cases hn <;> rfl
  rw [heq F, heq E]
  refine (h.computeAs hself hm Datatype.wellFormed_string hn).bind
    fun v m₁ _ ⟨hm₁, hv, hacc⟩ => ?_
  obtain ⟨s, hs⟩ :=
    Datatype.text_of_holds (hv.holds_of_accepts Datatype.wellFormed_string hacc)
  rw [hs]
  exact (Keeps.ask s hm₁).bind fun _ m₂ _ hm₂ => Keeps.inputLine ho hm₂

theorem builtin (word : Builtin) {operand : Node} {o : Origin}
    (hn : operand.Regular G.elements) (ho : o.Known) :
    G.Keeps m (Semantics.builtin F self word operand o) (Semantics.builtin E self word operand o)
      G.Computed := by
  -- The words that look into a text share the check that it is one.
  have htext : ∀ word : Builtin, G.Keeps m
      (do
        let v ← Run.expect Datatype.string (← F.compute self operand)
        Semantics.onText word v.payload operand o)
      (do
        let v ← Run.expect Datatype.string (← E.compute self operand)
        Semantics.onText word v.payload operand o) G.Computed := by
    intro word
    refine (h.compute hself hm hn).bind fun v m₁ _ ⟨hm₁, hv⟩ => ?_
    refine (Keeps.expect Datatype.wellFormed_string hv.toSound hm₁).bind
      fun w m₂ _ ⟨hm₂, hw, hacc⟩ => ?_
    obtain ⟨s, hs⟩ :=
      Datatype.text_of_holds (hv.holds_of_accepts Datatype.wellFormed_string hacc)
    subst hm₂ hw
    exact Keeps.onText word hv hs hn ho hm₁
  cases word with
  | input => exact h.inputPrompt hself hm hn ho
  | length =>
    refine (h.compute hself hm hn).bind fun v m₁ _ ⟨hm₁, hv⟩ => ?_
    refine (Keeps.requireSequence hv.datatype hv.origin hm₁).bind fun _ m₂ _ ⟨hm₂, ht⟩ => ?_
    have hlength : ∃ n, v.payload.length = .ok n := by
      have hfits : v.datatype.holds v.payload = true := hv.fits
      rcases ht with ht | ⟨e, ht, _⟩
      · obtain ⟨s, hs⟩ := Datatype.text_of_holds (ht ▸ hfits)
        exact ⟨s.length, by rw [hs]; rfl⟩
      · obtain ⟨items, hitems, _⟩ := Datatype.list_of_holds (ht ▸ hfits)
        exact ⟨items.length, by rw [hitems]; rfl⟩
    obtain ⟨n, hn⟩ := hlength
    subst hm₂
    exact Keeps.lift_bind hn (Keeps.pure ⟨hm₁, Value.number_sound _ (.number _) ho⟩)
  | toString =>
    refine (h.compute hself hm hn).bind fun v m₁ _ ⟨hm₁, hv⟩ => ?_
    obtain ⟨s, hs⟩ := hv.toSound.rendered
    exact Keeps.lift_bind hs (Keeps.pure ⟨hm₁, Value.text_sound _ s ho⟩)
  | toNumber => exact htext .toNumber
  | toBoolean => exact htext .toBoolean
  | isNumber => exact htext .isNumber
  | isBoolean => exact htext .isBoolean

end Follows

end Guard

end Mandate
