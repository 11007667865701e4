/-
  Mandate.Proofs.Expressions

  Expressions under a watch: whatever a regular expression comes to is sound, and
  so are the variables it leaves behind.

    * `Follows.call` is about calls. The arguments are checked before they become
      variables, and the result before it is handed over, so neither side has to
      trust the other.
    * `Follows.expression` puts the rules together.
-/

import Mandate.Proofs.Operators

namespace Mandate

/-! ## What is called -/

/-- Something that can be called, made from a regular literal. -/
inductive Callee.Regular (elements : Bool) : Callee → Prop where
  | mk (style : LambdaStyle) {ps : List Param} {r : Datatype} {b : Node} (scope : Scope)
      (hps : Param.RegularList ps) (hr : r.WellFormed) (hb : b.Regular elements) :
      Regular elements ⟨style, .proper ps, .proper r, b, scope⟩

theorem Semantics.callLine_eq_ok {elements : Bool} {target : Value} {args : List Value}
    {o : Origin} (ht : target.Sound elements) (hargs : ∀ v ∈ args, v.Sound elements)
    (ho : o.Known) : ∃ s, callLine target args o = .ok s := by
  obtain ⟨s, hs⟩ := Value.Sound.shownAll hargs
  refine ⟨"call " ++ target.datatype.text ++ " at " ++ o.text ++ " with " ++ s, ?_⟩
  rw [callLine, Datatype.shown_eq_ok ht.datatype, ok_bind, ho.shown, ok_bind, hs]
  rfl

theorem Semantics.returnLine_eq_ok {elements : Bool} {result : Value} {o : Origin}
    (hr : result.Sound elements) (ho : o.Known) : ∃ s, returnLine result o = .ok s := by
  obtain ⟨s, hs⟩ := hr.shown
  refine ⟨"return " ++ s ++ " from call at " ++ o.text, ?_⟩
  rw [returnLine, hs, ok_bind, ho.shown]
  rfl

/-- A name other than `self` is looked up among the variables. -/
theorem Semantics.named_of_ne {self : Option Payload} {x : String} {o : Origin}
    (hx : x ≠ "self") :
    named self (.proper x) o = (do
      let m ← get
      match m.store.lookup? m.scope (.proper x) with
      | some v => return v.withOrigin o
      | none => Run.fail (.undefinedVariable <$> Name.plain (.proper x)) o) := by
  unfold named
  split
  · next heq => exact absurd (Slot.proper.inj heq) hx
  · rfl

namespace Guard

variable {G : Guard} {m : Machine} {self : Option Payload} {F E : Engine}

namespace Keeps

/-- A value that fits a datatype for calls can be called. -/
theorem callee {target : Value} (ht : target.Sound G.elements) (hm : m.Sound G.elements) :
    G.Keeps m (Semantics.callee target) (Semantics.callee target) fun c m' =>
      m' = m ∧ c.Regular G.elements ∧ target.payload.Callable G.elements := by
  obtain ⟨p, t, o⟩ := target
  obtain ⟨k, as, r, rfl⟩ := ht.datatype.kind_eq_ok
  unfold Semantics.callee
  refine lift_bind rfl ?_
  have hpayload : p.Regular G.elements := ht.payload
  cases k with
  | function =>
    obtain ⟨qs, t, b, place, rfl⟩ := Datatype.function_of_holds ht.fits
    cases hpayload with
    | node hn =>
      cases hn with
      | lambda style o hps hr hb =>
        exact pure ⟨rfl, .mk .function [] hps hr hb, .function o hps hr hb⟩
  | closure =>
    obtain ⟨c, rfl⟩ := Datatype.closure_of_holds ht.fits
    cases hpayload with
    | closure hc =>
      cases hc with
      | mk id o scope hps hr hb =>
        exact pure ⟨rfl, .mk .closure scope hps hr hb, .closure (.mk id o scope hps hr hb)⟩
  | _ => exact throw (allows_unexpected (by decide) ht.datatype ht.origin) hm

theorem checkArguments {ps : List Param} {vs : List Value} (hps : ∀ p ∈ ps, p.Regular)
    (hvs : ∀ v ∈ vs, v.Sound G.elements) (hm : m.Sound G.elements) :
    G.Keeps m (Semantics.checkArguments (ps.map .proper) vs)
      (Semantics.checkArguments (ps.map .proper) vs) fun _ m' => m' = m := by
  induction ps generalizing vs with
  | nil => exact pure rfl
  | cons p ps ih =>
    cases vs with
    | nil => exact pure rfl
    | cons v vs =>
      rw [List.map_cons]
      unfold Semantics.checkArguments
      have hv := hvs v (by simp)
      cases hps p (by simp) with
      | mk name span ht =>
        refine lift_bind rfl ?_
        refine (require ht hv.datatype hv.origin hm).bind fun _ m' _ ⟨hm', _⟩ => ?_
        subst hm'
        exact ih (fun q hq => hps q (by simp [hq])) fun w hw => hvs w (by simp [hw])

end Keeps

namespace Follows

variable (h : G.Follows F E) (hself : G.SelfKnown self) (hm : m.Sound G.elements)

omit hself in
include h hm in
/-- A call with the values of its arguments. -/
theorem invoke {target : Value} {style : LambdaStyle} {ps : List Param} {r : Datatype}
    {b : Node} {scope : Scope} {args : List Value} {o : Origin}
    (ht : target.Sound G.elements) (hcallable : target.payload.Callable G.elements)
    (hps : Param.RegularList ps) (hr : r.WellFormed) (hb : b.Regular G.elements)
    (hargs : ∀ v ∈ args, v.Sound G.elements) (ho : o.Known) :
    G.Keeps m
      (Semantics.invoke F target ⟨style, .proper ps, .proper r, b, scope⟩ (ps.map .proper) args o)
      (Semantics.invoke E target ⟨style, .proper ps, .proper r, b, scope⟩ (ps.map .proper) args o)
      G.Computed := by
  unfold Semantics.invoke
  refine (Keeps.checkArguments hps.regular hargs hm).bind fun _ m₁ _ hm₁ => ?_
  subst hm₁
  refine Keeps.lift_bind (Param.names_proper ps) ?_
  refine (Keeps.bindAll scope ?_ hm).bind fun inner m₂ _ hm₂ => ?_
  · intro binding hbinding
    exact hargs binding.2 (List.of_mem_zip hbinding).2
  obtain ⟨line, hline⟩ := Semantics.callLine_eq_ok ht hargs ho
  refine Keeps.lift_bind hline ?_
  refine (Keeps.note 2 line hm₂).bind fun _ m₃ _ hm₃ => ?_
  have hknown : G.SelfKnown (some target.payload) := by
    intro p hp
    cases hp
    exact hcallable
  have hbody : G.Keeps m₃ (Run.within inner (F.run (some target.payload) b))
      (Run.within inner (E.run (some target.payload) b)) fun r m' =>
        m'.Sound G.elements ∧ ∀ v ∈ r, v.Sound G.elements :=
    Keeps.within (h.run hknown (m := { m₃ with scope := inner }) hm₃ hb) fun _ _ hr => hr
  refine hbody.bind fun result m₄ _ ⟨hm₄, hresult⟩ => ?_
  cases result with
  | none => exact Keeps.fail rfl ho hm₄
  | some v =>
    have hv := hresult v rfl
    refine (Keeps.require hr hv.datatype hv.origin hm₄).bind fun _ m₅ _ ⟨hm₅, _⟩ => ?_
    subst hm₅
    obtain ⟨line, hline⟩ := Semantics.returnLine_eq_ok hv ho
    refine Keeps.lift_bind hline ?_
    refine (Keeps.note 2 line hm₄).bind fun _ m₆ _ hm₆ => ?_
    exact Keeps.pure ⟨hm₆, hv.withOrigin ho⟩

include h hself hm

theorem call {f : Node} {args : List Node} {o : Origin} (hf : f.Regular G.elements)
    (hargs : ∀ a ∈ args, a.Regular G.elements) (ho : o.Known) :
    G.Keeps m (Semantics.call F self f (.proper args) o)
      (Semantics.call E self f (.proper args) o) G.Computed := by
  unfold Semantics.call
  refine (h.compute hself hm hf).bind fun target m₁ _ ⟨hm₁, htarget⟩ => ?_
  refine (Keeps.callee htarget.toSound hm₁).bind fun c m₂ _ ⟨hm₂, hc, hcallable⟩ => ?_
  subst hm₂
  cases hc with
  | @mk style ps r b scope hps hr hb =>
    refine Keeps.lift_bind rfl (Keeps.lift_bind rfl ?_)
    by_cases hlength : (ps.map Slot.proper).length = args.length
    · simp only [hlength, if_true]
      refine (h.computeAll hself hm₁ hargs).bind fun vs m₃ _ ⟨hm₃, hvs⟩ => ?_
      exact h.invoke hm₃ htarget.toSound hcallable hps hr hb hvs ho
    · simp only [hlength]
      exact Keeps.throw_bind (allows_of rfl ho) hm₁

/-! ## Arrays, names and elements -/

/-- The elements after the first fit the datatype of the first. -/
theorem furtherElements {t : Datatype} (ht : t.WellFormed) {ns : List Node}
    (hns : ∀ n ∈ ns, n.Regular G.elements) :
    G.Keeps m (Semantics.furtherElements F self t ns) (Semantics.furtherElements E self t ns)
      fun ps m' => m'.Sound G.elements ∧
        ∀ p ∈ ps, p.Regular G.elements ∧ t.holds p = true := by
  induction ns generalizing m with
  | nil => exact Keeps.pure ⟨hm, by simp⟩
  | cons n ns ih =>
    unfold Semantics.furtherElements
    refine (h.computeAs hself hm ht (hns n (by simp))).bind fun v m₁ _ ⟨hm₁, hv, hacc⟩ => ?_
    refine (ih hm₁ fun k hk => hns k (by simp [hk])).bind fun ps m₂ _ ⟨hm₂, hps⟩ => ?_
    exact Keeps.pure
      ⟨hm₂, List.forall_mem_cons.2 ⟨⟨hv.payload, hv.holds_of_accepts ht hacc⟩, hps⟩⟩

theorem array {es : List Node} {o : Origin} (hes : ∀ e ∈ es, e.Regular G.elements)
    (ho : o.Known) :
    G.Keeps m (Semantics.array F self (.proper es) o) (Semantics.array E self (.proper es) o)
      G.Computed := by
  cases es with
  | nil =>
    have hempty : Value.Sound G.elements ⟨.list [], Datatype.anyArray, o⟩ :=
      ⟨⟨.list (by simp), Datatype.wellFormed_anyArray, ho⟩, rfl⟩
    exact Keeps.pure ⟨hm, hempty⟩
  | cons n ns =>
    have heq : ∀ D : Engine, Semantics.array D self (.proper (n :: ns)) o =
        (do
          let first ← D.compute self n
          let rest ← Semantics.furtherElements D self first.datatype ns
          return ⟨.list (first.payload :: rest), Datatype.array first.datatype, o⟩) :=
      fun D => rfl
    rw [heq F, heq E]
    refine (h.compute hself hm (hes n (by simp))).bind fun v m₁ _ ⟨hm₁, hv⟩ => ?_
    refine (h.furtherElements hself hm₁ hv.datatype fun k hk => hes k (by simp [hk])).bind
      fun ps m₂ _ ⟨hm₂, hps⟩ => ?_
    have hall := List.forall_mem_cons.2 ⟨⟨hv.payload, hv.fits⟩, hps⟩
    refine Keeps.pure ⟨hm₂, ⟨.list fun p hp => (hall p hp).1, hv.datatype, ho⟩, ?_⟩
    exact (Datatype.array_holds_list _ _).2 fun p hp => (hall p hp).2

theorem index {t i : Node} {o : Origin} (ht : t.Regular G.elements)
    (hi : i.Regular G.elements) (ho : o.Known) :
    G.Keeps m (Semantics.index F self t i o) (Semantics.index E self t i o) G.Computed := by
  unfold Semantics.index
  refine (h.compute hself hm ht).bind ?_
  rintro ⟨p, pt, po⟩ m₁ _ ⟨hm₁, hv⟩
  refine (Keeps.requireSequence hv.datatype hv.origin hm₁).bind ?_
  rintro _ _ _ ⟨rfl, hseq⟩
  refine (h.computeNumber hself hm₁ hi).bind ?_
  rintro ⟨jp, jt, jo⟩ m₃ _ ⟨hm₃, hj, hnumber⟩
  have hregular : p.Regular G.elements := hv.payload
  -- A position of a text is one of its characters, of an array one of its elements.
  have hitems : ∃ items : List Payload, p.elements = .ok items ∧ p.length = .ok items.length ∧
      ∀ q ∈ items, q.Regular G.elements ∧
        (pt = Datatype.string ∧ Datatype.string.holds q = true ∨
          ∃ e, pt = Datatype.array e ∧ e.WellFormed ∧ e.holds q = true) := by
    rcases hseq with hstring | ⟨e, harray, he⟩
    · obtain rfl : pt = Datatype.string := hstring
      obtain ⟨s, rfl⟩ := Datatype.text_of_holds hv.fits
      refine ⟨_, rfl, ?_, ?_⟩
      · rw [List.length_map]
        rfl
      · intro q hq
        obtain ⟨c, _, rfl⟩ := List.mem_map.1 hq
        exact ⟨.text _, .inl ⟨rfl, rfl⟩⟩
    · obtain rfl : pt = Datatype.array e := harray
      obtain ⟨items, rfl, hitems⟩ := Datatype.list_of_holds hv.fits
      cases hregular with
      | list hlist =>
        exact ⟨items, rfl, rfl, fun q hq => ⟨hlist q hq, .inr ⟨e, rfl, he, hitems q hq⟩⟩⟩
  obtain ⟨items, helements, hlength, hall⟩ := hitems
  refine Keeps.lift_bind hlength ?_
  rcases Value.position_number hnumber jt hj.origin items.length with ⟨k, hk, hpos⟩ | ⟨e, hpos⟩
  · have hitem : p.item k = .ok items[k] := by
      rw [Payload.item, helements, ok_bind, List.getElem?_eq_getElem hk]
      rfl
    obtain ⟨hq, hcase⟩ := hall items[k] (List.getElem_mem hk)
    rw [hpos]
    refine Keeps.bind (Keeps.pure (Q := fun n m' => n = k ∧ m' = m₃) ⟨rfl, rfl⟩) ?_
    rintro _ _ _ ⟨rfl, rfl⟩
    refine Keeps.lift_bind hitem ?_
    rcases hcase with ⟨rfl, hholds⟩ | ⟨e, rfl, he, hholds⟩
    · exact Keeps.lift_bind rfl (Keeps.pure ⟨hm₃, ⟨hq, Datatype.wellFormed_string, ho⟩, hholds⟩)
    · exact Keeps.lift_bind rfl
        (Keeps.lift_bind rfl (Keeps.pure ⟨hm₃, ⟨hq, he, ho⟩, hholds⟩))
  · rw [hpos]
    exact Keeps.throw_bind trivial hm₃

/-- `exec` hands over what its operand comes to. -/
theorem exec {e : Node} (he : e.Regular G.elements) :
    G.Keeps m (Semantics.exec F self e) (Semantics.exec E self e) G.Computed := by
  obtain ⟨place, hplace⟩ := he.originOf
  unfold Semantics.exec
  refine (h.run hself hm he).bind fun r m₁ _ ⟨hm₁, hr⟩ => ?_
  cases r with
  | some v => exact Keeps.pure ⟨hm₁, hr v rfl⟩
  | none => exact Keeps.lift_bind hplace (Keeps.fail rfl (Origin.known_proper place) hm₁)

end Follows

namespace Keeps

/-- What `self` stands for has the datatype of its literal. -/
theorem selfValue {o : Origin} (hself : G.SelfKnown self) (ho : o.Known)
    (hm : m.Sound G.elements) :
    G.Keeps m (Semantics.selfValue self o) (Semantics.selfValue self o) G.Computed := by
  cases self with
  | none => exact fail rfl ho hm
  | some p =>
    cases hself p rfl with
    | function place hps hr hb =>
      obtain ⟨t, ht, hwf⟩ := LambdaStyle.function.datatype_wellFormed hps hr
      cases ht
      exact lift_bind rfl (pure ⟨hm, ⟨.node (.lambda .function place hps hr hb), hwf, ho⟩, rfl⟩)
    | closure hc =>
      obtain ⟨t, ht, hwf, hholds⟩ := hc.datatype_holds
      exact lift_bind ht (pure ⟨hm, ⟨.closure hc, hwf, ho⟩, hholds⟩)

theorem named (x : String) {o : Origin} (hself : G.SelfKnown self) (ho : o.Known)
    (hm : m.Sound G.elements) :
    G.Keeps m (Semantics.named self (.proper x) o) (Semantics.named self (.proper x) o)
      G.Computed := by
  by_cases hx : x = "self"
  · subst hx
    exact selfValue hself ho hm
  · rw [Semantics.named_of_ne hx]
    refine get_bind ?_
    unfold Store.lookup?
    cases m.scope.cell? (.proper x) with
    | some cell => exact pure ⟨hm, (hm cell).withOrigin ho⟩
    | none => exact fail rfl ho hm

theorem closure {ps : List Param} {r : Datatype} {b : Node} (o : Span)
    (hps : Param.RegularList ps) (hr : r.WellFormed) (hb : b.Regular G.elements)
    (hm : m.Sound G.elements) :
    G.Keeps m (Semantics.closure (.proper ps) (.proper r) b (.proper o))
      (Semantics.closure (.proper ps) (.proper r) b (.proper o)) G.Computed := by
  unfold Semantics.closure
  refine (freshObject hm).bind fun id m₁ _ hm₁ => ?_
  refine get_bind ?_
  have hc : Closure.Regular G.elements
      ⟨id, .proper ps, .proper r, b, .proper o, m₁.scope⟩ := .mk id o m₁.scope hps hr hb
  obtain ⟨t, ht, hwf, hholds⟩ := hc.datatype_holds
  exact lift_bind ht (pure ⟨hm₁, ⟨.closure hc, hwf, Origin.known_proper o⟩, hholds⟩)

/-- An instruction that is not run is a value. -/
theorem held {n : Node} (hn : n.Regular G.elements) (hi : n.isInstruction = true)
    (hm : m.Sound G.elements) :
    G.Keeps m (Semantics.held n) (Semantics.held n) G.Computed := by
  obtain ⟨place, hplace⟩ := hn.originOf
  have hpayload : Payload.ofNode n = .node n := by cases hn <;> rfl
  unfold Semantics.held
  rw [hpayload]
  refine lift_bind hplace (pure ⟨hm, ⟨.node hn, rfl, Origin.known_proper place⟩, ?_⟩)
  exact hi

end Keeps

/-! ## Expressions -/

/-- A regular node comes to a sound value. -/
theorem Follows.expression (h : G.Follows F E) (hself : G.SelfKnown self)
    (hm : m.Sound G.elements) (mode : Mode) {n : Node} (hn : n.Regular G.elements) :
    G.Keeps m (Semantics.expression F self mode n) (Semantics.expression E self mode n)
      G.Computed := by
  have hn' := hn
  cases hn with
  | string s o => exact Keeps.pure ⟨hm, Value.text_sound _ s (Origin.known_proper o)⟩
  | number x o =>
    have hnumber : (Payload.ofDatum (.number x)).IsNumber := .real .stored x
    exact Keeps.pure ⟨hm, Value.number_sound _ hnumber (Origin.known_proper o)⟩
  | boolean b o => exact Keeps.pure ⟨hm, Value.bool_sound _ b (Origin.known_proper o)⟩
  | lambda style o hps hr hb =>
    cases style with
    | function =>
      obtain ⟨t, ht, hwf⟩ := LambdaStyle.function.datatype_wellFormed hps hr
      cases ht
      exact Keeps.lift_bind rfl
        (Keeps.pure ⟨hm, ⟨.node hn', hwf, Origin.known_proper o⟩, rfl⟩)
    | closure => exact Keeps.closure o hps hr hb hm
  | name x o => exact Keeps.named x hself (Origin.known_proper o) hm
  | group o he =>
    refine (h.evaluate mode hself he hm).bind fun v m₁ _ ⟨hm₁, hv⟩ => ?_
    exact Keeps.pure ⟨hm₁, hv.toSound.withOrigin (Origin.known_proper o)⟩
  | index o ht hi => exact h.index hself hm ht hi (Origin.known_proper o)
  | call o hf has => exact h.call hself hm hf has (Origin.known_proper o)
  | unary op o he => exact h.unary hself hm op he (Origin.known_proper o)
  | binary op o hl hr => exact h.binary hself hm op hl hr (Origin.known_proper o)
  | array o hes =>
    cases mode with
    | compute => exact h.array hself hm hes (Origin.known_proper o)
    | hold => exact Keeps.held hn' rfl hm
  | exec o he =>
    cases mode with
    | compute => exact h.exec hself hm he
    | hold => exact Keeps.held hn' rfl hm
  | builtin word o he =>
    cases mode with
    | compute => exact h.builtin hself hm word he (Origin.known_proper o)
    | hold => exact Keeps.held hn' rfl hm
  | input o =>
    cases mode with
    | compute => exact Keeps.inputLine (Origin.known_proper o) hm
    | hold => exact Keeps.held hn' rfl hm
  | print | assign | eval | branch | branchThen | loop => exact Keeps.held hn' rfl hm

end Guard

end Mandate
