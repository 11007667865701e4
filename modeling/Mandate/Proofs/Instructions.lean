/-
  Mandate.Proofs.Instructions

  Instructions under a watch, and with them whole programs.

    * `Follows.place` and `Follows.assign` are about assignment. Computing the
      value may assign to the same variable, so a place is only known to lead
      somewhere because variables never leave their arrays. An assignment to an
      element is the one rule that can leave a variable that does not fit; the
      watch looks at it right after.
    * `Guard.follows` ties the rules together, by induction on the fuel.
-/

import Mandate.Proofs.Expressions

namespace Mandate

namespace Guard

variable {G : Guard} {m : Machine} {self : Option Payload} {F E : Engine}

theorem loose_of_sound (hm : m.Sound G.elements) : G.Loose m := ⟨hm.regular, fun _ => hm.fits⟩

/-- What running an instruction leaves behind, before the watch looks at it. -/
def Performed (G : Guard) (r : Option Value) (m : Machine) : Prop :=
  G.Loose m ∧ ∀ v ∈ r, v.Sound G.elements

theorem performed_none (hm : m.Sound G.elements) : G.Performed none m :=
  ⟨loose_of_sound hm, by simp⟩

/-! ## Assignment -/

/-- The value in a place. -/
theorem Keeps.read {p : Place} (hp : p.Leads m) (hm : m.Sound G.elements) :
    G.Keeps m (Run.read p) (Run.read p) fun v m' =>
      m' = m ∧ v.Sound G.elements ∧ p.get m.store = .ok v := by
  rcases Place.get_eq_ok hp.indexed hm hp.depth_le with ⟨v, hv, hsound⟩ | ⟨e, he⟩
  · exact of_ok (Run.read_of_ok hv) (.refl m) ⟨rfl, hsound, hv⟩
  · refine .inr ⟨rfl, ?_⟩
    rw [Run.read_of_error he]
    exact ⟨trivial, fun _ => hm.fits⟩

/-- Another value in a place, as far as the variables are concerned. -/
theorem Meets.write {start : Machine} {p : Place} {old v : Value} (hm : m.Sound G.elements)
    (hgrows : start.Grows m) (hp : p.Leads start) (hdepth : G.elements = false → p.depth = 0)
    (hold : p.get start.store = .ok old) (hv : v.Sound G.elements)
    (hacc : old.datatype.accepts v.datatype = .ok true) :
    G.Meets m (Run.write p v) (Run.write p v) fun _ m' => start.Grows m' ∧ G.Loose m' := by
  refine .inr ⟨rfl, ?_⟩
  have hleads := hp.grows hgrows
  rcases Place.updated_eq_ok hleads.indexed hm hleads.depth_le hv.toRegular with
    ⟨w, hw, hregular⟩ | ⟨e, he⟩
  · rw [Run.write_of_ok hw]
    refine ⟨fun cell => ?_, fun cell => ?_, fun hnone => ?_⟩
    · show _ ≤ ((m.store.set p.root w).get cell).datatype.rank
      rw [Store.get_set]
      split
      · next heq =>
        -- The new value is accepted for the old one, which the variable held at the start.
        rw [heq.1, Place.updated_datatype hw]
        exact Datatype.rank_le_of_accepts _ _ (Place.accepts_wrapped hold hp.depth_le hacc)
      · exact hgrows cell
    · show ((m.store.set p.root w).get cell).Regular G.elements
      rw [Store.get_set]
      split
      · exact hregular
      · exact hm.regular cell
    · -- Without elements the place is the variable itself, which takes the value as it is.
      have hself : w = v := by
        cases p with
        | cell n => exact (Except.ok.inj hw).symm
        | element base index => exact absurd (hdepth hnone) (by simp [Place.depth])
      refine Machine.fits_iff.2 fun cell => ?_
      show ((m.store.set p.root w).get cell).fits = true
      rw [Store.get_set]
      split
      · rw [hself]
        exact hv.fits
      · exact (hm cell).fits
  · rw [Run.write_of_error he]
    exact ⟨trivial, fun _ => hm.fits⟩

namespace Follows

/-- The place of a target leads somewhere. -/
theorem place (h : G.Follows F E) (hself : G.SelfKnown self) (hm : m.Sound G.elements)
    {t : Node} (ht : t.Target G.elements) :
    G.Keeps m (Semantics.place F self t) (Semantics.place E self t) fun p m' =>
      m'.Sound G.elements ∧ p.Leads m' ∧ (G.elements = false → p.depth = 0) := by
  cases ht with
  | name x o =>
    unfold Semantics.place
    refine (Keeps.cellFor (.proper x) (Origin.known_proper o) hm).bind fun n m₁ _ hm₁ => ?_
    exact Keeps.pure ⟨hm₁, ⟨.cell n, Nat.zero_le _⟩, fun _ => rfl⟩
  | @element t i o helements ht hi =>
    obtain ⟨src, hsrc⟩ := ht.origin
    unfold Semantics.place
    refine (place h hself hm ht).bind ?_
    rintro base m₁ _ ⟨hm₁, hbase, _⟩
    refine (Keeps.read hbase hm₁).bind ?_
    rintro array _ _ ⟨rfl, harray, hget⟩
    have hrank := Place.get_rank hget hbase.depth_le
    obtain ⟨b, hb⟩ :=
      Datatype.accepts_eq_ok Datatype.wellFormed_anyArray array.datatype harray.datatype
    refine Keeps.lift_bind hb ?_
    cases b with
    | false =>
      refine Keeps.lift_bind (a := .proper src) ?_ ?_
      · rw [Semantics.originOf, hsrc]
      · exact Keeps.throw_bind
          (allows_unexpected (by decide) harray.datatype (Origin.known_proper src)) hm₁
    | true =>
      -- What is indexed is an array, so its variable is in one more than the base has indices.
      obtain ⟨e, he, _⟩ := Datatype.array_accepts harray.datatype hb
      refine (h.computeNumber hself hm₁ hi).bind ?_
      rintro ⟨jp, jt, jo⟩ m₃ hgrows ⟨hm₃, hj, hnumber⟩
      have hleads := hbase.grows hgrows
      refine Keeps.pure ⟨hm₃, ⟨.element hleads.indexed hnumber jt hj.origin, ?_⟩, ?_⟩
      · have hroot := hgrows base.root
        rw [he, Datatype.rank_array] at hrank
        show base.depth + 1 ≤ (m₃.store.get base.root).datatype.rank
        omega
      · intro hnone
        rw [hnone] at helements
        cases helements

variable (h : G.Follows F E) (hself : G.SelfKnown self) (hm : m.Sound G.elements)

include h hself hm

/-- An assignment keeps to the datatype of the old value, though not to the elements of an
array. -/
theorem assign {t v : Node} (ht : t.Target G.elements) (hv : v.Regular G.elements) :
    G.Keeps m (Semantics.assign F self t v) (Semantics.assign E self t v) fun _ m' =>
      G.Loose m' := by
  unfold Semantics.assign
  refine (h.place hself hm ht).bind fun p m₁ _ ⟨hm₁, hp, hdepth⟩ => ?_
  refine (Keeps.read hp hm₁).bind fun old m₂ _ ⟨hm₂, hold, hget⟩ => ?_
  subst hm₂
  -- The variable may leave arrays it entered while the value was computed, but none it was in
  -- at the start, so the steps are compared with the start.
  refine Meets.bind (h.computeAs hself hm₁ hold.datatype hv) ?_
  intro u m₃ ⟨hgrows, hm₃, hu, hacc⟩
  exact Meets.write hm₃ hgrows hp hdepth hget hu.toSound hacc

/-! ## Printing and control -/

theorem printedAll {ns : List Node} (hns : ∀ n ∈ ns, n.Regular G.elements) :
    G.Keeps m (Semantics.printedAll F self ns) (Semantics.printedAll E self ns) fun _ m' =>
      m'.Sound G.elements := by
  induction ns generalizing m with
  | nil => exact Keeps.pure hm
  | cons n ns ih =>
    unfold Semantics.printedAll
    refine (h.compute hself hm (hns n (by simp))).bind fun v m₁ _ ⟨hm₁, hv⟩ => ?_
    obtain ⟨s, hs⟩ := hv.toSound.printed
    refine Keeps.lift_bind hs ?_
    refine (ih hm₁ fun k hk => hns k (by simp [hk])).bind fun rest m₂ _ hm₂ => ?_
    exact Keeps.pure hm₂

/-- Payloads one after the other. -/
theorem sequence {o : Origin} (ho : o.Known) {ps : List Payload}
    (hps : ∀ p ∈ ps, p.Regular G.elements) :
    G.Keeps m (Semantics.sequence F self o ps) (Semantics.sequence E self o ps)
      G.Performed := by
  induction ps generalizing m with
  | nil => exact Keeps.pure (performed_none hm)
  | cons p ps ih =>
    unfold Semantics.sequence
    refine (h.perform hself (hps p (by simp)) ho hm).bind fun r m₁ _ ⟨hm₁, hr⟩ => ?_
    cases r with
    | some v => exact Keeps.pure ⟨loose_of_sound hm₁, hr⟩
    | none => exact ih hm₁ fun q hq => hps q (by simp [hq])

theorem condition {c : Node} (hc : c.Regular G.elements) :
    G.Keeps m (Semantics.condition F self c) (Semantics.condition E self c) fun _ m' =>
      m'.Sound G.elements := by
  unfold Semantics.condition
  refine (h.computeBoolean hself hm hc).bind fun v m₁ _ ⟨hm₁, _⟩ => ?_
  exact Keeps.pure hm₁

/-- A body of `if` or `while`. -/
theorem body {n : Node} (hn : n.Regular G.elements) :
    G.Keeps m (Run.body (F.run self n)) (Run.body (E.run self n)) fun r m' =>
      m'.Sound G.elements ∧ ∀ v ∈ r, v.Sound G.elements :=
  (h.run hself hm hn).body

theorem repeatWhile {c b : Node} (hc : c.Regular G.elements) (hb : b.Regular G.elements)
    (rounds : Nat) :
    G.Keeps m (Semantics.repeatWhile F self c b rounds) (Semantics.repeatWhile E self c b rounds)
      G.Performed := by
  induction rounds generalizing m with
  | zero => exact Keeps.throw trivial hm
  | succ rounds ih =>
    unfold Semantics.repeatWhile
    refine (h.condition hself hm hc).bind fun holds m₁ _ hm₁ => ?_
    cases holds with
    | false => exact Keeps.pure (performed_none hm₁)
    | true =>
      refine (h.body hself hm₁ hb).bind fun r m₂ _ ⟨hm₂, hr⟩ => ?_
      cases r with
      | some v => exact Keeps.pure ⟨loose_of_sound hm₂, hr⟩
      | none => exact ih hm₂

/-- `if` with what is run if the condition does not hold. -/
theorem branch {c t e : Node} (o : Span) (hc : c.Regular G.elements)
    (ht : t.Regular G.elements) (he : e.Regular G.elements) :
    G.Keeps m (Semantics.execute F self (.branch c t e (.proper o)))
      (Semantics.execute E self (.branch c t e (.proper o))) G.Performed := by
  have heq : ∀ D : Engine, Semantics.execute D self (.branch c t e (.proper o)) =
      (do
        if ← Semantics.condition D self c then Run.body (D.run self t)
        else Run.body (D.run self e)) := by
    intro D
    cases he <;> rfl
  rw [heq F, heq E]
  refine (h.condition hself hm hc).bind fun holds m₁ _ hm₁ => ?_
  cases holds with
  | true =>
    exact (h.body hself hm₁ ht).mono fun r m₂ _ ⟨hm₂, hr⟩ => ⟨loose_of_sound hm₂, hr⟩
  | false =>
    exact (h.body hself hm₁ he).mono fun r m₂ _ ⟨hm₂, hr⟩ => ⟨loose_of_sound hm₂, hr⟩

/-- A regular instruction has a meaning. -/
theorem execute {n : Node} (hn : n.Regular G.elements) (hi : n.isInstruction = true) :
    G.Keeps m (Semantics.execute F self n) (Semantics.execute E self n) G.Performed := by
  cases hn with
  | array o hes =>
    refine Keeps.lift_bind rfl (h.sequence hself hm (Origin.known_proper o) ?_)
    intro p hp
    obtain ⟨e, he, rfl⟩ := List.mem_map.1 hp
    have hpayload : Payload.ofNode e = .node e := by cases hes e he <;> rfl
    rw [hpayload]
    exact .node (hes e he)
  | print o hes =>
    refine Keeps.lift_bind rfl ?_
    refine (h.printedAll hself hm hes).bind fun line m₁ _ hm₁ => ?_
    refine (Keeps.print line hm₁).bind fun _ m₂ _ hm₂ => ?_
    exact Keeps.pure (performed_none hm₂)
  | assign o ht hv =>
    refine (h.assign hself hm ht hv).bind fun _ m₁ _ hm₁ => ?_
    exact Keeps.pure ⟨hm₁, by simp⟩
  | eval o he =>
    refine (h.compute hself hm he).bind fun v m₁ _ ⟨hm₁, hv⟩ => ?_
    refine Keeps.pure ⟨loose_of_sound hm₁, ?_⟩
    intro w hw
    cases hw
    exact hv.toSound
  | exec o he => exact Keeps.fail rfl (Origin.known_proper o) hm
  | builtin word o he => exact Keeps.fail rfl (Origin.known_proper o) hm
  | input o => exact Keeps.fail rfl (Origin.known_proper o) hm
  | branch o hc ht he => exact h.branch hself hm o hc ht he
  | branchThen o hc ht =>
    refine (h.condition hself hm hc).bind fun holds m₁ _ hm₁ => ?_
    cases holds with
    | true =>
      exact (h.body hself hm₁ ht).mono fun r m₂ _ ⟨hm₂, hr⟩ => ⟨loose_of_sound hm₂, hr⟩
    | false => exact Keeps.pure (performed_none hm₁)
  | @loop c b o hc hb =>
    show G.Keeps m (Semantics.repeatWhile F self c b F.limit)
      (Semantics.repeatWhile E self c b E.limit) G.Performed
    rw [h.limit]
    exact h.repeatWhile hself hm hc hb E.limit
  | _ => cases hi

/-- A regular payload can be run, or ends in an error for the program's author. -/
theorem instruction {p : Payload} {o : Origin} (hp : p.Regular G.elements) (ho : o.Known) :
    G.Keeps m (Semantics.instruction F self p o) (Semantics.instruction E self p o)
      G.Performed := by
  cases hp with
  | list hitems => exact h.sequence hself hm ho hitems
  | node hn =>
    unfold Semantics.instruction
    refine (h.evaluate .hold hself hn hm).bind fun v m₁ _ ⟨hm₁, hv⟩ => ?_
    refine (Keeps.expect Datatype.wellFormed_instruction hv.toSound hm₁).bind
      fun w m₂ _ ⟨hm₂, hw, hacc⟩ => ?_
    subst hm₂ hw
    obtain ⟨p, t, src⟩ := w
    have hregular : p.Regular G.elements := hv.payload
    rcases Datatype.instruction_of_holds
      (hv.holds_of_accepts Datatype.wellFormed_instruction hacc) with ⟨items, hitems⟩ | ⟨n, hn, hi⟩
    · obtain rfl : p = .list items := hitems
      cases hregular with
      | list hitems => exact h.sequence hself hm₁ hv.origin hitems
    · obtain rfl : p = .node n := hn
      cases hregular with
      | node hn =>
        obtain ⟨place, hplace⟩ := hn.origin
        show G.Keeps m₂ (Semantics.executePayload F self (.node n))
          (Semantics.executePayload E self (.node n)) G.Performed
        unfold Semantics.executePayload
        simp only [Payload.origin?, hplace]
        refine Keeps.lift_bind rfl ?_
        refine (Keeps.note 3 _ hm₁).bind fun _ m₃ _ hm₃ => ?_
        exact h.execute hself hm₃ hn hi
  | _ => exact Keeps.fail rfl ho hm

end Follows

/-! ## Programs -/

/-- With whatever fuel, the engine under the watch follows the engine. -/
theorem follows (G : Guard) (fuel : Nat) :
    G.Follows (watchedEngine G.watch G.stop fuel) (engine fuel) := by
  induction fuel with
  | zero =>
    refine ⟨rfl, ?_, ?_⟩
    · intro self n m mode _ _ hm
      exact Keeps.throw trivial hm
    · intro self p o m _ _ _ hm
      exact Keeps.throw trivial hm
  | succ fuel ih =>
    refine ⟨rfl, ?_, ?_⟩
    · intro self n m mode hself hn hm
      have hstep := ih.expression hself hm mode hn
      refine (Keeps.watched hm (hstep.mono ?_)).mono ?_
      · intro v m' _ ⟨hm', hv⟩
        refine ⟨loose_of_sound hm', fun w hw => ?_⟩
        cases hw
        exact hv
      · intro v m' _ ⟨hm', hv⟩
        exact ⟨hm', hv v rfl⟩
    · intro self p o m hself hp ho hm
      have hstep := ih.instruction hself hm hp ho
      refine (Keeps.watched hm hstep).mono ?_
      intro r m' _ ⟨hm', hr⟩
      exact ⟨hm', fun v hv => (hr v hv).toSound⟩

/-- A regular program from sound variables. -/
theorem keeps_run (G : Guard) (fuel : Nat) {program : Node}
    (hprogram : program.Regular G.elements) (hm : m.Sound G.elements) :
    G.Keeps m ((watchedEngine G.watch G.stop fuel).run none program)
      ((engine fuel).run none program) fun r m' =>
        m'.Sound G.elements ∧ ∀ v ∈ r, v.Sound G.elements := by
  refine (G.follows fuel).run ?_ hm hprogram
  intro p hp
  cases hp

end Guard

end Mandate
