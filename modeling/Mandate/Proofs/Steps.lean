/-
  Mandate.Proofs.Steps

  What the steps that everything is made of do to sound variables.

    * Checks end in an error for the program's author or tell that one datatype
      accepts another (`Keeps.require`, `Keeps.expect`).
    * New variables are sound if their values are (`Keeps.bindAll`,
      `Keeps.cellFor`).
    * A place leads to a value as long as its variable stays nested in as many
      arrays as the place has indices (`Place.get_eq_ok`, `Place.updated_eq_ok`).
-/

import Mandate.Proofs.Watch

namespace Mandate

/-! ## Halts -/

namespace Guard

variable {G : Guard} {α : Type} {m : Machine}

theorem allows_of {cause : Except Fault RuntimeCause} {c : RuntimeCause} {o : Origin}
    (hc : cause = .ok c) (ho : o.Known) : G.Allows (Halt.of cause o) := by
  unfold Halt.of
  rw [ho.shown, hc]
  trivial

theorem allows_unexpected {expected : List Datatype} {found : Datatype} {o : Origin}
    (hexpected : ∀ t ∈ expected, t.WellFormed) (hfound : found.WellFormed) (ho : o.Known) :
    G.Allows (Halt.unexpected expected found o) := by
  have hnone : Datatype.faultAll? (expected ++ [found]) = none :=
    Datatype.faultAll?_eq_none fun t ht =>
      Datatype.fault?_eq_none (forall_mem_concat hexpected hfound t ht)
  rw [Halt.unexpected, hnone]
  exact allows_of rfl ho

namespace Keeps

theorem fail {Q : α → Machine → Prop} {cause : Except Fault RuntimeCause} {c : RuntimeCause}
    {o : Origin} (hc : cause = .ok c) (ho : o.Known) (hm : m.Sound G.elements) :
    G.Keeps m (Run.fail cause o) (Run.fail cause o) Q :=
  throw (allows_of hc ho) hm

/-! ## Checks -/

/-- A check lets pass what is accepted. -/
theorem require {expected found : Datatype} {o : Origin} (hexpected : expected.WellFormed)
    (hfound : found.WellFormed) (ho : o.Known) (hm : m.Sound G.elements) :
    G.Keeps m (Run.require expected found o) (Run.require expected found o) fun _ m' =>
      m' = m ∧ expected.accepts found = .ok true := by
  obtain ⟨b, hb⟩ := Datatype.accepts_eq_ok hexpected found hfound
  unfold Run.require
  refine lift_bind hb ?_
  cases b with
  | true => exact pure ⟨rfl, hb⟩
  | false => exact throw (allows_unexpected (by simp [hexpected]) hfound ho) hm

/-- A value that passes a check fits what was required. -/
theorem expect {t : Datatype} {v : Value} (ht : t.WellFormed) (hv : v.Sound G.elements)
    (hm : m.Sound G.elements) :
    G.Keeps m (Run.expect t v) (Run.expect t v) fun w m' =>
      m' = m ∧ w = v ∧ t.accepts v.datatype = .ok true := by
  unfold Run.expect
  refine (require ht hv.datatype hv.origin hm).bind fun _ m' _ ⟨hm', hacc⟩ => ?_
  exact pure ⟨hm', rfl, hacc⟩

/-! ## Trace and console -/

theorem note (level : Nat) (line : String) (hm : m.Sound G.elements) :
    G.Keeps m (Run.note level line) (Run.note level line) fun _ m' => m'.Sound G.elements :=
  of_ok rfl (.refl m) hm

theorem print (line : Text) (hm : m.Sound G.elements) :
    G.Keeps m (Run.print line) (Run.print line) fun _ m' => m'.Sound G.elements :=
  of_ok rfl (.refl m) hm

theorem ask (s : Text) (hm : m.Sound G.elements) :
    G.Keeps m (Run.ask (.text s)) (Run.ask (.text s)) fun _ m' => m'.Sound G.elements := by
  unfold Run.ask
  by_cases h : (Payload.text s).truth = true
  · simp only [h, if_true]
    exact lift_bind rfl (of_ok rfl (.refl m) hm)
  · simp only [h]
    exact pure hm

theorem readLine (hm : m.Sound G.elements) :
    G.Keeps m Run.readLine Run.readLine fun _ m' => m'.Sound G.elements :=
  of_ok rfl (.refl m) hm

theorem freshObject (hm : m.Sound G.elements) :
    G.Keeps m Run.freshObject Run.freshObject fun _ m' => m'.Sound G.elements :=
  of_ok rfl (.refl m) hm

/-! ## New variables -/

/-- A new variable. -/
theorem bindVariable (scope : Scope) (name : Name) {v : Value} (hv : v.Sound G.elements)
    (hm : m.Sound G.elements) :
    G.Keeps m (Run.bind scope name v) (Run.bind scope name v) fun _ m' =>
      m'.Sound G.elements := by
  refine of_ok rfl (.push rfl) fun cell => ?_
  show ((m.store.push v).get cell).Sound G.elements
  rw [Store.get_push]
  split
  · exact hv
  · exact hm cell

theorem bindAll (scope : Scope) {bs : List (Name × Value)}
    (hbs : ∀ b ∈ bs, b.2.Sound G.elements) (hm : m.Sound G.elements) :
    G.Keeps m (Run.bindAll scope bs) (Run.bindAll scope bs) fun _ m' =>
      m'.Sound G.elements := by
  induction bs generalizing scope m with
  | nil => exact pure hm
  | cons b bs ih =>
    unfold Run.bindAll
    refine (bindVariable scope b.1 (hbs b (by simp)) hm).bind fun scope' m' _ hm' => ?_
    exact ih scope' (fun c hc => hbs c (by simp [hc])) hm'

theorem cellFor (name : Name) {o : Origin} (ho : o.Known) (hm : m.Sound G.elements) :
    G.Keeps m (Run.cellFor name o) (Run.cellFor name o) fun _ m' => m'.Sound G.elements := by
  unfold Run.cellFor
  refine get_bind ?_
  dsimp only
  cases m.scope.cell? name with
  | some cell => exact pure hm
  | none =>
    refine get_bind ?_
    refine (bindVariable _ name (Value.unset_sound _ ho) hm).bind fun scope m₁ _ hm₁ => ?_
    exact bind (Q := fun _ m' => m'.Sound G.elements) (of_ok rfl (.refl m₁) hm₁)
      fun _ m₂ _ hm₂ => pure hm₂

end Keeps

end Guard

theorem lift_ok_bind {α β : Type} (a : α) (f : α → Except Halt β) :
    ((liftM (Except.ok a : Except Fault α) : Except Halt α) >>= f) = f a := rfl

/-! ## Places -/

theorem Value.position_eq {p : Payload} (hp : p.IsNumber) (t : Datatype) (o : Origin) (n : Nat) :
    ∃ x, Value.position ⟨p, t, o⟩ n =
      match (Number.toInt? x).filter fun i : Int => 0 ≤ i && i < n with
      | some i => .ok i.toNat
      | none => .error (Halt.of (.ok (.outOfBounds (Number.display x))) o) := by
  unfold Value.position
  cases hp with
  | number x => exact ⟨x, rfl⟩
  | nan object => exact ⟨Number.nan, rfl⟩

/-- An index that is a number is a position or ends in an error. -/
theorem Value.position_number {p : Payload} (hp : p.IsNumber) (t : Datatype) {o : Origin}
    (ho : o.Known) (n : Nat) :
    (∃ k, k < n ∧ Value.position ⟨p, t, o⟩ n = .ok k) ∨
      ∃ e, Value.position ⟨p, t, o⟩ n = .error (.error e) := by
  obtain ⟨x, hx⟩ := Value.position_eq hp t o n
  rw [hx]
  cases hfilter : (Number.toInt? x).filter fun i : Int => 0 ≤ i && i < n with
  | some i =>
    have hi : 0 ≤ i ∧ i < n := by simpa using (Option.filter_eq_some_iff.1 hfilter).2
    exact .inl ⟨i.toNat, by omega, rfl⟩
  | none =>
    obtain ⟨s, rfl⟩ := ho
    exact .inr ⟨_, rfl⟩

theorem Payload.item_of_lt {items : List Payload} {k : Nat} (h : k < items.length) :
    (Payload.list items).item k = .ok items[k] := by
  rw [item, elements, ok_bind, List.getElem?_eq_getElem h]
  rfl

namespace Place

/-- Every index of a place is a number. -/
inductive Indexed : Place → Prop where
  | cell (n : Nat) : Indexed (.cell n)
  | element {base : Place} (hbase : Indexed base) {p : Payload} (hp : p.IsNumber) (t : Datatype)
      {o : Origin} (ho : o.Known) : Indexed (.element base ⟨p, t, o⟩)

/-- A place whose variable is nested in as many arrays as the place has indices. -/
structure Leads (p : Place) (m : Machine) : Prop where
  indexed : p.Indexed
  depth_le : p.depth ≤ (m.store.get p.root).datatype.rank

variable {elements : Bool} {p : Place} {m : Machine}

theorem Leads.grows {m' : Machine} (h : p.Leads m) (hgrows : m.Grows m') : p.Leads m' :=
  ⟨h.indexed, Nat.le_trans h.depth_le (hgrows p.root)⟩

/-- A sound value that is nested in an array is an array. -/
theorem array_of_rank {v : Value} (hv : v.Sound elements) (hrank : 0 < v.datatype.rank) :
    ∃ items e o, v = ⟨.list items, Datatype.array e, o⟩ ∧ o.Known ∧ e.WellFormed ∧
      ∀ p ∈ items, p.Regular elements ∧ e.holds p = true := by
  obtain ⟨payload, t, o⟩ := v
  obtain ⟨e, rfl, he⟩ := hv.datatype.array_of_rank hrank
  obtain ⟨items, rfl, hitems⟩ := Datatype.list_of_holds hv.fits
  refine ⟨items, e, o, rfl, hv.origin, he, fun p hp => ⟨?_, hitems p hp⟩⟩
  cases hv.payload with
  | list hregular => exact hregular p hp

/-- What a place leads to. -/
theorem get_eq_ok (hp : p.Indexed) (hm : m.Sound elements)
    (hdepth : p.depth ≤ (m.store.get p.root).datatype.rank) :
    (∃ v, p.get m.store = .ok v ∧ v.Sound elements) ∨
      ∃ e, p.get m.store = .error (.error e) := by
  induction hp with
  | cell n => exact .inl ⟨m.store.get n, rfl, hm n⟩
  | @element base hbase q hq t o ho ih =>
    have hbasedepth : base.depth + 1 ≤ (m.store.get base.root).datatype.rank := hdepth
    rcases ih (by omega) with ⟨v, hget, hv⟩ | ⟨e, hget⟩
    · have hrank := get_rank hget (by omega)
      obtain ⟨items, e, around, rfl, hknown, he, hitems⟩ := array_of_rank hv (by omega)
      rcases Value.position_number hq t ho items.length with ⟨k, hk, hpos⟩ | ⟨err, hpos⟩
      · refine .inl ⟨⟨items[k], e, around⟩, ?_, ?_⟩
        · rw [get, hget]
          simp only [ok_bind, Payload.length, lift_ok_bind, hpos, Payload.item_of_lt hk]
          rfl
        · have hitem := hitems items[k] (List.getElem_mem hk)
          exact ⟨⟨hitem.1, he, hknown⟩, hitem.2⟩
      · refine .inr ⟨err, ?_⟩
        rw [get, hget]
        simp only [ok_bind, Payload.length, lift_ok_bind, hpos]
        rfl
    · refine .inr ⟨e, ?_⟩
      rw [get, hget]
      rfl

/-- What the variable of a place holds once a value is in the place. -/
theorem updated_eq_ok (hp : p.Indexed) (hm : m.Sound elements)
    (hdepth : p.depth ≤ (m.store.get p.root).datatype.rank) {v : Value}
    (hv : v.Regular elements) :
    (∃ w, p.updated m.store v = .ok w ∧ w.Regular elements) ∨
      ∃ e, p.updated m.store v = .error (.error e) := by
  induction hp generalizing v with
  | cell n => exact .inl ⟨v, rfl, hv⟩
  | @element base hbase q hq t o ho ih =>
    have hbasedepth : base.depth + 1 ≤ (m.store.get base.root).datatype.rank := hdepth
    rcases get_eq_ok hbase hm (by omega) with ⟨u, hget, hu⟩ | ⟨e, hget⟩
    · have hrank := get_rank hget (by omega)
      obtain ⟨items, e, around, rfl, hknown, he, hitems⟩ := array_of_rank hu (by omega)
      rcases Value.position_number hq t ho items.length with ⟨k, hk, hpos⟩ | ⟨err, hpos⟩
      · -- The array around the value is what goes into the place one index shorter.
        have hset : (Value.mk (.list (items.set k v.payload)) (Datatype.array v.datatype)
            around).Regular elements := by
          refine ⟨.list fun q hq => ?_, hv.datatype, hknown⟩
          rcases List.mem_or_eq_of_mem_set hq with hq | rfl
          · exact (hitems q hq).1
          · exact hv.payload
        have hstep : (Place.element base ⟨q, t, o⟩).updated m.store v =
            base.updated m.store
              ⟨.list (items.set k v.payload), Datatype.array v.datatype, around⟩ := by
          rw [updated, hget]
          simp only [ok_bind, Payload.length, lift_ok_bind, hpos]
          rfl
        rw [hstep]
        exact ih (by omega) hset
      · refine .inr ⟨err, ?_⟩
        rw [updated, hget]
        simp only [ok_bind, Payload.length, lift_ok_bind, hpos]
        rfl
    · refine .inr ⟨e, ?_⟩
      rw [updated, hget]
      rfl

end Place

end Mandate
