/-
  Mandate.Proofs.AcceptanceOrder

  Acceptance as an order on the datatypes that a program can write.

    * `primitive_takes_iff`, `array_takes`, `instruction_takes` and `callable_takes_iff`
      say what the kinds of datatypes take.
    * `mentions`: a datatype is of a kind, or a part of it is.
    * `accepts_orders`: acceptance is reflexive and antisymmetric. It is transitive
      from a datatype that mentions no instruction, and one that does not mention
      `Any` either accepts nothing but itself.

  Transitivity does not go further: `Instruction` accepts `Array<Any>`, which
  accepts every array, but only some arrays can be run.
-/

import Mandate.Proofs.Acceptance
import Mathlib.Data.List.Forall2

namespace Mandate.Datatype

/-! ## Induction over kinds -/

/-- The kinds without parts that accept only themselves. -/
def primitives : List Kind := [.string, .number, .boolean]

/-- The kinds with parameters and a result. -/
def callables : List Kind := [.function, .closure]

variable {a b c : Datatype} {as bs cs : List Datatype} {k : Kind}

theorem wellFormed_callable (hk : k ∈ callables) :
    (mk k as (some a)).WellFormed ↔ (∀ p ∈ as, p.WellFormed) ∧ a.WellFormed := by
  simp only [callables, List.mem_cons, List.not_mem_nil, or_false] at hk
  rcases hk with rfl | rfl
  · exact wellFormed_function
  · exact wellFormed_closure

theorem wellFormed_primitive (hk : k ∈ primitives) : (ofKind k).WellFormed := by
  simp only [primitives, List.mem_cons, List.not_mem_nil, or_false] at hk
  rcases hk with rfl | rfl | rfl <;> rfl

/-- Induction over the datatypes that a program can write, with one case for the primitive kinds
and one for functions and closures. -/
@[elab_as_elim]
theorem WellFormed.inductKinds {motive : (t : Datatype) → t.WellFormed → Prop}
    (any : motive any rfl)
    (primitive : ∀ k (hk : k ∈ primitives), motive (ofKind k) (wellFormed_primitive hk))
    (instruction : motive instruction rfl)
    (array : ∀ e (he : e.WellFormed), motive e he → motive (array e) he)
    (callable : ∀ k (hk : k ∈ callables) ps r (hps : ∀ p ∈ ps, p.WellFormed) (hr : r.WellFormed),
      (∀ p (hp : p ∈ ps), motive p (hps p hp)) → motive r hr →
      motive (mk k ps (some r)) ((wellFormed_callable hk).2 ⟨hps, hr⟩)) :
    ∀ {t : Datatype} (h : t.WellFormed), motive t h := by
  intro t h
  induction h using WellFormed.induct with
  | any => exact any
  | string => exact primitive .string (by decide)
  | number => exact primitive .number (by decide)
  | boolean => exact primitive .boolean (by decide)
  | instruction => exact instruction
  | array e he ih => exact array e he ih
  | function ps r hps hr ihps ihr => exact callable .function (by decide) ps r hps hr ihps ihr
  | closure ps r hps hr ihps ihr => exact callable .closure (by decide) ps r hps hr ihps ihr

/-! ## What the kinds take -/

/-- A value of the second datatype may stand where one of the first is required. -/
def Takes (expected actual : Datatype) : Prop := expected.accepts actual = .ok true

/-- Only `Any` takes what may be anything. -/
theorem takes_any (ha : a.WellFormed) (h : a.Takes any) : a = any := by
  induction ha using WellFormed.induct with
  | any => rfl
  | _ => cases h

theorem primitive_takes_iff (hk : k ∈ primitives) (hb : b.WellFormed) :
    (ofKind k).Takes b ↔ b = ofKind k := by
  simp only [primitives, List.mem_cons, List.not_mem_nil, or_false] at hk
  rcases hk with rfl | rfl | rfl
  · exact string_accepts_iff hb
  · exact number_accepts_iff hb
  · exact boolean_accepts_iff hb

theorem instruction_takes (hb : b.WellFormed) (h : instruction.Takes b) :
    b = instruction ∨ ∃ e, b = array e :=
  (instruction_accepts hb h).imp_right fun ⟨e, he, _⟩ => ⟨e, he⟩

theorem not_array_takes_instruction : ¬(array a).Takes instruction := by
  intro h
  cases h

theorem array_takes_array : (array a).Takes (array b) ↔ a.Takes b := by
  rw [Takes, array_accepts_array, Takes]

theorem array_takes (hb : b.WellFormed) (h : (array a).Takes b) :
    ∃ e, b = array e ∧ e.WellFormed ∧ a.Takes e :=
  array_accepts hb h

theorem acceptsAll_iff (hlength : as.length = bs.length) :
    acceptsAll as bs = .ok true ↔ List.Forall₂ Takes as bs := by
  induction as generalizing bs with
  | nil =>
    rw [List.length_eq_zero_iff.1 hlength.symm]
    exact iff_of_true rfl .nil
  | cons a as ih =>
    cases bs with
    | nil => cases hlength
    | cons b bs =>
      rw [List.forall₂_cons, ← ih (Nat.succ.inj hlength), acceptsAll, Takes]
      split
      · next h => simp [h]
      · next h => exact iff_of_false h fun hall => h hall.1

/-- Parameters are compared if there are as many of them, and the results if the parameters are
accepted. -/
theorem callable_accepts (hk : k ∈ callables) :
    (mk k as (some a)).accepts (mk k bs (some b)) =
      if as.length = bs.length then
        acceptsAll as bs >>= fun fit => if fit then a.accepts b else .ok false
      else .ok false := by
  simp only [callables, List.mem_cons, List.not_mem_nil, or_false] at hk
  rcases hk with rfl | rfl <;>
  · by_cases hlength : as.length = bs.length
    · rw [if_pos hlength]
      refine (if_pos hlength).trans ?_
      dsimp only [args]
      rcases acceptsAll as bs with _ | _ | _ <;> rfl
    · rw [if_neg hlength]
      exact if_neg hlength

theorem callable_takes_iff_acceptsAll (hk : k ∈ callables) :
    (mk k as (some a)).Takes (mk k bs (some b)) ↔
      as.length = bs.length ∧ acceptsAll as bs = .ok true ∧ a.Takes b := by
  rw [Takes, callable_accepts hk, Takes]
  by_cases hlength : as.length = bs.length
  · rw [if_pos hlength]
    rcases acceptsAll as bs with e | fit
    · simp [bind, Except.bind]
    · cases fit <;> simp [bind, Except.bind, hlength]
  · simp [hlength]

/-- A function takes a function with parameters and a result that its own take one by one, and so
does a closure with closures. -/
theorem callable_takes_iff (hk : k ∈ callables) :
    (mk k as (some a)).Takes (mk k bs (some b)) ↔ List.Forall₂ Takes as bs ∧ a.Takes b := by
  rw [callable_takes_iff_acceptsAll hk]
  constructor
  · rintro ⟨hlength, hall, hreturn⟩
    exact ⟨(acceptsAll_iff hlength).1 hall, hreturn⟩
  · rintro ⟨hall, hreturn⟩
    exact ⟨hall.length_eq, (acceptsAll_iff hall.length_eq).2 hall, hreturn⟩

/-- What a function or closure takes is one, too. -/
theorem callable_takes (hk : k ∈ callables) (hb : b.WellFormed)
    (h : (mk k as (some a)).Takes b) :
    ∃ bs r, b = mk k bs (some r) ∧ (∀ p ∈ bs, p.WellFormed) ∧ r.WellFormed ∧
      List.Forall₂ Takes as bs ∧ a.Takes r := by
  obtain ⟨bs, r, rfl⟩ := kind_of_accepts hk rfl h
  cases r with
  | none =>
    simp only [callables, List.mem_cons, List.not_mem_nil, or_false] at hk
    rcases hk with rfl | rfl <;> cases hb
  | some r =>
    obtain ⟨hbs, hr⟩ := (wellFormed_callable hk).1 hb
    obtain ⟨hall, hreturn⟩ := (callable_takes_iff hk).1 h
    exact ⟨bs, r, rfl, hbs, hr, hall, hreturn⟩

/-! ## Reflexive and antisymmetric -/

theorem takes_refl (ha : a.WellFormed) : a.Takes a := by
  induction ha using WellFormed.inductKinds with
  | any => rfl
  | primitive k hk => exact (primitive_takes_iff hk (wellFormed_primitive hk)).2 rfl
  | instruction => rfl
  | array e _ ih => exact array_takes_array.2 ih
  | callable k hk ps r _ _ ihps ihr =>
    exact (callable_takes_iff hk).2 ⟨List.forall₂_same.2 ihps, ihr⟩

/-- Lists whose members are equal as far as they are related are equal if they are related. -/
theorem eq_of_forall₂ {R : Datatype → Datatype → Prop} (h : List.Forall₂ R as bs)
    (heq : ∀ p ∈ as, ∀ q ∈ bs, R p q → p = q) : as = bs := by
  induction h with
  | nil => rfl
  | @cons p q as bs hpq _ ih =>
    rw [heq p List.mem_cons_self q List.mem_cons_self hpq, ih fun p' hp' q' hq' =>
      heq p' (List.mem_cons_of_mem p hp') q' (List.mem_cons_of_mem q hq')]

theorem takes_antisymm (ha : a.WellFormed) :
    ∀ b : Datatype, b.WellFormed → a.Takes b → b.Takes a → a = b := by
  induction ha using WellFormed.inductKinds with
  | any => exact fun b hb _ hba => (takes_any hb hba).symm
  | primitive k hk => exact fun b hb hab _ => ((primitive_takes_iff hk hb).1 hab).symm
  | instruction =>
    intro b hb hab hba
    rcases instruction_takes hb hab with rfl | ⟨e, rfl⟩
    · rfl
    · exact absurd hba not_array_takes_instruction
  | array e _ ih =>
    intro b hb hab hba
    obtain ⟨e', rfl, he', hee'⟩ := array_takes hb hab
    rw [ih e' he' hee' (array_takes_array.1 hba)]
  | callable k hk ps r _ _ ihps ihr =>
    intro b hb hab hba
    obtain ⟨qs, s, rfl, hqs, hs, hall, hreturn⟩ := callable_takes hk hb hab
    obtain ⟨hall', hreturn'⟩ := (callable_takes_iff hk).1 hba
    have hboth : List.Forall₂ (fun p q => p.Takes q ∧ q.Takes p) ps qs :=
      hall.mp (fun _ _ => And.intro) hall'.flip
    have hparams := eq_of_forall₂ hboth fun p hp q hq h => ihps p hp q (hqs q hq) h.1 h.2
    rw [hparams, ihr s hs hreturn hreturn']

/-! ## Kinds that a datatype mentions -/

mutual

/-- Whether a datatype is of a kind, or a part of it is. -/
def mentions (k : Kind) : Datatype → Bool
  | .mk k' as r => k' == k || mentionsAny k as || mentionsReturn k r
  | .foreign _ => false

/-- Whether one of several datatypes mentions a kind. -/
def mentionsAny (k : Kind) : List Datatype → Bool
  | [] => false
  | t :: ts => t.mentions k || mentionsAny k ts

/-- Whether a result mentions a kind. -/
def mentionsReturn (k : Kind) : Option Datatype → Bool
  | none => false
  | some t => t.mentions k

end

theorem mentionsAny_eq_false : mentionsAny k as = false ↔ ∀ t ∈ as, t.mentions k = false := by
  induction as with
  | nil => simp [mentionsAny]
  | cons t ts ih => simp [mentionsAny, ih]

theorem mentions_array (h : (array a).mentions k = false) : a.mentions k = false := by
  simp only [array, mentions, mentionsAny, mentionsReturn, Bool.or_false, Bool.or_eq_false_iff] at h
  exact h.2

theorem mentions_callable {k' : Kind} (h : (mk k' as (some a)).mentions k = false) :
    (∀ p ∈ as, p.mentions k = false) ∧ a.mentions k = false := by
  simp only [mentions, mentionsReturn, Bool.or_eq_false_iff, mentionsAny_eq_false] at h
  exact ⟨h.1.2, h.2⟩

/-! ## Transitive away from instructions -/

theorem forall₂_takes_trans
    (h : ∀ p ∈ as, ∀ q r : Datatype, q.WellFormed → r.WellFormed → p.Takes q → q.Takes r →
      p.Takes r)
    (hbs : ∀ q ∈ bs, q.WellFormed) (hcs : ∀ r ∈ cs, r.WellFormed)
    (hab : List.Forall₂ Takes as bs) (hbc : List.Forall₂ Takes bs cs) :
    List.Forall₂ Takes as cs := by
  induction hab generalizing cs with
  | nil => exact hbc
  | @cons p q as bs hpq _ ih =>
    obtain ⟨r, cs, hqr, hrest, rfl⟩ := List.forall₂_cons_left_iff.1 hbc
    rw [List.forall_mem_cons] at h hbs hcs
    exact .cons (h.1 q r hbs.1 hcs.1 hpq hqr) (ih h.2 hbs.2 hcs.2 hrest)

theorem takes_trans (ha : a.WellFormed) (hmentions : a.mentions .instruction = false) :
    ∀ b c : Datatype, b.WellFormed → c.WellFormed → a.Takes b → b.Takes c → a.Takes c := by
  induction ha using WellFormed.inductKinds with
  | any => exact fun _ c _ _ _ _ => any_accepts c
  | primitive k hk =>
    intro b c hb _ hab hbc
    rwa [(primitive_takes_iff hk hb).1 hab] at hbc
  | instruction => cases hmentions
  | array e _ ih =>
    intro b c hb hc hab hbc
    obtain ⟨e', rfl, he', hee'⟩ := array_takes hb hab
    obtain ⟨e'', rfl, he'', he'e''⟩ := array_takes hc hbc
    exact array_takes_array.2 (ih (mentions_array hmentions) e' e'' he' he'' hee' he'e'')
  | callable k hk ps r _ _ ihps ihr =>
    intro b c hb hc hab hbc
    obtain ⟨hps, hr⟩ := mentions_callable hmentions
    obtain ⟨qs, s, rfl, hqs, hs, hall, hreturn⟩ := callable_takes hk hb hab
    obtain ⟨us, v, rfl, hus, hv, hall', hreturn'⟩ := callable_takes hk hc hbc
    have hparams := forall₂_takes_trans (fun p hp => ihps p hp (hps p hp)) hqs hus hall hall'
    exact (callable_takes_iff hk).2 ⟨hparams, ihr hr s v hs hv hreturn hreturn'⟩

/-! ## Datatypes that take only themselves -/

theorem eq_of_takes (ha : a.WellFormed) (hany : a.mentions .any = false)
    (hinstruction : a.mentions .instruction = false) :
    ∀ b : Datatype, b.WellFormed → a.Takes b → a = b := by
  induction ha using WellFormed.inductKinds with
  | any => cases hany
  | primitive k hk => exact fun b hb hab => ((primitive_takes_iff hk hb).1 hab).symm
  | instruction => cases hinstruction
  | array e _ ih =>
    intro b hb hab
    obtain ⟨e', rfl, he', hee'⟩ := array_takes hb hab
    rw [ih (mentions_array hany) (mentions_array hinstruction) e' he' hee']
  | callable k hk ps r _ _ ihps ihr =>
    intro b hb hab
    obtain ⟨hps, hr⟩ := mentions_callable hany
    obtain ⟨hps', hr'⟩ := mentions_callable hinstruction
    obtain ⟨qs, s, rfl, hqs, hs, hall, hreturn⟩ := callable_takes hk hb hab
    have hparams := eq_of_forall₂ hall fun p hp q hq =>
      ihps p hp (hps p hp) (hps' p hp) q (hqs q hq)
    rw [hparams, ihr hr hr' s hs hreturn]

/-! ## The order -/

/-- Acceptance orders the datatypes that a program can write, as far as no instruction is
involved in what is required; without `Any`, nothing but the same datatype will do. -/
theorem accepts_orders (ha : a.WellFormed) (hb : b.WellFormed) (hc : c.WellFormed) :
    a.accepts a = .ok true ∧
    (a.accepts b = .ok true → b.accepts a = .ok true → a = b) ∧
    (a.mentions .instruction = false →
      a.accepts b = .ok true → b.accepts c = .ok true → a.accepts c = .ok true) ∧
    (a.mentions .any = false → a.mentions .instruction = false →
      (a.accepts b = .ok true ↔ a = b)) := by
  refine ⟨takes_refl ha, takes_antisymm ha b hb, fun h => takes_trans ha h b c hb hc, ?_⟩
  intro hany hinstruction
  refine ⟨eq_of_takes ha hany hinstruction b hb, ?_⟩
  rintro rfl
  exact takes_refl ha

/-- A closure that takes any arrays and gives a function, and what fits it more and more
closely. -/
theorem accepts_orders_nested :
    let broad := closure [array any] (function [any] number)
    let middle := closure [array any] (function [instruction] number)
    let narrow := closure [array number] (function [array any] number)
    broad.accepts middle = .ok true ∧ middle.accepts narrow = .ok true ∧
      broad.accepts narrow = .ok true ∧ middle.accepts broad = .ok false ∧
      (number.accepts narrow = .ok true ↔ number = narrow) := by
  intro broad middle narrow
  have h := accepts_orders (a := broad) (b := middle) (c := narrow) rfl rfl rfl
  have hnumber := accepts_orders (a := number) (b := narrow) (c := narrow) rfl rfl rfl
  exact ⟨rfl, rfl, h.2.2.1 rfl rfl rfl, rfl, hnumber.2.2.2 rfl rfl⟩

/-- From `Instruction`, acceptance is not transitive. -/
example : instruction.accepts (array any) = .ok true ∧
    (array any).accepts (array number) = .ok true ∧
    instruction.accepts (array number) = .ok false :=
  ⟨rfl, rfl, rfl⟩

end Mandate.Datatype
