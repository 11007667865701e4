/-
  Mandate.Proofs.Acceptance

  Acceptance between datatypes that a program can write.

    * `WellFormed.induct` is induction over these datatypes.
    * `accepts_eq_ok`: acceptance of one by another is always decided.
    * `fault?_eq_none`: each of them has a printed form.
    * `rank_le_of_accepts`: what is accepted is nested in at least as many arrays
      as what is required, so an array never makes way for something else.
-/

import Mandate.Datatype

namespace Mandate.Datatype

/-! ## Well-formed datatypes -/

theorem wellFormedAll_iff {ts : List Datatype} :
    wellFormedAll ts = true ↔ ∀ t ∈ ts, t.WellFormed := by
  induction ts with
  | nil => simp [wellFormedAll]
  | cons t ts ih => simp [wellFormedAll, WellFormed, ih]

theorem wellFormed_string : string.WellFormed := rfl

theorem wellFormed_number : number.WellFormed := rfl

theorem wellFormed_boolean : boolean.WellFormed := rfl

theorem wellFormed_instruction : instruction.WellFormed := rfl

theorem wellFormed_anyArray : anyArray.WellFormed := rfl

theorem wellFormed_function {ps : List Datatype} {r : Datatype} :
    (function ps r).WellFormed ↔ (∀ p ∈ ps, p.WellFormed) ∧ r.WellFormed := by
  rw [← wellFormedAll_iff]
  exact Bool.and_eq_true _ _ ▸ Iff.rfl

theorem wellFormed_closure {ps : List Datatype} {r : Datatype} :
    (closure ps r).WellFormed ↔ (∀ p ∈ ps, p.WellFormed) ∧ r.WellFormed := by
  rw [← wellFormedAll_iff]
  exact Bool.and_eq_true _ _ ▸ Iff.rfl

/-- A well-formed datatype of a kind without parts has none. -/
theorem WellFormed.bare {k : Kind} {as : List Datatype} {r : Option Datatype}
    (h : (mk k as r).WellFormed) (hk : k ∉ [Kind.array, .function, .closure]) :
    as = [] ∧ r = none := by
  cases k <;> simp_all [WellFormed, wellFormed]

/-- Induction over the datatypes that a program can write. -/
@[elab_as_elim]
theorem WellFormed.induct {motive : (t : Datatype) → t.WellFormed → Prop}
    (any : motive any rfl) (string : motive string rfl) (number : motive number rfl)
    (boolean : motive boolean rfl) (instruction : motive instruction rfl)
    (array : ∀ e (he : e.WellFormed), motive e he → motive (array e) he)
    (function : ∀ ps r (hps : ∀ p ∈ ps, p.WellFormed) (hr : r.WellFormed),
      (∀ p (hp : p ∈ ps), motive p (hps p hp)) → motive r hr →
      motive (function ps r) (wellFormed_function.2 ⟨hps, hr⟩))
    (closure : ∀ ps r (hps : ∀ p ∈ ps, p.WellFormed) (hr : r.WellFormed),
      (∀ p (hp : p ∈ ps), motive p (hps p hp)) → motive r hr →
      motive (closure ps r) (wellFormed_closure.2 ⟨hps, hr⟩)) :
    ∀ {t : Datatype} (h : t.WellFormed), motive t h := by
  -- The parts of a datatype are lists of datatypes, so the induction runs over both at once.
  refine @Datatype.rec (fun t => ∀ h : t.WellFormed, motive t h)
    (fun ts => ∀ t ∈ ts, ∀ h : t.WellFormed, motive t h)
    (fun r => ∀ t ∈ r, ∀ h : t.WellFormed, motive t h) ?_ ?_ ?_ ?_ ?_ ?_
  · intro k as r has hr h
    cases k with
    | any =>
      obtain ⟨rfl, rfl⟩ := h.bare (by decide)
      exact any
    | string =>
      obtain ⟨rfl, rfl⟩ := h.bare (by decide)
      exact string
    | number =>
      obtain ⟨rfl, rfl⟩ := h.bare (by decide)
      exact number
    | boolean =>
      obtain ⟨rfl, rfl⟩ := h.bare (by decide)
      exact boolean
    | instruction =>
      obtain ⟨rfl, rfl⟩ := h.bare (by decide)
      exact instruction
    | array =>
      match as, r, h with
      | [e], none, h => exact array e h (has e (by simp) h)
    | function =>
      match r, h with
      | some r, h =>
        obtain ⟨hps, hres⟩ := wellFormed_function.1 h
        exact function as r hps hres (fun p hp => has p hp (hps p hp)) (hr r rfl hres)
    | closure =>
      match r, h with
      | some r, h =>
        obtain ⟨hps, hres⟩ := wellFormed_closure.1 h
        exact closure as r hps hres (fun p hp => has p hp (hps p hp)) (hr r rfl hres)
  · intro f h
    cases h
  · intro t ht
    cases ht
  · intro t ts iht ihts u hu
    rcases List.mem_cons.1 hu with rfl | hu
    · exact iht
    · exact ihts u hu
  · intro t ht
    cases ht
  · intro t iht u hu
    cases hu
    exact iht

/-! ## What a datatype accepts -/

attribute [local simp] any string number boolean instruction array function closure ofKind
  hasKind kind runnable accepts acceptsAll

theorem hasKind_iff {a : Datatype} {k : Kind} :
    a.hasKind k = .ok true ↔ ∃ as r, a = mk k as r := by
  cases a with
  | mk k' as r => simp [eq_comm]
  | foreign f =>
    unfold hasKind kind
    by_cases h : f.kind?.isSome <;> simp [h]

/-- Of the kinds without parts there is one well-formed datatype each. -/
theorem hasKind_iff_eq_ofKind {a : Datatype} (h : a.WellFormed) {k : Kind}
    (hk : k ∉ [Kind.array, .function, .closure]) : a.hasKind k = .ok true ↔ a = ofKind k := by
  rw [hasKind_iff]
  constructor
  · rintro ⟨as, r, rfl⟩
    rw [(h.bare hk).1, (h.bare hk).2, ofKind]
  · rintro rfl
    exact ⟨[], none, rfl⟩

theorem any_accepts (a : Datatype) : any.accepts a = .ok true := rfl

theorem string_accepts_iff {a : Datatype} (h : a.WellFormed) :
    string.accepts a = .ok true ↔ a = string :=
  hasKind_iff_eq_ofKind h (by decide)

theorem number_accepts_iff {a : Datatype} (h : a.WellFormed) :
    number.accepts a = .ok true ↔ a = number :=
  hasKind_iff_eq_ofKind h (by decide)

theorem boolean_accepts_iff {a : Datatype} (h : a.WellFormed) :
    boolean.accepts a = .ok true ↔ a = boolean :=
  hasKind_iff_eq_ofKind h (by decide)

theorem array_accepts_array (e a : Datatype) : (array e).accepts (array a) = e.accepts a := by
  simp [args]

theorem array_accepts {e a : Datatype} (h : a.WellFormed)
    (hacc : (array e).accepts a = .ok true) :
    ∃ a', a = array a' ∧ a'.WellFormed ∧ e.accepts a' = .ok true := by
  induction h using WellFormed.induct with
  | array a' ha' _ => exact ⟨a', rfl, ha', by rwa [array_accepts_array] at hacc⟩
  | _ => exact absurd hacc (by simp)

theorem instruction_accepts {a : Datatype} (h : a.WellFormed)
    (hacc : instruction.accepts a = .ok true) :
    a = instruction ∨ ∃ e, a = array e ∧ e.WellFormed := by
  induction h using WellFormed.induct with
  | instruction => exact .inl rfl
  | array e he _ => exact .inr ⟨e, rfl, he⟩
  | _ => exact absurd hacc (by simp)

/-- What accepts a function is itself one, or accepts anything. -/
theorem kind_of_accepts {e a : Datatype} {k : Kind} (hk : k ∈ [Kind.function, .closure])
    {ps : List Datatype} {r : Option Datatype} (he : e = mk k ps r)
    (hacc : e.accepts a = .ok true) : ∃ ps' r', a = mk k ps' r' := by
  rw [← hasKind_iff]
  subst he
  simp only [List.mem_cons, List.not_mem_nil, or_false] at hk
  rcases hk with rfl | rfl <;>
  · rw [accepts] at hacc
    split at hacc
    · assumption
    · next other => exact hacc

/-! ## Acceptance is decided -/

theorem hasKind_eq_ok {a : Datatype} (h : a.WellFormed) (k : Kind) :
    ∃ b, a.hasKind k = .ok b := by
  cases a with
  | mk k' as r => exact ⟨_, rfl⟩
  | foreign f => cases h

theorem runnable_eq_ok {a : Datatype} (h : a.WellFormed) : ∃ b, a.runnable = .ok b := by
  induction h using WellFormed.induct with
  | array e he _ =>
    cases e with
    | mk k as r => exact ⟨_, rfl⟩
    | foreign f => cases he
  | _ => exact ⟨_, rfl⟩

theorem acceptsAll_eq_ok {ps as : List Datatype}
    (hps : ∀ p ∈ ps, ∀ a, WellFormed a → ∃ b, p.accepts a = .ok b)
    (has : ∀ a ∈ as, a.WellFormed) : ∃ b, acceptsAll ps as = .ok b := by
  induction ps generalizing as with
  | nil => exact ⟨true, by simp⟩
  | cons p ps ih =>
    cases as with
    | nil => exact ⟨true, by simp⟩
    | cons a as =>
      obtain ⟨b, hb⟩ := hps p (by simp) a (has a (by simp))
      rw [acceptsAll, hb]
      cases b with
      | true => exact ih (fun q hq => hps q (by simp [hq])) (fun c hc => has c (by simp [hc]))
      | false => exact ⟨false, rfl⟩

/-- A function or closure decides about a datatype if its parts do. -/
theorem callable_accepts_eq_ok {k : Kind} (hk : k ∈ [Kind.function, .closure])
    {ps : List Datatype} {r a : Datatype}
    (hps : ∀ p ∈ ps, ∀ a, WellFormed a → ∃ b, p.accepts a = .ok b)
    (hr : ∀ a, WellFormed a → ∃ b, r.accepts a = .ok b) (ha : a.WellFormed) :
    ∃ b, (mk k ps (some r)).accepts a = .ok b := by
  -- The arguments are compared only if the kinds agree, and the results only after them.
  have parts : a.hasKind k = .ok true → ∃ b, acceptsAll ps a.args = .ok b ∧
      ∃ c, acceptsReturn (some r) (a.returns.getD absent) = .ok c := by
    intro h
    obtain ⟨as, ret, rfl⟩ := hasKind_iff.1 h
    have hparts : (∀ t ∈ as, t.WellFormed) ∧ ∃ t, ret = some t ∧ t.WellFormed := by
      simp only [List.mem_cons, List.not_mem_nil, or_false] at hk
      cases ret with
      | none => rcases hk with rfl | rfl <;> cases ha
      | some t =>
        rcases hk with rfl | rfl
        · exact ⟨(wellFormed_function.1 ha).1, t, rfl, (wellFormed_function.1 ha).2⟩
        · exact ⟨(wellFormed_closure.1 ha).1, t, rfl, (wellFormed_closure.1 ha).2⟩
    obtain ⟨has, t, rfl, ht⟩ := hparts
    obtain ⟨b, hb⟩ := acceptsAll_eq_ok hps has
    obtain ⟨c, hc⟩ := hr t ht
    exact ⟨b, hb, c, hc⟩
  obtain ⟨b, hb⟩ := hasKind_eq_ok ha k
  simp only [List.mem_cons, List.not_mem_nil, or_false] at hk
  cases b with
  | false => rcases hk with rfl | rfl <;> exact ⟨false, by rw [accepts, hb]⟩
  | true =>
    obtain ⟨b, hargs, c, hret⟩ := parts hb
    rcases hk with rfl | rfl <;>
    · rw [accepts, hb]
      by_cases hlen : ps.length = a.args.length
      · cases b with
        | true => exact ⟨c, by simp [hlen, hargs, hret]⟩
        | false => exact ⟨false, by simp [hlen, hargs]⟩
      · exact ⟨false, by simp [hlen]⟩

/-- Between well-formed datatypes acceptance is always decided. -/
theorem accepts_eq_ok {e : Datatype} (he : e.WellFormed) :
    ∀ a : Datatype, a.WellFormed → ∃ b, e.accepts a = .ok b := by
  induction he using WellFormed.induct with
  | any => exact fun a _ => ⟨true, any_accepts a⟩
  | string => exact fun a ha => hasKind_eq_ok ha .string
  | number => exact fun a ha => hasKind_eq_ok ha .number
  | boolean => exact fun a ha => hasKind_eq_ok ha .boolean
  | instruction => exact fun a ha => runnable_eq_ok ha
  | array e _ ih =>
    intro a ha
    induction ha using WellFormed.induct with
    | array a ha _ =>
      rw [array_accepts_array]
      exact ih a ha
    | _ => exact ⟨false, by simp⟩
  | function ps r _ _ ihps ihr => exact fun a ha => callable_accepts_eq_ok (by simp) ihps ihr ha
  | closure ps r _ _ ihps ihr => exact fun a ha => callable_accepts_eq_ok (by simp) ihps ihr ha

/-! ## Arrays stay arrays -/

/-- How many arrays a datatype is nested in. -/
def rank : Datatype → Nat
  | .mk .array (e :: _) _ => e.rank + 1
  | _ => 0

theorem rank_array (e : Datatype) : (array e).rank = e.rank + 1 := by
  rw [array, rank]

/-- A datatype of positive rank is that of an array. -/
theorem WellFormed.array_of_rank {t : Datatype} (h : t.WellFormed) (hr : 0 < t.rank) :
    ∃ e, t = Datatype.array e ∧ e.WellFormed := by
  induction h using WellFormed.induct with
  | array e he _ => exact ⟨e, rfl, he⟩
  | _ => simp [rank] at hr

theorem array_accepts_iff {e a : Datatype} {es : List Datatype} {r : Option Datatype} :
    (mk .array (e :: es) r).accepts a = .ok true ↔
      ∃ x xs r', a = mk .array (x :: xs) r' ∧ e.accepts x = .ok true := by
  rw [accepts]
  constructor
  · intro h
    split at h
    · next hkind =>
      obtain ⟨xs, r', rfl⟩ := hasKind_iff.1 hkind
      cases xs with
      | nil => cases h
      | cons x xs => exact ⟨x, xs, r', rfl, h⟩
    · next hkind => exact absurd h hkind
  · rintro ⟨x, xs, r', rfl, h⟩
    exact h

/-- What is accepted is nested in at least as many arrays, whatever else the datatypes are. -/
theorem rank_le_of_accepts : (e a : Datatype) → e.accepts a = .ok true → e.rank ≤ a.rank
  | .mk .array (e :: es) r, a, h => by
    obtain ⟨x, xs, r', rfl, hx⟩ := array_accepts_iff.1 h
    rw [rank, rank]
    exact Nat.succ_le_succ (rank_le_of_accepts e x hx)
  | .mk .array [] _, _, _ | .mk .any _ _, _, _ | .mk .string _ _, _, _ | .mk .number _ _, _, _
  | .mk .boolean _ _, _, _ | .mk .instruction _ _, _, _ | .mk .function _ _, _, _
  | .mk .closure _ _, _, _ | .foreign _, _, _ => by simp [rank]

/-- A datatype that is nested in an array is that of an array with an element. -/
theorem exists_of_rank_pos {t : Datatype} (h : 0 < t.rank) :
    ∃ e es r, t = mk .array (e :: es) r := by
  unfold rank at h
  split at h
  · exact ⟨_, _, _, rfl⟩
  · exact absurd h (Nat.lt_irrefl 0)

/-! ## Printed forms -/

theorem faultAll?_eq_none {ts : List Datatype} (h : ∀ t ∈ ts, t.fault? = none) :
    faultAll? ts = none := by
  induction ts with
  | nil => rfl
  | cons t ts ih =>
    rw [faultAll?, h t (by simp), ih fun u hu => h u (by simp [hu])]
    rfl

/-- What a program can write has a printed form. -/
theorem fault?_eq_none {t : Datatype} (h : t.WellFormed) : t.fault? = none := by
  induction h using WellFormed.induct with
  | array e _ ih => rw [array, fault?, ih]
  | function ps r _ _ ihps ihr =>
    rw [function, fault?, faultAll?_eq_none ihps, faultReturn?, ihr]
    rfl
  | closure ps r _ _ ihps ihr =>
    rw [closure, fault?, faultAll?_eq_none ihps, faultReturn?, ihr]
    rfl
  | _ => rfl

theorem shown_eq_ok {t : Datatype} (h : t.WellFormed) : t.shown = .ok t.text := by
  rw [shown, fault?_eq_none h]

end Mandate.Datatype
