/-
  Mandate.Proofs.DataInvariants

  What holds of the data of every state of a run.

  A `DataInvariant` says what may occur in values, and what scopes and closures lead to.
  A run corresponds to itself as far as the invariant holds, so that the rules of the
  language keep it.

    * `DataInvariant.Holds`: what an invariant says of a state.
    * `DataInvariant.correspondence`: two runs that are in the same states, traces aside,
      and keep an invariant.
    * `DataInvariant.run_outcomes`: running a part of a program keeps an invariant.
      By `DataInvariant.holds_final` and `DataInvariant.halts_of_error` it holds however
      the run ends, and an error is made of what may occur.
-/

import Mandate.Proofs.Correspondences

namespace Mandate

/-- What is kept by a run. What is said of scopes and closures may depend on how many cells there
are. -/
structure DataInvariant extends Code where
  closures : Nat → Closure → Prop
  /-- Which scopes there may be, given what `self` stands for. -/
  scopes : Nat → Option Payload → Scope → Prop
  closures_mono : ∀ {n k c}, n ≤ k → closures n c → closures k c
  scopes_mono : ∀ {n k self s}, n ≤ k → scopes n self s → scopes k self s
  body_runs : ∀ {n c}, closures n c → nodes c.body
  /-- Names lead to cells that are there, unless a value may come from nowhere. -/
  reaches : ∀ {n self s x cell}, scopes n self s → s.cell? x = some cell →
    cell < n ∨ vocabulary.origins Origin.none
  declared : ∀ {n self s x o}, targets (.nameTarget x o) → scopes n self s → s.cell? x = none →
    scopes (n + 1) self (⟨x, n⟩ :: s)
  closure : ∀ {n self s id ps r b o}, nodes (.lambda .closure ps r b o) → scopes n self s →
    closures n ⟨id, ps, r, b, o, s⟩
  called : ∀ {n p c params names bound}, p.EqUpTo vocabulary (.equal (closures n)) p →
    p.Called c → takes c params → Param.names params = .ok names →
      List.IsPrefix bound names → scopes (n + bound.length) (some p) (c.scope.bound n bound)

theorem Payload.Called.unique {p : Payload} {c d : Callee} (hc : p.Called c) (hd : p.Called d) :
    d = c := by
  cases hc <;> cases hd <;> rfl

namespace DataInvariant

variable (I : DataInvariant)

/-- A payload that may occur when there are so many cells. -/
abbrev Payloads (n : Nat) (p : Payload) : Prop := p.EqUpTo I.vocabulary (.equal (I.closures n)) p

/-- A value that may occur. -/
abbrev Values (n : Nat) (v : Value) : Prop := v.EqUpTo I.vocabulary (.equal (I.closures n)) v

/-- What the invariant says of a state, given what `self` stands for. -/
structure Holds (own : Option Payload) (m : Machine) : Prop where
  scope : I.scopes m.store.size own m.scope
  store : ∀ cell, cell < m.store.size ∨ I.vocabulary.origins Origin.none →
    I.Values m.store.size (m.store.get cell)
  lines : ∀ line ∈ m.console.pending, I.vocabulary.Admits line

theorem reaches_rel {n : Nat} {self : Option Payload} {s : Scope} (hs : I.scopes n self s)
    (x : Name) :
    Option.Rel (fun a b => a = b ∧ (a < n ∨ I.vocabulary.origins Origin.none)) (s.cell? x)
      (s.cell? x) := by
  cases hcell : s.cell? x with
  | none => exact .none
  | some cell => exact .some ⟨rfl, I.reaches hs hcell⟩

/-- Two runs that are in the same states, traces aside, and keep an invariant. -/
def correspondence (lenient : Prop) (traces : TraceMatch) : Correspondence where
  toCode := I.toCode
  cells a b := a = b
  left := 0
  right := 0
  closures n c s := s = c.scope ∧ I.closures n c
  scopes n self self' s t := self' = self ∧ t = s ∧ I.scopes n self s
  prompts p q := q = p
  traces := traces
  lenient := lenient
  one_to_one := by
    rintro a _ a' _ rfl rfl
    exact Iff.rfl
  fresh _ := rfl
  closures_mono hle h := ⟨h.1, I.closures_mono hle h.2⟩
  scopes_mono hle h := ⟨h.1, h.2.1, I.scopes_mono hle h.2.2⟩
  asked h := h.eq
  body_runs h := I.body_runs h.2
  visible := by
    rintro n self _ s _ x o - - ⟨rfl, rfl, hs⟩
    exact I.reaches_rel hs x
  assigned := by
    rintro n self _ s _ x o - ⟨rfl, rfl, hs⟩
    exact I.reaches_rel hs x
  declared := by
    rintro n _ self _ s _ x o ht ⟨rfl, rfl, hs⟩ hcell rfl
    exact ⟨rfl, rfl, I.declared ht hs hcell⟩
  closure := by
    rintro n self _ s _ id ps r b o hn ⟨rfl, rfl, hs⟩
    exact ⟨rfl, I.closure hn hs⟩
  called := by
    rintro n k p q c d params names bound hpq hc hd hparams hnames hbound hcells
    obtain rfl : n = k := hcells 0
    obtain rfl := hpq.eq
    obtain rfl := hc.unique hd
    exact ⟨rfl, rfl, I.called hpq hc hparams hnames hbound⟩

/-! ## States -/

variable {I} {lenient : Prop} {traces : TraceMatch} {self self' : Option Payload}
  {m m' : Machine}

theorem Holds.states (h : I.Holds self m) {trace : Trace} (htrace : traces.rel m.trace trace) :
    (I.correspondence lenient traces).States self self m { m with trace := trace } := by
  refine ⟨⟨rfl, rfl, h.scope⟩, ?_, ⟨m.store.size, ?_, ?_⟩, rfl, h.lines, ?_, rfl, htrace⟩
  · rintro cell _ ⟨rfl, hcell⟩
    exact h.store cell hcell
  · exact (Nat.zero_add _).symm
  · exact (Nat.zero_add _).symm
  · refine List.forall₂_same.2 fun message _ => ?_
    cases message with
    | printed line => exact .printed line
    | prompted p line =>
      have hsame : (I.correspondence lenient traces).prompts p p := rfl
      exact .prompted hsame line

section

variable (h : (I.correspondence lenient traces).States self self' m m')

include h

theorem store_eq : m.store = m'.store := by
  obtain ⟨k, hk, hk'⟩ := h.size
  have hsize : m.store.size = m'.store.size := hk.trans hk'.symm
  have hget : ∀ cell < m.store.size, m.store.get cell = m'.store.get cell := fun cell hcell =>
    (h.store cell cell ⟨rfl, .inl hcell⟩).eq.symm
  revert hsize hget
  generalize m.store = s, m'.store = t
  obtain ⟨cells⟩ := s
  obtain ⟨cells'⟩ := t
  intro hsize hget
  refine congrArg Store.mk (Array.ext hsize fun i hi hi' => ?_)
  have hcell : cells.getD i _ = cells'.getD i _ := hget i hi
  rwa [Array.getD_eq_getD_getElem?, Array.getD_eq_getD_getElem?, Array.getElem?_eq_getElem hi,
    Array.getElem?_eq_getElem hi', Option.getD_some, Option.getD_some] at hcell

/-- States that correspond are the same, traces aside, and the invariant holds of them. -/
theorem holds_of_states : I.Holds self m ∧ self' = self ∧ m' = { m with trace := m'.trace } := by
  have hstore := store_eq h
  have hrecord := Message.record_eq h.record
  obtain ⟨hself, hscope, hscopes⟩ := h.scope
  refine ⟨⟨hscopes, fun cell hcell => ?_, h.lines⟩, hself, ?_⟩
  · have hv := h.store cell cell ⟨rfl, hcell⟩
    rwa [← hstore] at hv
  · have hpending := h.pending
    have hobjects := h.objects
    obtain ⟨scope, store, ⟨pending, record⟩, trace, objects⟩ := m
    obtain ⟨scope', store', ⟨pending', record'⟩, trace', objects'⟩ := m'
    dsimp only at hstore hrecord hscope hpending hobjects
    subst hstore hrecord hscope hpending hobjects
    rfl

end

theorem eq_of_values (v w : Value) (m : Machine)
    (h : (I.correspondence lenient traces).relation.Values v w m) : w = v := Value.EqUpTo.eq h

theorem eq_of_results (v? w? : Option Value) (m : Machine)
    (h : (I.correspondence lenient traces).relation.Results v? w? m) : w? = v? := by
  cases h with
  | none => rfl
  | some hv => rw [Value.EqUpTo.eq hv]

/-! ## Runs -/

variable (I) in
/-- A run beside itself. -/
abbrev itself : Correspondence := I.correspondence False .same

section

variable {α : Type} {Q : α → α → Machine → Prop} {r r' : EStateM.Result Halt Machine α}
  (h : I.itself.pairing.Outcomes self self' Q m r r')

include h

theorem holds_final : I.Holds self (Run.final r) := by
  cases h with
  | ok _ hm => exact (holds_of_states hm).1
  | error _ hm => exact (holds_of_states hm).1
  | short h => exact h.elim

theorem halts_of_error {e : Halt} {m₁ : Machine} (hr : r = .error e m₁) : I.itself.Halts e := by
  subst hr
  cases h with
  | error he => exact he
  | short h => exact h.elim

theorem eq_of_outcomes (hQ : ∀ a b m, Q a b m → b = a) : r' = r := by
  cases h with
  | ok hab hm =>
    obtain ⟨-, -, hsame⟩ := holds_of_states hm
    rw [hQ _ _ _ hab, hsame, hm.trace]
  | error _ hm =>
    obtain ⟨-, -, hsame⟩ := holds_of_states hm
    rw [hsame, hm.trace]
  | short h => exact h.elim

end

theorem selves (hself : ∀ p ∈ self, I.Payloads m.store.size p) :
    (I.correspondence lenient traces).relation.Selves m self self := by
  cases self with
  | none => exact .none
  | some p => exact .some (hself p rfl)

variable (I) in
/-- Running a part of a program keeps the invariant. -/
theorem run_outcomes (fuel : Nat) {n : Node} (hself : ∀ p ∈ self, I.Payloads m.store.size p)
    (hn : I.nodes n) (hm : I.Holds self m) :
    I.itself.pairing.Outcomes self self I.itself.relation.Results m
      ((engine fuel).run self n m) ((engine fuel).run self n m) :=
  (I.itself.relation.engine (.inl rfl)).run (selves hself) hn m (hm.states rfl)

end DataInvariant

end Mandate
