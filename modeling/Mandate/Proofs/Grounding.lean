/-
  Mandate.Proofs.Grounding

  Nothing in a run leads to a cell that is not there. Cells come into being one
  after the other and none is taken away, so it is enough that scopes and closures
  only ever hold cells that were made before.

    * `Payload.Below` and `Scope.Below` bound the cells that payloads and scopes lead to.
    * `Machine.Grounded` says of a state that all its cells are there.
    * `DataInvariant.grounded` is the same as an invariant. By `run_grounded` every
      program leaves a grounded state, however it ends.
-/

import Mandate.Proofs.DataInvariants
import Mandate.Proofs.Linking

namespace Mandate

/-! ## Cells below a bound -/

/-- All cells that a payload leads to are below a bound. -/
def Payload.Below (p : Payload) (n : Nat) : Prop := ∀ cell ∈ p.cells, cell < n

/-- All cells that the payload of a value leads to are below a bound. -/
abbrev Value.Below (v : Value) (n : Nat) : Prop := v.payload.Below n

/-- All cells that a scope leads to are below a bound. -/
def Scope.Below (s : Scope) (n : Nat) : Prop := ∀ cell ∈ s.cells, cell < n

namespace Scope

variable {s : Scope} {n k : Nat}

theorem Below.mono (h : s.Below n) (hk : n ≤ k) : s.Below k :=
  fun cell hcell => Nat.lt_of_lt_of_le (h cell hcell) hk

theorem Below.cons (h : s.Below n) (name : Name) : Below (⟨name, n⟩ :: s) (n + 1) := by
  intro cell hcell
  rcases List.mem_cons.1 hcell with rfl | hcell
  · exact Nat.lt_succ_self _
  · exact Nat.lt_succ_of_lt (h cell hcell)

/-- New cells are those that come next. -/
theorem Below.bound (h : s.Below n) (names : List Name) :
    (s.bound n names).Below (n + names.length) := by
  induction names generalizing s n with
  | nil => exact h
  | cons name names ih =>
    rw [List.length_cons, Nat.add_comm names.length, ← Nat.add_assoc]
    exact ih (h.cons name)

theorem mem_cells_of_cell? {x : Name} {cell : Nat}
    (h : s.cell? x = some cell) : cell ∈ s.cells := by
  induction s with
  | nil => cases h
  | cons b s ih =>
    cases hsame : b.name.same x with
    | true =>
      rw [cell?_cons_of_same hsame] at h
      cases h
      exact List.mem_cons_self
    | false =>
      rw [cell?_cons_of_not_same hsame] at h
      exact List.mem_cons_of_mem _ (ih h)

end Scope

namespace Payload

variable {n k : Nat} {p : Payload}

theorem Below.mono (h : p.Below n) (hk : n ≤ k) : p.Below k :=
  fun cell hcell => Nat.lt_of_lt_of_le (h cell hcell) hk

theorem Below.of_cells_eq_nil (h : p.cells = []) : p.Below n := by
  intro cell hcell
  rw [h] at hcell
  cases hcell

/-- A payload that leads to cells below a bound has closures with such scopes. -/
theorem Below.eqUpTo : (p : Payload) → p.Below n →
    p.EqUpTo .all (.equal fun c => c.scope.Below n) p
  | .list ps, h => .list (List.forall₂_same.2 fun p hp =>
      eqUpTo p fun cell hcell => h cell (mem_allCells.2 ⟨p, hp, hcell⟩))
  | .closure c, h => .closure c ⟨rfl, rfl, h⟩
  | .nan _, _ => .nan rfl
  | .text _, _ => .atom rfl fun _ _ => trivial
  | .null, _ | .bool _, _ | .int _, _ | .number _, _ | .node _, _ | .data _, _ =>
    .atom rfl trivial

theorem below_of_eqUpTo {V : Vocabulary} {q : Payload}
    (h : p.EqUpTo V (.equal fun c => c.scope.Below n) q) : p.Below n := by
  induction h using EqUpTo.induct with
  | atom p hp =>
    refine .of_cells_eq_nil ?_
    cases p with
    | list | closure => cases hp
    | _ => rfl
  | list ps qs _ ih =>
    intro cell hcell
    obtain ⟨p, hp, hcell⟩ := mem_allCells.1 hcell
    obtain ⟨i, hi, rfl⟩ := List.getElem_of_mem hp
    exact ((List.forall₂_iff_get.1 ih).2 i hi (ih.length_eq ▸ hi)).2 cell hcell
  | closure c _ _ h => exact h.2.2
  | nan => exact .of_cells_eq_nil rfl

end Payload

/-! ## States -/

/-- Nothing leads to a cell that is not there. -/
structure Machine.Grounded (m : Machine) (callee : Option Payload) : Prop where
  scope : ∀ cell ∈ m.scope.cells, cell < m.store.size
  store : ∀ cell, ∀ next ∈ (m.store.get cell).payload.cells, next < m.store.size
  own : ∀ p ∈ callee, ∀ cell ∈ p.cells, cell < m.store.size

/-- Scopes and closures lead to cells that are there. -/
def DataInvariant.grounded : DataInvariant where
  toCode := .all
  closures n c := c.scope.Below n
  scopes n _ s := s.Below n
  closures_mono hle h := h.mono hle
  scopes_mono hle h := h.mono hle
  body_runs _ := trivial
  reaches _ _ := .inr trivial
  declared _ hs _ := hs.cons _
  closure _ hs := hs
  called := by
    intro n p c params names bound hp hc _ _ _
    refine Scope.Below.bound ?_ bound
    cases hc with
    | function => exact fun _ h => by cases h
    | closure c => exact Payload.below_of_eqUpTo hp

namespace Machine

variable {m : Machine} {self : Option Payload}

theorem Grounded.holds (h : m.Grounded self) : DataInvariant.grounded.Holds self m :=
  ⟨h.scope, fun cell _ => ⟨Payload.Below.eqUpTo _ (h.store cell), rfl, rfl, trivial⟩,
    fun _ _ _ _ => trivial⟩

/-- The state before any program is run. -/
theorem grounded_init (console : Console) : Grounded { console := console } none := by
  refine ⟨fun _ hcell => (by cases hcell), fun cell => ?_, fun _ hp => (by cases hp)⟩
  show (Store.get {} cell).Below 0
  rw [Store.get_of_le _ (Nat.zero_le cell)]
  exact .of_cells_eq_nil rfl

/-- What was called stays grounded too, since no cell is taken away. -/
theorem Grounded.final {α : Type} {Q : α → α → Machine → Prop}
    {r r' : EStateM.Result Halt Machine α} (hm : m.Grounded self)
    (h : DataInvariant.grounded.itself.pairing.Outcomes self self Q m r r') :
    (Run.final r).Grounded self := by
  have hfinal := DataInvariant.holds_final h
  have hsize : m.store.size ≤ (Run.final r).store.size := by
    cases h with
    | ok _ _ hleads => exact hleads.size
    | error _ _ hleads => exact hleads.size
    | short h => exact h.elim
  exact ⟨hfinal.scope, fun cell =>
    Payload.below_of_eqUpTo (hfinal.store cell (.inr trivial)).payload,
    fun p hp => Payload.Below.mono (hm.own p hp) hsize⟩

end Machine

/-! ## Programs -/

section

variable {m : Machine} {self : Option Payload} (hm : m.Grounded self) (fuel : Nat)

include hm

theorem Machine.Grounded.selves : ∀ p ∈ self, DataInvariant.grounded.Payloads m.store.size p :=
  fun p hp => Payload.Below.eqUpTo p (hm.own p hp)

/-- Instructions that are run from a grounded state leave a grounded state. -/
theorem sequence_grounded (o : Origin) {ps : List Payload}
    (hps : ∀ p ∈ ps, p.Below m.store.size) :
    (Run.final (Semantics.sequence (engine fuel) self o ps m)).Grounded self := by
  have hengines := DataInvariant.grounded.itself.relation.engine (.inl (rfl : fuel = fuel))
  refine hm.final (hengines.sequence (DataInvariant.selves (hm.selves)) trivial
    (List.forall₂_same.2 fun p hp => ?_) m (hm.holds.states rfl))
  exact Payload.Below.eqUpTo p (hps p hp)

end

/-- A program that is run from the start leaves a grounded state, however it ends. -/
theorem run_grounded (console : Console) (fuel : Nat) (program : Node) :
    (Run.final (Machine.run { console := console } fuel program)).Grounded none := by
  have hm := Machine.grounded_init console
  exact hm.final (DataInvariant.grounded.run_outcomes fuel (hm.selves) trivial
    hm.holds)

end Mandate
