/-
  Mandate.Proofs.BasicSteps

  What the basic steps do to the state they start from.

    * Cells of a store after one of them changed or one was added.
    * Two steps one after the other, variables that are found or made, and assignments
      to places, each as an equation between outcomes.
-/

import Mandate.Machine

namespace Mandate

/-! ## Cells -/

namespace Store

/-- Beyond its cells a store holds nothing. -/
theorem get_of_le (s : Store) {cell : Nat} (h : s.size ≤ cell) :
    s.get cell = Value.unset Origin.none := by
  simp [get, Array.getD_eq_getD_getElem?, Array.getElem?_eq_none h]

theorem get_push (s : Store) (v : Value) (cell : Nat) :
    (s.push v).get cell = if cell = s.size then v else s.get cell := by
  by_cases hlt : cell < s.size
  · rw [if_neg (by omega), get_push_of_lt s hlt]
  · by_cases heq : cell = s.size
    · rw [if_pos heq, heq, get_push_self]
    · have hnew : (s.push v).size ≤ cell := by
        rw [size_push]
        omega
      rw [if_neg heq, get_of_le _ hnew, get_of_le s (by omega)]

theorem get_set (s : Store) (v : Value) (cell other : Nat) :
    (s.set cell v).get other = if other = cell ∧ cell < s.size then v else s.get other := by
  by_cases heq : other = cell
  · subst heq
    by_cases hlt : other < s.size
    · rw [if_pos ⟨rfl, hlt⟩, get_set_self s hlt]
    · have hold : s.size ≤ other := by omega
      rw [if_neg (by simp [hlt]), get_of_le s hold, get_of_le _ (by rwa [size_set])]
  · rw [if_neg (by simp [heq]), get_set_of_ne s (Ne.symm heq)]

end Store

/-! ## Results of computations -/

theorem ok_bind {ε α β : Type} (a : α) (f : α → Except ε β) : (Except.ok a >>= f) = f a := rfl

theorem exists_of_bind_eq_ok {ε α β : Type} {x : Except ε α} {f : α → Except ε β} {b : β}
    (h : x >>= f = .ok b) : ∃ a, x = .ok a ∧ f a = .ok b := by
  cases x with
  | ok a => exact ⟨a, rfl, h⟩
  | error e => cases h

theorem eq_ok_of_lift {α : Type} {x : Except Fault α} {a : α}
    (h : (liftM x : Except Halt α) = .ok a) : x = .ok a := by
  cases x with
  | ok b =>
    cases h
    rfl
  | error f => cases h

/-! ## Steps -/

namespace Run

variable {α β : Type} {x : Run α} {m m' : Machine}

/-- The state that a run ends in, one way or the other. -/
def final : EStateM.Result Halt Machine α → Machine
  | .ok _ m => m
  | .error _ m => m

theorem bind_of_ok {a : α} (h : x m = .ok a m') (f : α → Run β) : (x >>= f) m = f a m' := by
  show EStateM.bind x f m = f a m'
  rw [EStateM.bind, h]

theorem bind_of_error {e : Halt} (h : x m = .error e m') (f : α → Run β) :
    (x >>= f) m = .error e m' := by
  show EStateM.bind x f m = .error e m'
  rw [EStateM.bind, h]

/-- Two steps that come to an end both do. -/
theorem exists_of_bind_ok {f : α → Run β} {b : β}
    (h : (x >>= f) m = .ok b m') : ∃ a m₁, x m = .ok a m₁ ∧ f a m₁ = .ok b m' := by
  cases hx : x m with
  | ok a m₁ =>
    rw [bind_of_ok hx] at h
    exact ⟨a, m₁, rfl, h⟩
  | error e m₁ =>
    rw [bind_of_error hx] at h
    cases h

/-- Of two steps that do not come to an end one does not. -/
theorem exists_of_bind_error {e : Halt} {f : α → Run β}
    (h : (x >>= f) m = .error e m') :
    x m = .error e m' ∨ ∃ a m₁, x m = .ok a m₁ ∧ f a m₁ = .error e m' := by
  cases hx : x m with
  | ok a m₁ =>
    rw [bind_of_ok hx] at h
    exact .inr ⟨a, m₁, rfl, h⟩
  | error e m₁ =>
    rw [bind_of_error hx] at h
    cases h
    exact .inl rfl

theorem get_bind (f : Machine → Run α) (m : Machine) :
    ((get : Run Machine) >>= f) m = f m m := rfl

theorem bind_eq (s : Scope) (name : Name) (v : Value) (m : Machine) :
    bind s name v m =
      .ok (⟨name, m.store.size⟩ :: s) { m with store := m.store.push v } := rfl

theorem cellFor_of_some {name : Name} {o : Origin} {cell : Nat}
    (h : m.scope.cell? name = some cell) : cellFor name o m = .ok cell m := by
  unfold cellFor
  refine (get_bind _ m).trans ?_
  dsimp only
  rw [h]
  rfl

/-- A variable that is not there is made, and the scope starts with it from then on. -/
theorem cellFor_of_none {name : Name} {o : Origin} (h : m.scope.cell? name = none) :
    cellFor name o m = .ok m.store.size
      { m with
        scope := ⟨name, m.store.size⟩ :: m.scope
        store := m.store.push (Value.unset o) } := by
  unfold cellFor
  refine (get_bind _ m).trans ?_
  dsimp only
  rw [h]
  rfl

theorem read_of_ok {p : Place} {v : Value} (h : p.get m.store = .ok v) :
    read p m = .ok v m := by
  rw [read, get_bind, h]
  rfl

theorem read_of_error {p : Place} {e : Halt} (h : p.get m.store = .error e) :
    read p m = .error e m := by
  rw [read, get_bind, h]
  rfl

theorem write_eq (p : Place) (v : Value) (m : Machine) :
    write p v m =
      ((liftM (p.updated m.store v) : Run Value) >>= fun whole =>
        modify fun m => { m with store := m.store.set p.root whole }) m := rfl

theorem write_of_ok {p : Place} {v w : Value} (h : p.updated m.store v = .ok w) :
    write p v m = .ok () { m with store := m.store.set p.root w } := by
  rw [write_eq, h]
  rfl

theorem write_of_error {p : Place} {v : Value} {e : Halt} (h : p.updated m.store v = .error e) :
    write p v m = .error e m := by
  rw [write_eq, h]
  rfl

end Run

end Mandate
