/-
  Mandate.Store

  The cells that variables live in. Cells are numbered as they are made, and
  none is ever taken away. Together with scopes they are the variables of a
  running program: a name leads to a cell, and all who see the cell see its
  value change.
-/

import Mandate.Value

namespace Mandate

/-- The values of all cells. -/
structure Store where
  cells : Array Value := #[]
  deriving Repr, Inhabited

namespace Store

/-- How many cells there are, which is the number of the next one. -/
def size (s : Store) : Nat := s.cells.size

/-- The value of a cell. A cell that was never made holds nothing. -/
def get (s : Store) (cell : Nat) : Value := s.cells.getD cell (Value.unset Origin.none)

/-- Another value in a cell. -/
def set (s : Store) (cell : Nat) (v : Value) : Store := ⟨s.cells.setIfInBounds cell v⟩

/-- One more cell. -/
def push (s : Store) (v : Value) : Store := ⟨s.cells.push v⟩

/-- The value of a variable. -/
def lookup? (s : Store) (scope : Scope) (name : Name) : Option Value :=
  (scope.cell? name).map s.get

/-- A variable with another value, if there is such a variable. -/
def assign? (s : Store) (scope : Scope) (name : Name) (v : Value) : Option Store :=
  (scope.cell? name).map fun cell => s.set cell v

/-- The variables of a scope with their values, innermost first. -/
def contents (s : Store) (scope : Scope) : List (Name × Value) :=
  scope.map fun b => (b.name, s.get b.cell)

@[simp] theorem size_set (s : Store) (cell : Nat) (v : Value) : (s.set cell v).size = s.size := by
  simp [size, set]

@[simp] theorem size_push (s : Store) (v : Value) : (s.push v).size = s.size + 1 := by
  simp [size, push]

theorem get_set_self (s : Store) {cell : Nat} (h : cell < s.size) (v : Value) :
    (s.set cell v).get cell = v := by
  simp_all [size, get, set, Array.getD]

theorem get_set_of_ne (s : Store) {cell other : Nat} (h : cell ≠ other) (v : Value) :
    (s.set cell v).get other = s.get other := by
  simp [get, set, Array.getD_eq_getD_getElem?, Array.getElem?_setIfInBounds_ne h]

theorem get_push_self (s : Store) (v : Value) : (s.push v).get s.size = v := by
  simp [size, get, push, Array.getD]

theorem get_push_of_lt (s : Store) {cell : Nat} (h : cell < s.size) (v : Value) :
    (s.push v).get cell = s.get cell := by
  simp_all [size, get, push, Array.getD_eq_getD_getElem?, Array.getElem?_push_lt]

end Store

end Mandate
