/-
  Mandate.Place

  Places: what can be assigned to, a variable or an element of a place. A place
  keeps the values of its indices, not positions, and looks them up on each use,
  since what it leads to may change in between.

  Assigning to an element makes a new array around it, all the way up to the
  variable, and gives each array on the way the datatype of what was put in.
-/

import Mandate.Store
import Mandate.Value.Element

namespace Mandate

/-- A place that holds a value. -/
inductive Place where
  | cell (number : Nat)
  | element (base : Place) (index : Value)
  deriving Repr, Inhabited

namespace Place

/-- The cell that a place is in. -/
def root : Place → Nat
  | .cell n => n
  | .element base _ => base.root

/-- The value in a place. -/
def get (store : Store) : Place → Except Halt Value
  | .cell n => .ok (store.get n)
  | .element base index => do
    let array ← base.get store
    let position ← index.position (← array.payload.length)
    return ⟨← array.payload.item position, ← array.datatype.element, array.origin⟩

/-- The value that the cell of a place holds once another value is in the place. -/
def updated (store : Store) : Place → Value → Except Halt Value
  | .cell _, v => .ok v
  | .element base index, v => do
    let array ← base.get store
    let position ← index.position (← array.payload.length)
    -- The array takes the datatype of its new element, whatever its others are.
    base.updated store
      ⟨← array.payload.withItem position v.payload, Datatype.array v.datatype, array.origin⟩

end Place

end Mandate
