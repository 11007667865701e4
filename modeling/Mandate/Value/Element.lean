/-
  Mandate.Value.Element

  Elements of arrays and code points of texts, by position. A position is a whole
  number from zero up to, but not including, the length.
-/

import Mandate.Halt
import Mandate.Number.Reading
import Mandate.Value.Text

namespace Mandate

namespace Payload

/-- How many elements or code points a payload has. -/
def length : Payload → Except Fault Nat
  | .text t => .ok t.length
  | .list items => .ok items.length
  | _ => .error .unsuitable

/-- The elements of a list, or the code points of a text. -/
def elements : Payload → Except Fault (List Payload)
  | .text t => .ok (t.map fun point => .text [point])
  | .list items => .ok items
  | _ => .error .unsuitable

/-- The element at a position. -/
def item (p : Payload) (position : Nat) : Except Fault Payload := do
  match (← p.elements)[position]? with
  | some e => return e
  | none => .error .noElement

/-- A list with another element at a position. -/
def withItem (p : Payload) (position : Nat) (e : Payload) : Except Fault Payload := do
  return .list ((← p.elements).set position e)

/-- The whole number that a payload used as an index stands for, if it is a whole number. A text
is read as a number, but only to see that it is none. -/
def wholeIndex (p : Payload) : Except Fault (Option Int) :=
  match p with
  | .text t =>
    match Number.readFreely t.chars with
    | none => .error .unreadable
    | some x => if (Number.toInt? x).isSome then .error .unsuitable else .ok none
  | p =>
    match p.quantity? with
    | some (.real x) => .ok (Number.toInt? x)
    | some (.whole i) => do
      let _ ← (Number.Quantity.whole i).toFloat
      return some i
    | none => .error .unsuitable

end Payload

/-- The position that an index stands for in something of a length. -/
def Value.position (index : Value) (length : Nat) : Except Halt Nat := do
  match (← index.payload.wholeIndex).filter fun i : Int => 0 ≤ i && i < length with
  | some i => return i.toNat
  | none => throw (Halt.of (.outOfBounds <$> index.payload.numberText) index.origin)

end Mandate
