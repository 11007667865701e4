/-
  Mandate.Number.Quantity

  Numbers beside exact whole numbers. Truth values count as one and zero where a
  number is wanted, and what is computed from them alone stays an exact whole
  number; with a number it becomes a number. Comparison is exact.
-/

import Mandate.Fault
import Mandate.Number.Binary

namespace Mandate.Number

/-- A number or an exact whole number. -/
inductive Quantity where
  | whole (i : Int)
  | real (x : Float)

namespace Quantity

/-- The number of a quantity. -/
def toFloat : Quantity → Except Fault Float
  | .real x => .ok x
  | .whole i =>
    match ofInt? i with
    | some x => .ok x
    | none => .error .tooLarge

/-- An operation on two quantities that keeps whole numbers whole. -/
def combine (onWhole : Int → Int → Int) (onReal : Float → Float → Float) :
    Quantity → Quantity → Except Fault Quantity
  | .whole i, .whole j => .ok (.whole (onWhole i j))
  | a, b => do
    let x ← a.toFloat
    let y ← b.toFloat
    return .real (onReal x y)

/-- The sum. -/
def add : Quantity → Quantity → Except Fault Quantity := combine (· + ·) (· + ·)

/-- The difference. -/
def sub : Quantity → Quantity → Except Fault Quantity := combine (· - ·) (· - ·)

/-- The product. -/
def mul : Quantity → Quantity → Except Fault Quantity := combine (· * ·) (· * ·)

/-- The opposite. -/
def neg : Quantity → Quantity
  | .whole i => .whole (-i)
  | .real x => .real (-x)

/-- How two quantities compare; nothing compares with a NaN. -/
def compare : Quantity → Quantity → Option Ordering
  | .whole i, .whole j => some (Ord.compare i j)
  | .whole i, .real y => compareInt i y
  | .real x, .whole j => (compareInt j x).map Ordering.swap
  | .real x, .real y =>
    if x < y then some .lt else if y < x then some .gt else if x == y then some .eq else none

/-- Whether two quantities are equal. -/
def same (a b : Quantity) : Bool := a.compare b = some .eq

/-- Whether a quantity is not a number. -/
def isNaN : Quantity → Bool
  | .whole _ => false
  | .real x => x.isNaN

/-- Whether a quantity is zero. -/
def isZero (a : Quantity) : Bool := a.same (.whole 0)

end Quantity

end Mandate.Number
