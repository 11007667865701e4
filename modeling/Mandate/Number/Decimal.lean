/-
  Mandate.Number.Decimal

  Decimals and numbers. `Decimal.nearest` reads a decimal as the nearest number.
  `shortest` writes a number as a decimal with the fewest digits that reads back
  as the same number and, among those, the nearest to it.

  The search tries one digit, two digits and so on up to seventeen, and checks
  each candidate by reading it. Should none be found, the exact decimal of the
  number is taken, which every finite number has.
-/

import Mandate.Number.Binary

namespace Mandate.Number

/-- `digits` · 10^`exponent`. -/
structure Decimal where
  digits : Nat
  exponent : Int
  deriving DecidableEq, Repr, Inhabited

namespace Decimal

/-- The ratio a decimal stands for. -/
def ratio (d : Decimal) : Nat × Nat :=
  if 0 ≤ d.exponent then (d.digits * Nat.pow 10 d.exponent.toNat, 1)
  else (d.digits, Nat.pow 10 (-d.exponent).toNat)

/-- How many digits a whole number has. -/
def digitCount (n : Nat) : Nat := (Nat.toDigits 10 n).length

/-- The bits of the magnitude nearest to a decimal. A decimal far outside the range is not
written out. -/
def nearestBits (d : Decimal) : Nat :=
  if d.digits = 0 then 0
  else if 400 < d.exponent then infinityBits
  else if d.exponent + digitCount d.digits < -400 then 0
  else
    let (n, m) := d.ratio
    Number.nearestBits n m

/-- The number nearest to a decimal, with a sign. -/
def nearest (negative : Bool) (d : Decimal) : Float := ofMagnitude negative d.nearestBits

/-- The same decimal without zeros at the end of its digits. -/
def trim (d : Decimal) : Decimal := go (digitCount d.digits) d
where
  /-- Takes at most `n` zeros away. -/
  go : Nat → Decimal → Decimal
    | 0, d => d
    | n + 1, d =>
      if d.digits ≠ 0 ∧ d.digits % 10 = 0 then go n ⟨d.digits / 10, d.exponent + 1⟩ else d

/-- The exact decimal of `m` · 2^`e`. -/
def exact (m : Nat) (e : Int) : Decimal :=
  if 0 ≤ e then ⟨m * Nat.pow 2 e.toNat, 0⟩ else ⟨m * Nat.pow 5 (-e).toNat, e⟩

end Decimal

/-- The exponent of the largest power of ten that is at most a positive ratio that is no
negative power of ten. -/
def decimalExponent (num den : Nat) : Int :=
  if den ≤ num then Decimal.digitCount (num / den) - 1
  else -(Decimal.digitCount (den / num) : Int)

/-- The decimal of at most `n` digits that reads as the magnitude of a ratio, the nearest if
there are two. -/
def shortestWith (num den n : Nat) : Option Decimal :=
  let place := decimalExponent num den + 1 - n
  let (a, b) :=
    if 0 ≤ place then (num, den * Nat.pow 10 place.toNat)
    else (num * Nat.pow 10 (-place).toNat, den)
  let near := roundDiv a b
  let far := if near = a / b then near + 1 else a / b
  let bits := nearestBits num den
  [near, far].findSome? fun digits =>
    let d : Decimal := ⟨digits, place⟩
    if d.nearestBits = bits then some d else none

/-- The decimal with the fewest digits that reads as `m` · 2^`e`, the nearest to it if there
are several. -/
def shortest (m : Nat) (e : Int) : Decimal :=
  if m = 0 then ⟨0, 0⟩
  else
    let (num, den) := scaled m 1 (-e)
    (((List.range 17).findSome? fun n => shortestWith num den (n + 1)).getD
      (Decimal.exact m e)).trim

end Mandate.Number
