/-
  Mandate.Number.Binary

  Numbers are double precision floats. This module takes one apart into
  (-1)^sign · significand · 2^exponent and rounds an exact ratio to the nearest
  one, ties to the even significand. Both are plain arithmetic on naturals.

    * `parts` is the exact value of a number.
    * `nearest` is the number nearest to a ratio; beyond the range it is infinite.
    * `remainder` is the exact remainder of a division, with the sign of the
      dividend.
-/

namespace Mandate.Number

/-- What a number stands for. -/
inductive Parts where
  | nan
  | infinite (negative : Bool)
  /-- A significand times a power of two. -/
  | finite (negative : Bool) (significand : Nat) (exponent : Int)
  deriving DecidableEq, Repr

/-- The exact value of a number. -/
def parts (x : Float) : Parts :=
  let bits := x.toBits.toNat
  let negative := bits.testBit 63
  let field : Nat := bits / Nat.pow 2 52 % Nat.pow 2 11
  let fraction := bits % Nat.pow 2 52
  if field = 2047 then
    if fraction = 0 then .infinite negative else .nan
  else if field = 0 then .finite negative fraction (-1074)
  else .finite negative (Nat.pow 2 52 + fraction) ((field : Int) - 1075)

/-- The bits of an infinite magnitude; every finite one has smaller bits. -/
def infinityBits : Nat := 2047 * Nat.pow 2 52

/-- The bits of the magnitude `m` · 2^`e`, for `m` up to 2^53 and `e` at least -1074. The field
of the exponent and the fraction share a carry, so one sum serves all cases. -/
def magnitudeBits (m : Nat) (e : Int) : Nat :=
  min ((e + 1074).toNat * Nat.pow 2 52 + m) infinityBits

/-- The number with a sign and the bits of a magnitude. -/
def ofMagnitude (negative : Bool) (bits : Nat) : Float :=
  Float.ofBits (UInt64.ofNat (if negative then Nat.pow 2 63 + bits else bits))

/-! ## Rounding -/

/-- The whole number nearest to a ratio, ties to even. -/
def roundDiv (num den : Nat) : Nat :=
  let q := num / den
  let r := num % den
  if 2 * r < den || (2 * r == den && q % 2 == 0) then q else q + 1

/-- The ratio `num / den` divided by 2^`e`, as a ratio. -/
def scaled (num den : Nat) (e : Int) : Nat × Nat :=
  if 0 ≤ e then (num, den * Nat.pow 2 e.toNat) else (num * Nat.pow 2 (-e).toNat, den)

/-- The exponent of the largest power of two that is at most a positive ratio. -/
def binaryExponent (num den : Nat) : Int :=
  let guess : Int := num.log2 - den.log2
  let (n, d) := scaled num den guess
  if n < d then guess - 1 else guess

/-- The bits of the magnitude nearest to a ratio. -/
def nearestBits (num den : Nat) : Nat :=
  if num = 0 then 0
  else
    let e := max (-1074) (binaryExponent num den - 52)
    let (n, d) := scaled num den e
    magnitudeBits (roundDiv n d) e

/-- The number nearest to a ratio, ties to even. -/
def nearest (negative : Bool) (num den : Nat) : Float :=
  ofMagnitude negative (nearestBits num den)

/-- The number nearest to a whole number, unless that is beyond the range. -/
def ofInt? (i : Int) : Option Float :=
  let bits := nearestBits i.natAbs 1
  if bits < infinityBits then some (ofMagnitude (i < 0) bits) else none

/-! ## Whole numbers -/

/-- The whole number a finite number is, if it is one. -/
def toInt? (x : Float) : Option Int :=
  match parts x with
  | .finite negative m e =>
    let size? : Option Nat :=
      if 0 ≤ e then some (m * Nat.pow 2 e.toNat)
      else if m % Nat.pow 2 (-e).toNat = 0 then some (m / Nat.pow 2 (-e).toNat)
      else none
    size?.map fun n => if negative then -(n : Int) else n
  | .nan | .infinite _ => none

/-- How an exact whole number and a number compare; nothing compares with a NaN. -/
def compareInt (i : Int) (x : Float) : Option Ordering :=
  match parts x with
  | .nan => none
  | .infinite negative => some (if negative then .gt else .lt)
  | .finite negative m e =>
    let signed : Int := if negative then -(m : Int) else m
    some <|
      if 0 ≤ e then compare i (signed * (Nat.pow 2 e.toNat : Nat))
      else compare (i * (Nat.pow 2 (-e).toNat : Nat)) signed

/-! ## Remainder -/

/-- A number that is no number. -/
def nan : Float := 0.0 / 0.0

/-- The remainder of a division, with the sign of the dividend. It is exact. There is none for
a divisor of zero or an infinite dividend. -/
def remainder (x y : Float) : Float :=
  match parts x, parts y with
  | .finite negative m e, .finite _ k f =>
    if k = 0 then nan
    else
      let low := min e f
      let r := (m * Nat.pow 2 (e - low).toNat) % (k * Nat.pow 2 (f - low).toNat)
      let (n, d) := scaled r 1 (-low)
      nearest negative n d
  | .finite .., .infinite _ => x
  | _, _ => nan

end Mandate.Number
