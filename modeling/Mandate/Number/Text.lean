/-
  Mandate.Number.Text

  How numbers are written.

    * `literal` is the form in documents and in quoted data: the fewest digits
      that read back, with an exponent below 10^-4 and from 10^16 on, and a point
      in every finite form without exponent.
    * `display` is the form a program prints: a whole number below 10^21 in size
      as its digits, others as their literal, and words for what is not finite.
-/

import Mandate.Number.Decimal

namespace Mandate.Number

/-- Decimal digits as text. -/
def digitsText (n : Nat) : List Char := Nat.toDigits 10 n

/-- An exponent with its sign and at least two digits. -/
def exponentText (e : Int) : List Char :=
  let ds := digitsText e.natAbs
  let ds := if ds.length < 2 then '0' :: ds else ds
  (if e < 0 then '-' else '+') :: ds

/-- A decimal without sign. -/
def decimalText (d : Decimal) : List Char :=
  let ds := digitsText d.digits
  let point : Int := ds.length + d.exponent
  if d.digits = 0 then ['0', '.', '0']
  else if -4 < point ∧ point ≤ 16 then
    if 0 ≤ d.exponent then ds ++ List.replicate d.exponent.toNat '0' ++ ['.', '0']
    else if 0 < point then ds.take point.toNat ++ '.' :: ds.drop point.toNat
    else '0' :: '.' :: List.replicate (-point).toNat '0' ++ ds
  else
    let tail := ds.drop 1
    ds.take 1 ++ (if tail.isEmpty then [] else '.' :: tail) ++ 'e' :: exponentText (point - 1)

/-- The spellings of what is not finite. -/
structure Words where
  nan : String
  infinity : String

/-- The literal of a number, with the given spellings. -/
def literalWith (w : Words) (x : Float) : String :=
  match parts x with
  | .nan => w.nan
  | .infinite negative => if negative then "-" ++ w.infinity else w.infinity
  | .finite negative m e =>
    String.ofList ((if negative then ['-'] else []) ++ decimalText (shortest m e))

/-- The literal of a number in quoted data. -/
def literal (x : Float) : String := literalWith ⟨"nan", "inf"⟩ x

/-- The literal of a number in a document. -/
def documentLiteral (x : Float) : String := literalWith ⟨"NaN", "Infinity"⟩ x

/-- The text a program prints for a number. -/
def display (x : Float) : String :=
  match toInt? x with
  | some i => if i.natAbs < Nat.pow 10 21 then toString i else documentLiteral x
  | none => documentLiteral x

end Mandate.Number
