/-
  Mandate.Number.Reading

  Texts read as numbers. Blanks around a number are ignored, and digits may be
  of any script. A number is

    * `0x`, `0o` or `0b`, in either case, and digits of that base; or
    * an optional sign and `Infinity` or a decimal with an optional exponent.

  A prefixed number is a whole number first, so one beyond the range cannot be
  read; a decimal beyond the range reads as infinite.
-/

import Mandate.Fault
import Mandate.Number.Decimal
import Mandate.Text.Blank
import Mandate.Text.Digit

namespace Mandate.Number

/-! ## Whole numbers with a base -/

/-- The value of an ASCII digit of a base up to sixteen. -/
def digitOf (base : Nat) (c : Char) : Option Nat :=
  let value? : Option Nat :=
    if '0' ≤ c ∧ c ≤ '9' then some (c.toNat - '0'.toNat)
    else if 'a' ≤ c ∧ c ≤ 'f' then some (c.toNat - 'a'.toNat + 10)
    else if 'A' ≤ c ∧ c ≤ 'F' then some (c.toNat - 'A'.toNat + 10)
    else none
  value?.filter (· < base)

/-- The number that digits of a base stand for, after those read before. -/
def valueOf (base : Nat) (digit : Char → Option Nat) : Nat → List Char → Option Nat
  | acc, [] => some acc
  | acc, c :: cs =>
    match digit c with
    | some d => valueOf base digit (acc * base + d) cs
    | none => none

/-- The base a prefix letter stands for. -/
def baseOf (c : Char) : Option Nat :=
  if c = 'x' || c = 'X' then some 16
  else if c = 'o' || c = 'O' then some 8
  else if c = 'b' || c = 'B' then some 2
  else none

/-- A whole number written with a prefix. -/
def prefixed? : List Char → Option Nat
  | '0' :: letter :: digits =>
    match baseOf letter with
    | some base =>
      if digits.isEmpty then none else valueOf base (digitOf base) 0 digits
    | none => none
  | _ => none

/-! ## Decimals -/

/-- The digits a text starts with, and what comes after them. -/
def spanDigits (cs : List Char) : List Char × List Char :=
  (cs.takeWhile Text.isDigit, cs.dropWhile Text.isDigit)

/-- The whole number of digits of any script. -/
def wholeOf (digits : List Char) : Nat :=
  digits.foldl (fun acc c => acc * 10 + (Text.digitValue? c).getD 0) 0

/-- An optional sign: whether it is a minus, and the text after it. -/
def signOf : List Char → Bool × List Char
  | '-' :: rest => (true, rest)
  | '+' :: rest => (false, rest)
  | cs => (false, cs)

/-- The exponent of a decimal, if the rest of the text is one or is empty. -/
def exponentOf : List Char → Option Int
  | [] => some 0
  | c :: rest =>
    if c = 'e' || c = 'E' then
      let (negative, rest) := signOf rest
      if rest.isEmpty || !rest.all Text.isDigit then none
      else
        let n : Int := wholeOf rest
        some (if negative then -n else n)
    else none

/-- A decimal without sign. -/
def decimalOf (cs : List Char) : Option Decimal :=
  let (whole, rest) := spanDigits cs
  let (fraction, rest) :=
    match rest with
    | '.' :: rest => spanDigits rest
    | _ => ([], rest)
  if whole.isEmpty && fraction.isEmpty then none
  else
    (exponentOf rest).map fun e => ⟨wholeOf (whole ++ fraction), e - fraction.length⟩

/-- A decimal with an optional sign. -/
def decimal? (cs : List Char) : Option Float :=
  let (negative, body) := signOf cs
  if body = "Infinity".toList then some (ofMagnitude negative infinityBits)
  else (decimalOf body).map (Decimal.nearest negative)

/-! ## Numbers -/

/-- The number a text stands for, if it stands for one. -/
def read (text : List Char) : Except Fault (Option Float) :=
  let body := Text.trim text
  match prefixed? body with
  | some n =>
    match ofInt? n with
    | some x => .ok (some x)
    | none => .error .tooLarge
  | none => .ok (decimal? body)

/-- The number of a number token. -/
def ofToken (text : List Char) : Float :=
  ((decimalOf text).map (Decimal.nearest false)).getD 0

/-! ## Numbers in data

Data that should be a number but is a text is read more freely: underscores may
stand between digits, and infinity and NaN are written in any case. Only the
blanks around it are less free: those that separate fields and records count as
part of the text. -/

/-- A text without the underscores between its digits, if it has no others. -/
def dropUnderscores : List Char → Option (List Char)
  | [] => some []
  | '_' :: _ => none
  | c :: '_' :: d :: rest =>
    if Text.isDigit c && Text.isDigit d then
      (dropUnderscores (d :: rest)).map (c :: ·)
    else none
  | c :: rest => (dropUnderscores rest).map (c :: ·)

/-- The number that a text in place of a number stands for. -/
def readFreely (text : List Char) : Option Float :=
  let body := Text.trimWhile (fun c => Text.isBlank c && !Text.isSeparator c) text
  let (negative, word) := signOf body
  let word := word.map Char.toLower
  if word = "inf".toList || word = "infinity".toList then
    some (ofMagnitude negative infinityBits)
  else if word = "nan".toList then some nan
  else
    (dropUnderscores body).bind fun cs =>
      let (negative, digits) := signOf cs
      (decimalOf digits).map (Decimal.nearest negative)

end Mandate.Number
