/-
  Mandate.Text.Quoted

  Quoted text, as trace lines show it. Single quotes are used unless the text
  holds a single quote and no double quote. The backslash, the quote in use and
  the usual control characters are escaped, and an unprintable character, or half
  of a surrogate pair, is written by its code.

  Beside it stand the other forms that data takes inside data: truth values,
  lists and records.
-/

import Mandate.Text.CodePoint
import Mandate.Text.Printable

namespace Mandate.Text

/-- The lower-case hexadecimal digits of a number, at least `width` of them. -/
def hexDigits (width n : Nat) : List Char :=
  let ds := Nat.toDigits 16 n
  List.replicate (width - ds.length) '0' ++ ds

/-- The quote around a text. -/
def quoteFor (t : Text) : Char :=
  if t.contains (.char '\'') && !t.contains (.char '"') then '"' else '\''

/-- A character as it stands between quotes of the given kind. -/
def escapeChar (quote c : Char) : List Char :=
  if c = quote || c = '\\' then ['\\', c]
  else if c = '\n' then ['\\', 'n']
  else if c = '\r' then ['\\', 'r']
  else if c = '\t' then ['\\', 't']
  else if isPrintable c then [c]
  else if c.toNat < 0x100 then '\\' :: 'x' :: hexDigits 2 c.toNat
  else if c.toNat < 0x10000 then '\\' :: 'u' :: hexDigits 4 c.toNat
  else '\\' :: 'U' :: hexDigits 8 c.toNat

/-- A code point as it stands between quotes of the given kind. -/
def escapePoint (quote : Char) : CodePoint → List Char
  | .char c => escapeChar quote c
  | .half index => '\\' :: 'u' :: hexDigits 4 (CodePoint.half index).value

/-- A text in quotes. -/
def quoted (t : Text) : String :=
  let q := quoteFor t
  String.ofList (q :: t.flatMap (escapePoint q) ++ [q])

/-- The word for a truth value inside data. -/
def truthName (b : Bool) : String := if b then "True" else "False"

/-- A list of items that are written out. -/
def listed (items : List String) : String := "[" ++ ", ".intercalate items ++ "]"

/-- A record with a label, and fields that are written out. -/
def record (label : String) (fields : List (String × String)) : String :=
  label ++ "(" ++ ", ".intercalate (fields.map fun (k, v) => k ++ "=" ++ v) ++ ")"

end Mandate.Text
