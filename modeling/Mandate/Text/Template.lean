/-
  Mandate.Text.Template

  Templates: texts in which a `%` opens a place to be filled, as `%d` or `%5.2f`.
  A place has flags, a width, a precision and a size, all of which can be left
  out, and ends in a letter for the form.

  `fillOnce` tells whether a template can be filled with one small whole number.
  Each place takes a number, and so does a star for a width or precision; there
  have to be just as many as one.
-/

import Mandate.Fault

namespace Mandate.Text.Template

/-- The flags of a place. -/
def isFlag (c : Char) : Bool := ['-', '+', ' ', '#', '0'].contains c

/-- The letters for the size of a number. -/
def isSize (c : Char) : Bool := ['h', 'l', 'L'].contains c

/-- The letters for the form of a number. -/
def isForm (c : Char) : Bool := "srauidoxXeEfFgGc".toList.contains c

/-- The largest width. -/
def widthLimit : Nat := Nat.pow 2 63 - 1

/-- The largest precision. -/
def precisionLimit : Nat := Nat.pow 2 31 - 1

/-- The whole number of ASCII digits. -/
def wholeOf (digits : List Char) : Nat :=
  digits.foldl (fun acc c => acc * 10 + (c.toNat - '0'.toNat)) 0

/-- A width or precision at the front of a text: digits, or a star that takes the number. Gives
whether the number is taken, and the text after it. -/
def readMeasure (limit : Nat) (taken : Bool) : List Char → Except Fault (Bool × List Char)
  | '*' :: rest => if taken then .error .unsuitable else .ok (true, rest)
  | cs =>
    if limit < wholeOf (cs.takeWhile Char.isDigit) then .error .unreadable
    else .ok (taken, cs.dropWhile Char.isDigit)

/-- A precision, if there is one. -/
def readPrecision (taken : Bool) : List Char → Except Fault (Bool × List Char)
  | '.' :: rest => readMeasure precisionLimit taken rest
  | cs => .ok (taken, cs)

/-- A text without the letter for a size at its front. -/
def dropSize : List Char → List Char
  | c :: rest => if isSize c then rest else c :: rest
  | [] => []

/-- A place, after its `%`: the text after it. It takes the number, which must not be taken
before. -/
def readPlace (taken : Bool) (cs : List Char) : Except Fault (List Char) := do
  if cs.head? = some '(' then throw .unsuitable
  let (taken, cs) ← readMeasure widthLimit taken (cs.dropWhile isFlag)
  let (taken, cs) ← readPrecision taken cs
  match dropSize cs with
  | [] => throw .unreadable
  | c :: rest =>
    if taken then throw .unsuitable
    if isForm c then return rest else throw .unreadable

/-- Goes through a template, in at most a number of steps. -/
def fill (taken : Bool) : Nat → List Char → Except Fault Unit
  | 0, _ => .error .unreadable
  | _ + 1, [] => if taken then .ok () else .error .unsuitable
  | fuel + 1, '%' :: '%' :: rest => fill taken fuel rest
  | fuel + 1, '%' :: rest => do fill true fuel (← readPlace taken rest)
  | fuel + 1, _ :: rest => fill taken fuel rest

/-- Whether a template can be filled with one small whole number. -/
def fillOnce (template : List Char) : Except Fault Unit :=
  fill false (template.length + 1) template

end Mandate.Text.Template
