/-
  Mandate.Document.Json

  JSON values and their text. Whole numbers and numbers are kept apart: a
  literal with neither point nor exponent is a whole number. The texts `NaN`,
  `Infinity` and `-Infinity` are numbers too. The members of an object are kept
  in order, one for each key.

    * `Json.write` lays a value out over lines, two blanks for each level.
    * `Json.read` reads a whole text, or refuses it.
    * `Json.shown` is the form of a value inside other data, and `Json.same` tells
      whether two values are equal as data.
-/

import Mandate.Number.Quantity
import Mandate.Number.Reading
import Mandate.Number.Text
import Mandate.Text.Quoted

namespace Mandate

/-- A JSON value. -/
inductive Json where
  | null
  | bool (b : Bool)
  | int (i : Int)
  | number (x : Float)
  | text (s : String)
  | list (items : List Json)
  | object (members : List (String × Json))
  deriving Repr, Inhabited

namespace Json

/-- The member of an object with a key. -/
def member? (key : String) (members : List (String × Json)) : Option Json :=
  members.lookup key

/-- Adds a member; one with the same key is replaced where it stands. -/
def insert (key : String) (value : Json) : List (String × Json) → List (String × Json)
  | [] => [(key, value)]
  | (k, v) :: rest => if k = key then (k, value) :: rest else (k, v) :: insert key value rest

/-! ## Writing -/

/-- A character inside a JSON string. -/
def escapeChar (c : Char) : List Char :=
  if c = '"' || c = '\\' then ['\\', c]
  else if c = '\n' then ['\\', 'n']
  else if c = '\r' then ['\\', 'r']
  else if c = '\t' then ['\\', 't']
  else if c = '\x0c' then ['\\', 'f']
  else if c = '\x08' then ['\\', 'b']
  else if c.toNat < 32 then '\\' :: 'u' :: Text.hexDigits 4 c.toNat
  else [c]

/-- A JSON string. -/
def writeString (s : String) : List Char := '"' :: s.toList.flatMap escapeChar ++ ['"']

/-- A line end and the blanks of a level. -/
def newline (level : Nat) : List Char := '\n' :: List.replicate (2 * level) ' '

mutual

/-- A value whose first line is at some level. -/
def writeAt (level : Nat) : Json → List Char
  | .null => "null".toList
  | .bool b => (if b then "true" else "false").toList
  | .int i => (toString i).toList
  | .number x => (Number.documentLiteral x).toList
  | .text s => writeString s
  | .list [] => ['[', ']']
  | .list (j :: js) =>
    '[' :: newline (level + 1) ++ writeAt (level + 1) j ++ writeItems (level + 1) js
      ++ newline level ++ [']']
  | .object [] => ['\x7b', '\x7d']
  | .object (m :: ms) =>
    '\x7b' :: newline (level + 1) ++ writeMember (level + 1) m ++ writeMembers (level + 1) ms
      ++ newline level ++ ['\x7d']

/-- The items after the first. -/
def writeItems (level : Nat) : List Json → List Char
  | [] => []
  | j :: js => ',' :: newline level ++ writeAt level j ++ writeItems level js

/-- A member. -/
def writeMember (level : Nat) : String × Json → List Char
  | (key, value) => writeString key ++ ':' :: ' ' :: writeAt level value

/-- The members after the first. -/
def writeMembers (level : Nat) : List (String × Json) → List Char
  | [] => []
  | m :: ms => ',' :: newline level ++ writeMember level m ++ writeMembers level ms

end

/-- The text of a value. -/
def write (j : Json) : List Char := writeAt 0 j

/-! ## Reading -/

/-- Why a text is not read. -/
inductive ReadError where
  /-- It is no JSON. -/
  | malformed
  /-- A whole number has more digits than are read. -/
  | tooManyDigits
  deriving DecidableEq, Repr, Inhabited

/-- How many digits of a whole number are read. -/
def digitLimit : Nat := 4300

/-- Whether a character may stand between the parts of a value. -/
def isSpace (c : Char) : Bool := [' ', '\t', '\n', '\r'].contains c

/-- A text without the space at its front. -/
def skipSpace (cs : List Char) : List Char := cs.dropWhile isSpace

/-- The code of four hexadecimal digits, and the text after them. -/
def hexCode? : List Char → Option (Nat × List Char)
  | a :: b :: c :: d :: rest =>
    (Number.valueOf 16 (Number.digitOf 16) 0 [a, b, c, d]).map (·, rest)
  | _ => none

/-- The character a simple escape stands for. -/
def simpleEscape? (c : Char) : Option Char :=
  if c = '"' || c = '\\' || c = '/' then some c
  else if c = 'n' then some '\n'
  else if c = 'r' then some '\r'
  else if c = 't' then some '\t'
  else if c = 'f' then some '\x0c'
  else if c = 'b' then some '\x08'
  else none

/-- The character of a code, and the text after it. The first half of a surrogate pair is
joined with the second; half of a pair alone is replaced. -/
def joinSurrogates (code : Nat) (rest : List Char) : Char × List Char :=
  if 0xD800 ≤ code ∧ code < 0xDC00 then
    match rest with
    | '\\' :: 'u' :: more =>
      match hexCode? more with
      | some (low, after) =>
        if 0xDC00 ≤ low ∧ low < 0xE000 then
          (Char.ofNat (0x10000 + (code - 0xD800) * 0x400 + (low - 0xDC00)), after)
        else ('�', rest)
      | none => ('�', rest)
    | _ => ('�', rest)
  else if 0xDC00 ≤ code ∧ code < 0xE000 then ('�', rest)
  else (Char.ofNat code, rest)

/-- The rest of a JSON string after its opening quote, and the text after it. -/
def readString : Nat → List Char → Option (List Char × List Char)
  | 0, _ => none
  | _ + 1, [] => none
  | fuel + 1, c :: rest =>
    if c = '"' then some ([], rest)
    else if c = '\\' then
      match rest with
      | [] => none
      | e :: rest =>
        if e = 'u' then
          match hexCode? rest with
          | some (code, rest) =>
            let (d, rest) := joinSurrogates code rest
            (readString fuel rest).map fun (s, rest) => (d :: s, rest)
          | none => none
        else
          match simpleEscape? e with
          | some d => (readString fuel rest).map fun (s, rest) => (d :: s, rest)
          | none => none
    else if c.toNat < 32 then none
    else (readString fuel rest).map fun (s, rest) => (c :: s, rest)

/-- The ASCII digits at the front of a text, and the text after them. -/
def spanAscii (cs : List Char) : List Char × List Char :=
  (cs.takeWhile Char.isDigit, cs.dropWhile Char.isDigit)

/-- The digits of a number before its point, and the text after them. A zero there stands
alone. -/
def wholePart (cs : List Char) : List Char × List Char :=
  match cs with
  | '0' :: rest => (['0'], rest)
  | _ => spanAscii cs

/-- The digits of a number after its point, and the text after them. A point without digits is
not part of it. -/
def fractionPart (cs : List Char) : List Char × List Char :=
  match cs with
  | '.' :: more =>
    let (ds, after) := spanAscii more
    if ds.isEmpty then ([], cs) else (ds, after)
  | _ => ([], cs)

/-- The exponent of a number, and the text after it. An exponent without digits is not part of
it. -/
def exponentPart (cs : List Char) : Option Int × List Char :=
  match cs with
  | e :: more =>
    if e = 'e' || e = 'E' then
      let (down, digits) := Number.signOf more
      let (ds, after) := spanAscii digits
      if ds.isEmpty then (none, cs)
      else
        let n : Int := Number.wholeOf ds
        (some (if down then -n else n), after)
    else (none, cs)
  | [] => (none, cs)

/-- A number without sign, and the text after it. With neither point nor exponent it is a whole
number. -/
def readNumber (negative : Bool) (cs : List Char) : Except ReadError (Json × List Char) :=
  let (whole, rest) := wholePart cs
  if whole.isEmpty then .error .malformed
  else
    let (fraction, rest) := fractionPart rest
    let (exponent?, after) := exponentPart rest
    if fraction.isEmpty && exponent?.isNone then
      if digitLimit < whole.length then .error .tooManyDigits
      else
        let n : Int := Number.wholeOf whole
        .ok (.int (if negative then -n else n), after)
    else
      let d : Number.Decimal :=
        ⟨Number.wholeOf (whole ++ fraction), exponent?.getD 0 - fraction.length⟩
      .ok (.number (d.nearest negative), after)

/-- The words that are values. -/
def words : List (List Char × Json) :=
  [("null".toList, .null), ("true".toList, .bool true), ("false".toList, .bool false),
   ("NaN".toList, .number Number.nan),
   ("Infinity".toList, .number (Number.ofMagnitude false Number.infinityBits)),
   ("-Infinity".toList, .number (Number.ofMagnitude true Number.infinityBits))]

mutual

/-- A value at the front of a text, and the text after it. -/
def readValue : Nat → List Char → Except ReadError (Json × List Char)
  | 0, _ => .error .malformed
  | _ + 1, [] => .error .malformed
  | fuel + 1, c :: rest =>
    if c = '"' then
      match readString (rest.length + 1) rest with
      | some (s, rest) => .ok (.text (String.ofList s), rest)
      | none => .error .malformed
    else if c = '[' then
      match skipSpace rest with
      | ']' :: rest => .ok (.list [], rest)
      | rest => (readItems fuel rest).map fun (js, rest) => (.list js, rest)
    else if c = '\x7b' then
      match skipSpace rest with
      | '\x7d' :: rest => .ok (.object [], rest)
      | rest => (readMembers fuel [] rest).map fun (ms, rest) => (.object ms, rest)
    else
      match words.find? fun (w, _) => w.isPrefixOf (c :: rest) with
      | some (w, j) => .ok (j, (c :: rest).drop w.length)
      | none => if c = '-' then readNumber true rest else readNumber false (c :: rest)

/-- The items of a list up to its closing bracket. -/
def readItems : Nat → List Char → Except ReadError (List Json × List Char)
  | 0, _ => .error .malformed
  | fuel + 1, cs =>
    match readValue fuel cs with
    | .error e => .error e
    | .ok (j, rest) =>
      match skipSpace rest with
      | ',' :: rest => (readItems fuel (skipSpace rest)).map fun (js, rest) => (j :: js, rest)
      | ']' :: rest => .ok ([j], rest)
      | _ => .error .malformed

/-- The members of an object up to its closing bracket, after those read before. -/
def readMembers : Nat → List (String × Json) → List Char →
    Except ReadError (List (String × Json) × List Char)
  | 0, _, _ => .error .malformed
  | fuel + 1, before, '"' :: cs =>
    match readString (cs.length + 1) cs with
    | none => .error .malformed
    | some (key, rest) =>
      match skipSpace rest with
      | ':' :: rest =>
        match readValue fuel (skipSpace rest) with
        | .error e => .error e
        | .ok (j, rest) =>
          let members := insert (String.ofList key) j before
          match skipSpace rest with
          | ',' :: rest => readMembers fuel members (skipSpace rest)
          | '\x7d' :: rest => .ok (members, rest)
          | _ => .error .malformed
      | _ => .error .malformed
  | _ + 1, _, _ => .error .malformed

end

/-- The value of a whole text. Every level takes a character, so the length of the text bounds
the depth of the reading. -/
def read (cs : List Char) : Except ReadError Json :=
  match readValue (2 * cs.length + 2) (skipSpace cs) with
  | .ok (j, rest) => if (skipSpace rest).isEmpty then .ok j else .error .malformed
  | .error e => .error e

/-! ## Values as data -/

mutual

/-- A value as it is written inside other data. -/
def shown : Json → String
  | .null => "None"
  | .bool b => Text.truthName b
  | .int i => toString i
  | .number x => Number.literal x
  | .text s => Text.quoted s
  | .list items => Text.listed (shownAll items)
  | .object members => "\x7b" ++ ", ".intercalate (shownMembers members) ++ "\x7d"

/-- Values written out one by one. -/
def shownAll : List Json → List String
  | [] => []
  | j :: js => shown j :: shownAll js

/-- Members written out one by one. -/
def shownMembers : List (String × Json) → List String
  | [] => []
  | (key, value) :: rest => (Text.quoted key ++ ": " ++ shown value) :: shownMembers rest

end

/-- A value as it is written on its own, where a text needs no quotes. -/
def plain : Json → String
  | .text s => s
  | j => j.shown

/-- The quantity that a value counts as; truth values count as one and zero. -/
def quantity? : Json → Option Number.Quantity
  | .bool b => some (.whole (if b then 1 else 0))
  | .int i => some (.whole i)
  | .number x => some (.real x)
  | _ => none

mutual

/-- Whether two values are equal as parts of data. Numbers and truth values compare by quantity,
lists item by item, and objects by what they hold under each key. All that is not a number is one
object, which parts of data take for equal to itself. -/
def same : Json → Json → Bool
  | .null, .null => true
  | .text s, .text t => s = t
  | .list as, .list bs => sameAll as bs
  | .object ms, .object ns => ms.length = ns.length && sameMembers ms ns
  | a, b =>
    match a.quantity?, b.quantity? with
    | some x, some y => x.same y || x.isNaN && y.isNaN
    | _, _ => false

/-- Whether two lists of values are equal as data. -/
def sameAll : List Json → List Json → Bool
  | [], [] => true
  | a :: as, b :: bs => same a b && sameAll as bs
  | _, _ => false

/-- Whether other members hold the same under each key. -/
def sameMembers : List (String × Json) → List (String × Json) → Bool
  | [], _ => true
  | (key, value) :: rest, others =>
    (match member? key others with
    | some other => same value other
    | none => false) && sameMembers rest others

end

end Json

end Mandate
