/-
  Mandate.Token

  Tokens, and the lexeme at the front of a text. Which terminals compete for it
  is a parameter: a list of every terminal gives the token stream of a text by
  itself, and the parser passes the terminals that its state can use, so that a
  keyword that cannot stand somewhere is an ordinary name there.

  Each pattern has a length function: how many characters it takes from the
  front of a text, zero if it does not match.
-/

import Mandate.Grammar.Terminal
import Mandate.Layout
import Mandate.Text.Digit

namespace Mandate

/-- A piece of the source with its terminal. -/
structure Token where
  terminal : Terminal
  text : String
  /-- The offset of the first character. -/
  start : Nat
  deriving DecidableEq, Repr, Inhabited

/-- The offset after the last character. -/
def Token.stop (t : Token) : Nat := t.start + t.text.length

namespace Lexeme

/-! ## Patterns -/

/-- A name: a letter or underscore, then letters, digits and underscores. -/
def nameLength (cs : List Char) : Nat := (Layout.leadingWord cs).length

/-- The digits a text starts with. -/
def digitsLength (cs : List Char) : Nat := (cs.takeWhile Text.isDigit).length

/-- A point and at least one digit. -/
def fractionLength : List Char → Nat
  | '.' :: rest => if digitsLength rest = 0 then 0 else 1 + digitsLength rest
  | _ => 0

/-- A number: digits, a fraction, or digits with a fraction. -/
def numberLength (cs : List Char) : Nat :=
  digitsLength cs + fractionLength (cs.drop (digitsLength cs))

/-- What is left of a string after `n` of its characters, up to the closing quote. A backslash
takes the next character with it, which must not be a line end. -/
def stringTail : Nat → List Char → Nat
  | _, [] => 0
  | _, ['\\'] => 0
  | n, '\\' :: c :: rest => if c = '\n' then 0 else stringTail (n + 2) rest
  | n, c :: rest => if c = '"' then n + 1 else stringTail (n + 1) rest

/-- A string: two quotes and what is between them. -/
def stringLength : List Char → Nat
  | '"' :: rest => stringTail 1 rest
  | _ => 0

/-- Whether a character separates tokens. -/
def isSpace (c : Char) : Bool := [' ', '\t', '\x0c', '\r', '\n'].contains c

/-- A run of spaces and line ends. -/
def spaceLength (cs : List Char) : Nat := (cs.takeWhile isSpace).length

/-- A comment: from `#` to the end of the line. -/
def commentLength : List Char → Nat
  | '#' :: rest => 1 + (rest.takeWhile (· != '\n')).length
  | _ => 0

/-- A keyword or mark. -/
def fixedLength (t : Terminal) (cs : List Char) : Nat :=
  if t.text.toList.isPrefixOf cs then t.text.length else 0

/-! ## Scanning -/

/-- The terminals of a list that are matched by their fixed text alone. Where names are
possible a keyword is not: it is a name first. -/
def fixed (allowed : List Terminal) : List Terminal :=
  allowed.filter fun t => t.text != "" && !(allowed.contains .name && t.isKeyword)

/-- The terminal of a list with the longest fixed text at the front of a text. -/
def longestFixed (cs : List Char) : List Terminal → Option Terminal
  | [] => none
  | t :: ts =>
    match longestFixed cs ts with
    | none => if fixedLength t cs = 0 then none else some t
    | some best => if best.text.length < fixedLength t cs then some t else some best

/-- What a name is: one of the keywords allowed if it spells it. -/
def wordTerminal (allowed : List Terminal) (word : List Char) : Terminal :=
  (allowed.find? fun t => t.isKeyword && t.text.toList == word).getD .name

end Lexeme

/-- What stands at the front of a text, with its length. -/
inductive Lexeme where
  /-- A token. -/
  | token (t : Terminal) (length : Nat)
  /-- Space or a comment. -/
  | gap (length : Nat)
  deriving DecidableEq, Repr

namespace Lexeme

/-- How many characters a lexeme takes. -/
def length : Lexeme → Nat
  | .token _ n => n
  | .gap n => n

/-- The lexeme at the front of a text, if one of the terminals allowed, space or a comment
matches there. -/
def scan (allowed : List Terminal) (cs : List Char) : Option Lexeme :=
  if allowed.contains .name && nameLength cs != 0 then
    some (.token (wordTerminal allowed (cs.take (nameLength cs))) (nameLength cs))
  else if allowed.contains .number && numberLength cs != 0 then
    some (.token .number (numberLength cs))
  else if allowed.contains .string && stringLength cs != 0 then
    some (.token .string (stringLength cs))
  else if spaceLength cs != 0 then some (.gap (spaceLength cs))
  else if commentLength cs != 0 then some (.gap (commentLength cs))
  else (longestFixed cs (fixed allowed)).map fun t => .token t t.text.length

/-! ## A lexeme is never empty -/

theorem fixedLength_le (t : Terminal) (cs : List Char) : fixedLength t cs ≤ t.text.length := by
  unfold fixedLength
  split <;> omega

theorem longestFixed_text {cs : List Char} {ts : List Terminal} {t : Terminal}
    (h : longestFixed cs ts = some t) : t.text.length ≠ 0 := by
  induction ts generalizing t with
  | nil => simp [longestFixed] at h
  | cons u us ih =>
    have hu := fixedLength_le u cs
    unfold longestFixed at h
    split at h
    · split at h
      · simp at h
      · cases h; omega
    · rename_i best hbest
      split at h
      · cases h; omega
      · cases h; exact ih hbest

theorem scan_length_ne_zero {allowed : List Terminal} {cs : List Char} {x : Lexeme}
    (h : scan allowed cs = some x) : x.length ≠ 0 := by
  unfold scan at h
  split at h
  · rename_i hc; cases h; simp_all [length]
  · split at h
    · rename_i hc; cases h; simp_all [length]
    · split at h
      · rename_i hc; cases h; simp_all [length]
      · split at h
        · rename_i hc; cases h; simpa [length] using hc
        · split at h
          · rename_i hc; cases h; simpa [length] using hc
          · obtain ⟨t, ht, rfl⟩ := Option.map_eq_some_iff.1 h
            exact longestFixed_text ht

end Lexeme

end Mandate
