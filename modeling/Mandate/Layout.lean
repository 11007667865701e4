/-
  Mandate.Layout

  Which line ends separate expressions. The expressions of a program are
  separated by `;`, and a line end outside brackets, strings and comments may
  stand for one: unless the code before it still needs an operand, or the next
  line with code on it carries the expression on.

  `separate` replaces each separating line end by `;` and leaves every other
  character alone, so an offset into the result is an offset into the source.
-/

import Mandate.Text.Blank

namespace Mandate

/-- Whether a character can start a word: an ASCII letter or an underscore. -/
def isWordStart (c : Char) : Bool := c.isAlpha || c = '_'

/-- Whether a character can be inside a word. -/
def isWordPart (c : Char) : Bool := c.isAlphanum || c = '_'

namespace Layout

/-! ## Code around a line end -/

/-- After these characters an expression goes on. -/
def openEnds : List Char :=
  [';', ',', '(', '[', '\x7b', '+', '-', '*', '/', '%', '^', '=', '<', '>', '!', '&', '|',
   ':', '.']

/-- After these words an expression goes on. -/
def openWords : List (List Char) :=
  ["print", "eval", "exec", "if", "then", "else", "while", "do", "and", "or", "len",
   "toString", "toNumber", "toBoolean", "isNumber", "isBoolean"].map String.toList

/-- With these characters a line carries on the expression before it. -/
def carriers : List Char := ['.', '&']

/-- With these words a line carries on the expression before it. -/
def carryWords : List (List Char) := ["then", "else", "do", "and", "or"].map String.toList

/-- The word a text starts with; empty if it starts with none. -/
def leadingWord (cs : List Char) : List Char :=
  match cs with
  | [] => []
  | c :: _ => if isWordStart c then cs.takeWhile isWordPart else []

/-- The word that a text, given last character first, ends with. Digits do not start a word,
so they are cut off its front. -/
def trailingWord (behind : List Char) : List Char :=
  (behind.takeWhile isWordPart).reverse.dropWhile fun c => !isWordStart c

/-- The text from its first character that is neither blank nor in a comment. -/
def nextCode : List Char → List Char
  | [] => []
  | c :: rest =>
    if c = '#' then skipComment rest
    else if Text.isBlank c then nextCode rest
    else c :: rest
where
  /-- The same, from inside a comment. -/
  skipComment : List Char → List Char
    | [] => []
    | c :: rest => if c = '\n' then nextCode rest else skipComment rest

/-- Whether an expression goes on over a line end, given the code before it, last character
first, and the text after it. -/
def continues (behind ahead : List Char) : Bool :=
  let behind := behind.dropWhile Text.isBlank
  let ahead := nextCode ahead
  match behind, ahead with
  | [], _ | _, [] => true
  | last :: _, first :: _ =>
    openEnds.contains last || openWords.contains (trailingWord behind)
      || carriers.contains first || carryWords.contains (leadingWord ahead)

/-! ## Walking the source -/

/-- What the next character is part of. -/
inductive Mode where
  | code
  | comment
  | string
  /-- In a string, right after a backslash. -/
  | escape
  deriving DecidableEq, Repr

/-- What is known of the source up to some character. -/
structure State where
  mode : Mode := .code
  /-- How many brackets are open. A closing bracket too many counts for nothing. -/
  depth : Nat := 0
  /-- The code so far, last character first. A comment leaves nothing in it, a string its
  closing quote, a separating line end its `;`. -/
  behind : List Char := []
  deriving DecidableEq, Repr

/-- The bracket depth after a character of code. -/
def depthAfter (depth : Nat) (c : Char) : Nat :=
  if ['(', '[', '\x7b'].contains c then depth + 1
  else if [')', ']', '\x7d'].contains c then depth - 1
  else depth

/-- Reads a character of code, with the text after it: what is written for it, and what is
known then. -/
def State.readCode (s : State) (c : Char) (ahead : List Char) : Char × State :=
  if c = '#' then (c, { s with mode := .comment })
  else if c = '"' then (c, { s with mode := .string })
  else
    let depth := depthAfter s.depth c
    if c = '\n' && depth == 0 && !continues s.behind ahead then
      (';', { mode := .code, depth, behind := ';' :: s.behind })
    else (c, { mode := .code, depth, behind := c :: s.behind })

/-- Reads a character, with the text after it. The line end that closes a comment is code. -/
def State.read (s : State) (c : Char) (ahead : List Char) : Char × State :=
  match s.mode with
  | .code => s.readCode c ahead
  | .comment => if c = '\n' then s.readCode c ahead else (c, s)
  | .string =>
    if c = '\\' then (c, { s with mode := .escape })
    else if c = '"' then (c, { s with mode := .code, behind := c :: s.behind })
    else (c, s)
  | .escape => (c, { s with mode := .string })

/-- Writes the rest of a source of which the beginning is known. -/
def separateFrom (s : State) : List Char → List Char
  | [] => []
  | c :: rest =>
    let (d, s) := s.read c rest
    d :: separateFrom s rest

/-- The source with each separating line end replaced by `;`. -/
def separate (source : List Char) : List Char := separateFrom {} source

@[simp]
theorem length_separateFrom (s : State) (cs : List Char) :
    (separateFrom s cs).length = cs.length := by
  induction cs generalizing s with
  | nil => rfl
  | cons c rest ih => simp [separateFrom, ih]

/-- Offsets into the result are offsets into the source. -/
@[simp]
theorem length_separate (source : List Char) : (separate source).length = source.length :=
  length_separateFrom {} source

end Layout

end Mandate
