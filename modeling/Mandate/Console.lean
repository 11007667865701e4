/-
  Mandate.Console

  The console: lines a program can read, and what it has written. Printed lines
  and prompts share one record in the order they came in.
-/

import Mandate.Value.Text

namespace Mandate

/-- Something a program wrote. -/
inductive Message where
  | printed (line : Text)
  /-- What `input` was given to ask with, and its text. -/
  | prompted (prompt : Payload) (line : Text)
  deriving Repr, Inhabited

/-- The line of a message. -/
def Message.line : Message → Text
  | .printed line => line
  | .prompted _ line => line

/-- Lines to read, and what was written. -/
structure Console where
  pending : List Text := []
  record : Array Message := #[]
  deriving Repr, Inhabited

namespace Console

/-- One more printed line. -/
def print (c : Console) (line : Text) : Console :=
  { c with record := c.record.push (.printed line) }

/-- One more prompt, with its text. -/
def ask (c : Console) (prompt : Payload) (line : Text) : Console :=
  { c with record := c.record.push (.prompted prompt line) }

/-- The next line, and the console without it. After the last line all lines are empty. -/
def read (c : Console) : Text × Console :=
  (c.pending.headD [], { c with pending := c.pending.tail })

/-- All lines written, prompts among them. -/
def lines (c : Console) : List Text := c.record.toList.map Message.line

/-- The printed lines. -/
def output (c : Console) : List Text :=
  c.record.toList.filterMap fun
    | .printed line => some line
    | .prompted .. => none

/-- The prompts. -/
def prompts (c : Console) : List Payload :=
  c.record.toList.filterMap fun
    | .prompted prompt _ => some prompt
    | .printed _ => none

end Console

end Mandate
