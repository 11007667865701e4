/-
  Mandate.Semantics.Engine

  What it takes to run a program, tied in a knot elsewhere. Each rule of the
  language says what one construct does, given an engine that runs the parts.

  Where a rule runs a part it passes on the payload that `self` stands for, which
  is that of the function or closure being called.
-/

import Mandate.Machine

namespace Mandate

/-- How a node is evaluated. -/
inductive Mode where
  /-- For its value. -/
  | compute
  /-- For the instruction it stands for: array literals, `exec` and built-in words are left as
  they are. -/
  | hold
  deriving DecidableEq, Repr, Inhabited

/-- The parts of a program, ready to run. -/
structure Engine where
  /-- How often a loop may go round. -/
  limit : Nat
  /-- The value of a node. -/
  evaluate : Option Payload → Mode → Node → Run Value
  /-- What running a payload as an instruction comes to, if to anything. The origin is that of
  the array it was taken from. -/
  perform : Option Payload → Payload → Origin → Run (Option Value)

namespace Engine

/-- The value of an expression. -/
def compute (E : Engine) (self : Option Payload) (n : Node) : Run Value :=
  E.evaluate self .compute n

/-- The value of an expression that may stand where a datatype is required. -/
def computeAs (E : Engine) (self : Option Payload) (t : Datatype) (n : Node) : Run Value := do
  Run.expect t (← E.compute self n)

/-- What running a node comes to. -/
def run (E : Engine) (self : Option Payload) (n : Node) : Run (Option Value) :=
  E.perform self (Payload.ofNode n) Origin.none

/-- The values of expressions, from left to right. -/
def computeAll (E : Engine) (self : Option Payload) : List Node → Run (List Value)
  | [] => return []
  | n :: ns => do
    let v ← E.compute self n
    return v :: (← computeAll E self ns)

end Engine

end Mandate
