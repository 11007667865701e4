/-
  Mandate.Trace

  Traces: what happened, line by line. Each line has the level from which on it
  is shown.

    1  the parts of a run and its result
    2  every call, with its arguments and result
    3  every instruction that is run, and the tokens of the source
-/

import Mandate.Text.CodePoint

namespace Mandate

/-- A line of a trace. -/
structure Event where
  level : Nat
  line : Text
  deriving DecidableEq, Repr, Inhabited

/-- What happened. -/
abbrev Trace := Array Event

/-- The lines that are shown at a level. -/
def Trace.shownAt (t : Trace) (level : Nat) : List Text :=
  (t.toList.filter fun e => e.level ≤ level).map Event.line

end Mandate
