/-
  Mandate.Halt

  Why a run stops before its end: an error that the program's author gets to
  see, a fault outside the language, or no fuel.
-/

import Mandate.Error
import Mandate.Fault

namespace Mandate

/-- Why a run stops before its end. -/
inductive Halt where
  | error (e : RuntimeError)
  | fault (f : Fault)
  /-- The run takes more steps than it was given. -/
  | exhausted
  deriving Inhabited

instance : MonadLift (Except Fault) (Except Halt) where
  monadLift
    | .ok a => .ok a
    | .error f => .error (.fault f)

/-- An error with a cause and a place. What cannot be written out cannot be reported: that is a
fault, of the place before the cause. -/
def Halt.of (cause : Except Fault RuntimeCause) (origin : Origin) : Halt :=
  match origin.shown, cause with
  | .ok _, .ok cause => .error ⟨cause, origin⟩
  | .error f, _ | .ok _, .error f => .fault f

/-- A value of another datatype than those expected. -/
def Halt.unexpected (expected : List Datatype) (found : Datatype) (origin : Origin) : Halt :=
  Halt.of
    (match Datatype.faultAll? (expected ++ [found]) with
    | none => .ok (.unexpectedDatatype expected found)
    | some f => .error f)
    origin

end Mandate
