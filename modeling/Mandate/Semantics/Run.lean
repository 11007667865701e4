/-
  Mandate.Semantics.Run

  The rules tied together. Each rule runs the parts of its construct with one
  unit of fuel less, so the engine is total; a run that needs more fuel than it
  was given stops as exhausted.
-/

import Mandate.Semantics.Instruction

namespace Mandate

/-- The engine with an amount of fuel. -/
def engine : Nat → Engine
  | 0 => ⟨0, fun _ _ _ => throw .exhausted, fun _ _ _ => throw .exhausted⟩
  | fuel + 1 =>
    ⟨fuel,
      fun self mode n => Semantics.expression (engine fuel) self mode n,
      fun self p origin => Semantics.instruction (engine fuel) self p origin⟩

/-- Runs a program tree from a state. -/
def Machine.run (m : Machine) (fuel : Nat) (program : Node) :
    EStateM.Result Halt Machine (Option Value) :=
  (engine fuel).run none program m

end Mandate
