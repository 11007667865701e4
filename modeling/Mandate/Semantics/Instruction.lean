/-
  Mandate.Semantics.Instruction

  Running instructions. An instruction comes to a value if it is `eval` or runs
  one, and then whatever follows in the same sequence is not run.
-/

import Mandate.Semantics.Expression

namespace Mandate.Semantics

/-! ## Assignment -/

/-- The place that a target stands for. A variable that is not there yet is made. -/
def place (E : Engine) (self : Option Payload) : Node → Run Place
  | .nameTarget name o => do return .cell (← Run.cellFor name o)
  | .indexTarget target i _ => do
    let base ← place E self target
    -- What is indexed has to be an array already before the index is looked at.
    let array ← Run.read base
    unless ← Datatype.anyArray.accepts array.datatype do
      throw (Halt.unexpected [Datatype.anyArray] array.datatype (← originOf target))
    return .element base (← E.computeAs self Datatype.number i)
  | _ => Run.fault .misplaced

/-- An assignment. The datatype to keep to is that of the old value, as it is before the new
one is computed. -/
def assign (E : Engine) (self : Option Payload) (target value : Node) : Run Unit := do
  let p ← place E self target
  let old ← Run.read p
  let v ← E.computeAs self old.datatype value
  -- The place is looked up again: computing the value may have changed what it leads to.
  Run.write p v

/-! ## Printing -/

/-- The texts of expressions, one after the other. -/
def printedAll (E : Engine) (self : Option Payload) : List Node → Run Text
  | [] => return []
  | n :: ns => do
    let s ← (← E.compute self n).printed
    return s ++ (← printedAll E self ns)

/-! ## Control -/

/-- Runs payloads one after the other until one comes to a value. -/
def sequence (E : Engine) (self : Option Payload) (origin : Origin) :
    List Payload → Run (Option Value)
  | [] => return none
  | p :: ps => do
    match ← E.perform self p origin with
    | some v => return some v
    | none => sequence E self origin ps

/-- Whether a condition holds. -/
def condition (E : Engine) (self : Option Payload) (c : Node) : Run Bool := do
  return (← E.computeAs self Datatype.boolean c).payload.truth

/-- `while`, for at most a number of rounds. -/
def repeatWhile (E : Engine) (self : Option Payload) (c body : Node) : Nat → Run (Option Value)
  | 0 => throw .exhausted
  | rounds + 1 => do
    if ← condition E self c then
      match ← Run.body (E.run self body) with
      | some v => return some v
      | none => repeatWhile E self c body rounds
    else return none

/-- Runs an instruction. -/
def execute (E : Engine) (self : Option Payload) : Node → Run (Option Value)
  | .array es o => do sequence E self o ((← Node.series es).map Payload.ofNode)
  | .print parts _ => do
    Run.print (← printedAll E self (← Node.series parts))
    return none
  | .assign target value _ => do
    assign E self target value
    return none
  | .eval result _ => do return some (← E.compute self result)
  | .exec _ o => Run.fail (.ok (.misplacedWord "exec")) o
  | .builtin word _ o => Run.fail (.ok (.misplacedWord word.keyword)) o
  | .branch c whenTrue whenFalse _ => do
    if ← condition E self c then Run.body (E.run self whenTrue)
    else
      match whenFalse with
      | .data .null => return none
      | n => Run.body (E.run self n)
  | .loop c body _ => repeatWhile E self c body E.limit
  | _ => Run.fault .misplaced

/-- Runs an instruction that a payload holds, and notes it. Only what comes from somewhere can
be run. -/
def executePayload (E : Engine) (self : Option Payload) (p : Payload) : Run (Option Value) := do
  match p.origin? with
  | none => Run.fault .noPart
  | some o =>
    Run.note 3 ("run " ++ p.label ++ " at " ++ (← o.shown))
    match p with
    | .node n => execute E self n
    | _ => Run.fault .misplaced

/-- Runs a payload. A list is run as a sequence, and a tree as the instruction it stands for.
The origin is that of the array the payload was taken from. -/
def instruction (E : Engine) (self : Option Payload) (p : Payload) (origin : Origin) :
    Run (Option Value) := do
  match p with
  | .list items => sequence E self origin items
  | .node n =>
    let v ← Run.expect Datatype.instruction (← E.evaluate self .hold n)
    match v.payload with
    | .list items => sequence E self v.origin items
    | p => executePayload E self p
  | _ => Run.fail (.ok .instructionWithoutValue) origin

end Mandate.Semantics
