/-
  Mandate.Semantics.Call

  Calls. The callee is evaluated first, then the number of arguments is checked,
  then they are evaluated, and only when all have been evaluated are they checked
  against the parameters. The body runs in a scope of its own: the parameters in
  front of what a closure saw where it was made, or in front of nothing.
-/

import Mandate.Semantics.Engine

namespace Mandate

/-- Something that can be called. -/
structure Callee where
  style : LambdaStyle
  params : Slot (List Param)
  returns : Slot Datatype
  body : Node
  /-- What the body sees besides its parameters. -/
  scope : Scope

namespace Param

/-- What is in the place of parameters, one by one. -/
def series : Slot (List Param) → Except Fault (List (Slot Param))
  | .proper ps => .ok (ps.map .proper)
  | .stray d => do return (← d.series).map .stray

/-- The datatype of what is in the place of a parameter. -/
def datatypeOf : Slot Param → Except Fault Datatype
  | .proper p => .ok p.datatype.datatype
  | .stray d => d.ownDatatype

/-- The name of what is in the place of a parameter. -/
def nameOf : Slot Param → Except Fault Name
  | .proper p => .ok p.name
  | .stray d => do return Name.ofDatum (← d.parameterName)

/-- The names of what is in the place of parameters. -/
def names : List (Slot Param) → Except Fault (List Name)
  | [] => .ok []
  | p :: ps => do return (← nameOf p) :: (← names ps)

theorem names_proper (ps : List Param) : names (ps.map .proper) = .ok (ps.map Param.name) := by
  induction ps with
  | nil => rfl
  | cons p ps ih =>
    rw [List.map_cons, names, ih]
    rfl

end Param

namespace Semantics

/-- What a value of a datatype for calls is, when called. -/
def callee (target : Value) : Run Callee := do
  match ← target.datatype.kind with
  | some .function =>
    match target.payload with
    | .node (.lambda _ ps r b _) => return ⟨.function, ps, r, b, []⟩
    | _ => Run.fault .noPart
  | some .closure =>
    match target.payload with
    | .closure c => return ⟨.closure, c.params, c.returns, c.body, c.scope⟩
    | _ => Run.fault .noPart
  | _ =>
    throw (Halt.unexpected
      [Datatype.function [] Datatype.any, Datatype.closure [] Datatype.any]
      target.datatype target.origin)

/-- Stops unless each argument may stand for its parameter. -/
def checkArguments : List (Slot Param) → List Value → Run Unit
  | p :: ps, v :: vs => do
    Run.require (← Param.datatypeOf p) v.datatype v.origin
    checkArguments ps vs
  | _, _ => return ()

/-- The error of a call that came to no value. -/
def withoutValue : LambdaStyle → RuntimeCause
  | .function => .functionWithoutValue
  | .closure => .closureWithoutValue

/-- The trace line about a call. -/
def callLine (target : Value) (args : List Value) (origin : Origin) : Except Fault String := do
  let datatype ← target.datatype.shown
  let place ← origin.shown
  return "call " ++ datatype ++ " at " ++ place ++ " with " ++ (← Value.shownAll args)

/-- The trace line about what a call came to. -/
def returnLine (result : Value) (origin : Origin) : Except Fault String := do
  let value ← result.shown
  return "return " ++ value ++ " from call at " ++ (← origin.shown)

/-- A call of a value with the values of its arguments. -/
def invoke (E : Engine) (target : Value) (callee : Callee) (params : List (Slot Param))
    (args : List Value) (origin : Origin) : Run Value := do
  checkArguments params args
  let scope ← Run.bindAll callee.scope ((← Param.names params).zip args)
  Run.note 2 (← callLine target args origin)
  -- Inside the body `self` is what was called.
  match ← Run.within scope (E.run (some target.payload) callee.body) with
  | none => Run.fail (.ok (withoutValue callee.style)) origin
  | some result =>
    Run.require callee.returns.datatype result.datatype result.origin
    Run.note 2 (← returnLine result origin)
    return result.withOrigin origin

/-- A call. -/
def call (E : Engine) (self : Option Payload) (function : Node) (args : Slot (List Node))
    (origin : Origin) : Run Value := do
  let target ← E.compute self function
  let callee ← callee target
  let params ← Param.series callee.params
  let args ← Node.series args
  -- The number of arguments is known before any of them is evaluated.
  unless params.length = args.length do
    Run.fail (.ok (.wrongArgumentCount params.length)) origin
  invoke E target callee params (← E.computeAll self args) origin

end Semantics

end Mandate
