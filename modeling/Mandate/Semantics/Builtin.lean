/-
  Mandate.Semantics.Builtin

  The built-in words. All but `input` take one operand; `input` can do without.
-/

import Mandate.Semantics.Engine

namespace Mandate.Semantics

/-- Stops unless a datatype is that of something with a length. -/
def requireSequence (found : Datatype) (origin : Origin) : Run Unit := do
  unless (← found.hasKind .string) || (← Datatype.anyArray.accepts found) do
    throw (Halt.unexpected [Datatype.anyArray, Datatype.string] found origin)

/-- The number that a payload spells, if it spells one. -/
def spelledNumber (p : Payload) : Except Fault (Option Float) :=
  match p with
  | .text t => Number.read t.chars
  | _ => .error .noPart

/-- The truth value that a payload spells, if it spells one. -/
def spelledBoolean (p : Payload) : Option Bool :=
  match p with
  | .text t =>
    if t = Text.ofString "true" then some true
    else if t = Text.ofString "false" then some false else none
  | _ => none

/-- Where an operand comes from. -/
def originOf (operand : Node) : Except Fault Origin :=
  match operand.origin? with
  | some o => .ok o
  | none => .error .noPart

/-- `input`, with a prompt or without. -/
def input (E : Engine) (self : Option Payload) (prompt : Node) (origin : Origin) :
    Run Value := do
  match prompt with
  | .data .null => pure ()
  | n => Run.ask (← E.computeAs self Datatype.string n).payload
  return ⟨.text (← Run.readLine), Datatype.string, origin⟩

/-- A word on a text. -/
def onText (word : Builtin) (p : Payload) (operand : Node) (origin : Origin) :
    Run Value := do
  match word with
  | .toNumber =>
    match ← spelledNumber p with
    | some x => return ⟨.number x, Datatype.number, origin⟩
    | none => Run.fail (.notNumber <$> p.plain) (← originOf operand)
  | .toBoolean =>
    match spelledBoolean p with
    | some b => return ⟨.bool b, Datatype.boolean, origin⟩
    | none => Run.fail (.notBoolean <$> p.plain) (← originOf operand)
  | .isNumber => return ⟨.bool (← spelledNumber p).isSome, Datatype.boolean, origin⟩
  -- Only `isBoolean` is left.
  | _ => return ⟨.bool (spelledBoolean p).isSome, Datatype.boolean, origin⟩

/-- A built-in word and its operand. -/
def builtin (E : Engine) (self : Option Payload) (word : Builtin) (operand : Node)
    (origin : Origin) : Run Value := do
  match word with
  | .input => input E self operand origin
  | word =>
    let v ← E.compute self operand
    match word with
    | .length =>
      requireSequence v.datatype v.origin
      return ⟨.number (Float.ofNat (← v.payload.length)), Datatype.number, origin⟩
    | .toString => return ⟨← v.rendered, Datatype.string, origin⟩
    | word =>
      let v ← Run.expect Datatype.string v
      onText word v.payload operand origin

end Mandate.Semantics
