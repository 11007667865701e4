/-
  Mandate.Semantics.Expression

  The value of an expression. An instruction is a value too: the node itself,
  until it is run.
-/

import Mandate.Semantics.Builtin
import Mandate.Semantics.Call
import Mandate.Semantics.Operator

namespace Mandate.Semantics

/-- A node that is not evaluated: an instruction. -/
def held (n : Node) : Run Value := do
  return ⟨Payload.ofNode n, Datatype.instruction, ← originOf n⟩

/-- The elements after the first, each of which has to fit the datatype of the first. -/
def furtherElements (E : Engine) (self : Option Payload) (t : Datatype) :
    List Node → Run (List Payload)
  | [] => return []
  | n :: ns => do
    let v ← E.computeAs self t n
    return v.payload :: (← furtherElements E self t ns)

/-- An array literal. The first element decides the datatype. -/
def array (E : Engine) (self : Option Payload) (elements : Slot (List Node))
    (origin : Origin) : Run Value := do
  match ← if Node.vacant elements then pure [] else Node.series elements with
  | [] => return ⟨.list [], Datatype.anyArray, origin⟩
  | n :: ns =>
    let first ← E.compute self n
    let rest ← furtherElements E self first.datatype ns
    return ⟨.list (first.payload :: rest), Datatype.array first.datatype, origin⟩

/-- What `self` stands for. -/
def selfValue (self : Option Payload) (origin : Origin) : Run Value := do
  match self with
  | none => Run.fail (.ok .selfOutside) origin
  | some (.closure c) => return ⟨.closure c, ← c.datatype, origin⟩
  | some p => return ⟨p, ← p.ownDatatype, origin⟩

/-- A variable, or `self`. -/
def named (self : Option Payload) (name : Name) (origin : Origin) : Run Value := do
  match name with
  | .proper "self" => selfValue self origin
  | name =>
    let m ← get
    match m.store.lookup? m.scope name with
    | some v => return v.withOrigin origin
    | none => Run.fail (.undefinedVariable <$> name.plain) origin

/-- An element of an array, or a character of a text. -/
def index (E : Engine) (self : Option Payload) (target position : Node) (origin : Origin) :
    Run Value := do
  let t ← E.compute self target
  requireSequence t.datatype t.origin
  let i ← E.computeAs self Datatype.number position
  let n ← i.position (← t.payload.length)
  let e ← t.payload.item n
  if ← t.datatype.hasKind .string then return ⟨e, Datatype.string, origin⟩
  return ⟨e, ← t.datatype.element, origin⟩

/-- A closure literal: the closure with the current scope. -/
def closure (params : Slot (List Param)) (returns : Slot Datatype) (body : Node)
    (origin : Origin) : Run Value := do
  let id ← Run.freshObject
  let c : Closure := ⟨id, params, returns, body, origin, (← get).scope⟩
  return ⟨.closure c, ← c.datatype, origin⟩

/-- `exec`: what running its operand comes to, which has to be something. -/
def exec (E : Engine) (self : Option Payload) (instruction : Node) : Run Value := do
  match ← E.run self instruction with
  | some v => return v
  | none => Run.fail (.ok .instructionWithoutValue) (← originOf instruction)

/-- The value of a node. -/
def expression (E : Engine) (self : Option Payload) (mode : Mode) (n : Node) : Run Value := do
  match n with
  | .literal v k o => return ⟨Payload.ofDatum v, Kind.datatype k, o⟩
  | .lambda .function ps r _ o => return ⟨.node n, ← LambdaStyle.function.datatype ps r, o⟩
  | .lambda .closure ps r b o => closure ps r b o
  | .name x o => named self x o
  | .group inner o => return (← E.evaluate self mode inner).withOrigin o
  | .index t i o => index E self t i o
  | .call f args o => call E self f args o
  | .unary op e o => unary E self op e o
  | .binary op l r o => binary E self op l r o
  | .array es o =>
    match mode with
    | .compute => array E self es o
    | .hold => held n
  | .exec e _ =>
    match mode with
    | .compute => exec E self e
    | .hold => held n
  | .builtin word e o =>
    match mode with
    | .compute => builtin E self word e o
    | .hold => held n
  | n => held n

end Mandate.Semantics
