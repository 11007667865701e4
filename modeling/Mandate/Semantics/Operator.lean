/-
  Mandate.Semantics.Operator

  Signs and binary operators. Operands are evaluated from left to right and
  checked before they are used; `and` and `or` leave the right one alone if the
  left one decides.
-/

import Mandate.Semantics.Engine
import Mandate.Value.Arithmetic

namespace Mandate

/-- Whether an operator computes a number from two numbers. -/
def BinaryOp.isArithmetic : BinaryOp → Bool
  | .subtract | .multiply | .divide | .power | .modulo => true
  | _ => false

/-- Whether an operator compares two numbers. -/
def BinaryOp.isComparison : BinaryOp → Bool
  | .less | .more | .atMost | .atLeast => true
  | _ => false

/-- Whether values of a kind can be told equal or not. -/
def Kind.isComparable : Kind → Bool
  | .array | .instruction | .function | .closure => false
  | _ => true

/-- Whether sums start from values of a kind. -/
def Kind.isSummable : Kind → Bool
  | .number | .string => true
  | _ => false

namespace Semantics

/-- The sum of numbers, or one text after another. -/
def sum (left right : Value) (origin : Origin) : Run Value := do
  unless (← left.datatype.kind).any Kind.isSummable do
    throw (Halt.unexpected [Datatype.number, Datatype.string] left.datatype left.origin)
  Run.require left.datatype right.datatype right.origin
  return ⟨← left.payload.add (← Run.freshObject) right.payload, left.datatype, origin⟩

/-- Whether two values are equal. -/
def equality (left right : Value) : Run Bool := do
  unless (← left.datatype.kind).all Kind.isComparable do
    Run.fail (.ok .cannotCompare) left.origin
  Run.require left.datatype right.datatype right.origin
  return left.payload.same right.payload

/-- Stops unless both operands are numbers. -/
def requireNumbers (left right : Value) : Run Unit := do
  Run.require Datatype.number left.datatype left.origin
  Run.require Datatype.number right.datatype right.origin

/-- An operator on the values of its operands. -/
def operate (op : Slot BinaryOp) (left right : Value) (origin : Origin) : Run Value := do
  match op with
  | .proper .add => sum left right origin
  | .proper .equal => return ⟨.bool (← equality left right), Datatype.boolean, origin⟩
  | .proper .notEqual => return ⟨.bool !(← equality left right), Datatype.boolean, origin⟩
  | .proper op =>
    if op.isArithmetic then
      requireNumbers left right
      let id ← Run.freshObject
      return ⟨← Payload.arithmetic id op left.payload right.payload, Datatype.number, origin⟩
    else if op.isComparison then
      requireNumbers left right
      return ⟨.bool (← Payload.compares op left.payload right.payload), Datatype.boolean, origin⟩
    else Run.fault (.unknownBinary op.text)
  | .stray d => Run.fault (.unknownBinary (← d.plain))

/-- `and` and `or`: the left operand decides if its truth is `decisive`, else the right one. -/
def connective (E : Engine) (self : Option Payload) (decisive : Bool) (left right : Node)
    (origin : Origin) : Run Value := do
  let l ← E.computeAs self Datatype.boolean left
  if l.payload.truth = decisive then return ⟨.bool decisive, Datatype.boolean, origin⟩
  let r ← E.computeAs self Datatype.boolean right
  return ⟨r.payload, Datatype.boolean, origin⟩

/-- A binary operator and its operands. -/
def binary (E : Engine) (self : Option Payload) (op : Slot BinaryOp) (left right : Node)
    (origin : Origin) : Run Value := do
  match op with
  | .proper .and => connective E self false left right origin
  | .proper .or => connective E self true left right origin
  | op =>
    let l ← E.compute self left
    let r ← E.compute self right
    operate op l r origin

/-- A sign and its operand. Anything but a minus changes nothing. -/
def unary (E : Engine) (self : Option Payload) (op : Slot UnaryOp) (operand : Node)
    (origin : Origin) : Run Value := do
  let v ← E.computeAs self Datatype.number operand
  match op with
  | .proper .minus => return ⟨← v.payload.negate (← Run.freshObject), Datatype.number, origin⟩
  | _ => return ⟨v.payload, Datatype.number, origin⟩

end Semantics

end Mandate
