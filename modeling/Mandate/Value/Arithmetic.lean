/-
  Mandate.Value.Arithmetic

  The operators on payloads. On numbers they are those of double precision
  floats, except that a division by zero and a power outside the range have a
  result. Texts and lists can be joined, repeated and compared, and every
  operator refuses what it has no meaning for.

  A result that is not a number is an object. Which one depends on the operator
  and its operands; if it is a new one, its number is the `id` that the operator is
  given.
-/

import Mandate.Text.Template
import Mandate.Value

namespace Mandate.Number

/-- The quotient. A zero divisor gives an infinite result with the sign of both, or none if
the dividend is zero or no number. -/
def quotient (x y : Float) : Float :=
  if y == 0 then
    if x == 0 || x.isNaN then nan
    else ofMagnitude ((x < 0) != y.toBits.toNat.testBit 63) infinityBits
  else x / y

/-- The exact quotient of whole numbers, rounded. -/
def wholeQuotient (i j : Int) : Except Fault Float :=
  let bits := nearestBits i.natAbs j.natAbs
  if bits < infinityBits then .ok (ofMagnitude ((i < 0) != (j < 0)) bits) else .error .tooLarge

/-- Whether a whole number or a number is odd. -/
def Quantity.isOdd : Quantity → Bool
  | .whole i => i % 2 = 1
  | .real x =>
    match toInt? x with
    | some i => i % 2 = 1
    | none => false

/-- Whether a quantity is below zero. -/
def Quantity.isNegative (a : Quantity) : Bool := a.compare (.whole 0) = some .lt

/-- The quotient of quantities. -/
def Quantity.div (a b : Quantity) : Except Fault Float := do
  if b.isZero then
    if a.isZero then return nan
    return quotient (← a.toFloat) (← b.toFloat)
  match a, b with
  | .whole i, .whole j => wholeQuotient i j
  | a, b => return (← a.toFloat) / (← b.toFloat)

/-- The power of quantities. A whole number that is too large counts as beyond the range. -/
def Quantity.pow (a b : Quantity) : Float :=
  match a.toFloat, b.toFloat with
  | .ok x, .ok y => x.pow y
  | _, _ => ofMagnitude (a.isNegative && b.isOdd) infinityBits

end Mandate.Number

namespace Mandate.Payload

/-- The quantity of a payload that has one. -/
def quantity (p : Payload) : Except Fault Number.Quantity :=
  match p.quantity? with
  | some q => .ok q
  | none => .error .unsuitable

/-! ## Sums and products -/

/-- The sum of quantities, or texts or lists one after the other. -/
def add (id : Nat) : Payload → Payload → Except Fault Payload
  | .text s, .text t => .ok (.text (s ++ t))
  | .list as, .list bs => .ok (.list (as ++ bs))
  | a, b => do return ofQuantity (.made id) (← (← a.quantity).add (← b.quantity))

/-- The largest count of anything. -/
def countLimit : Nat := Nat.pow 2 63 - 1

/-- How long something may be. -/
def sizeLimit : Nat := Nat.pow 2 32

/-- A payload several times over. A text beyond every count is too large, a list only too long
to be kept. -/
def repeated (count : Int) : Payload → Except Fault Payload
  | .text t =>
    if count < -countLimit - 1 || countLimit < count then .error .tooLarge
    else if t.isEmpty then .ok (.text t)
    else if countLimit < t.length * count.toNat then .error .tooLarge
    else if sizeLimit < t.length * count.toNat then .error .oversized
    else .ok (.text (List.replicate count.toNat t).flatten)
  | .list items =>
    if count < -countLimit - 1 || countLimit < count then .error .tooLarge
    else if items.isEmpty then .ok (.list [])
    else if sizeLimit < items.length * count.toNat then .error .oversized
    else .ok (.list (List.replicate count.toNat items).flatten)
  | _ => .error .unsuitable

/-- The product of quantities, or a text or list repeated a whole number of times. -/
def multiply (id : Nat) (a b : Payload) : Except Fault Payload :=
  match a.quantity?, b.quantity? with
  | some x, some y => ofQuantity (.made id) <$> x.mul y
  | some (.whole i), none => b.repeated i
  | none, some (.whole i) => a.repeated i
  | _, _ => .error .unsuitable

/-- The opposite of a quantity. -/
def negate (id : Nat) (p : Payload) : Except Fault Payload := do
  return ofQuantity (.made id) (← p.quantity).neg

/-- Whether a payload counts as odd. A text is taken for a template: filled, it is no number. -/
def isOdd : Payload → Except Fault Bool
  | .text t => do
    Text.Template.fillOnce t.chars
    return false
  | p => do return (← p.quantity).isOdd

/-- What a quotient is that is no number: a zero divisor is outside the domain, all else is
computed. -/
def quotientObject (id : Nat) (divisor : Number.Quantity) : NanObject :=
  if divisor.isZero then .outside else .made id

/-- What a power or a remainder is that is no number: the operands are outside the domain, unless
one of them is no number already. -/
def domainObject (id : Nat) (a b : Number.Quantity) : NanObject :=
  if a.isNaN || b.isNaN then .made id else .outside

/-- The power. A base beyond the range makes it infinite, and then the exponent is looked at for
the sign alone. -/
def power (id : Nat) (a b : Payload) : Except Fault Payload := do
  let base ← a.quantity
  match base.toFloat with
  | .ok _ =>
    let exponent ← b.quantity
    return real (domainObject id base exponent) (base.pow exponent)
  | .error _ =>
    let negative ← if base.isNegative then b.isOdd else pure false
    return .number (Number.ofMagnitude negative Number.infinityBits)

/-- The arithmetic operators apart from the sum. -/
def arithmetic (id : Nat) (op : Slot BinaryOp) (a b : Payload) : Except Fault Payload :=
  match op with
  | .proper .subtract => do return ofQuantity (.made id) (← (← a.quantity).sub (← b.quantity))
  | .proper .multiply => a.multiply id b
  | .proper .divide => do
    let dividend ← a.quantity
    let divisor ← b.quantity
    return real (quotientObject id divisor) (← dividend.div divisor)
  | .proper .modulo => do
    let x ← (← a.quantity).toFloat
    let y ← (← b.quantity).toFloat
    return real (domainObject id (.real x) (.real y)) (Number.remainder x y)
  | .proper .power => a.power id b
  | op => do throw (.unknownArithmetic (← BinaryOp.plain op))

/-! ## Comparison -/

mutual

/-- How two payloads compare. Lists compare by the first elements that differ, then by
length. -/
def order : Payload → Payload → Except Fault (Option Ordering)
  | .text s, .text t => .ok (some (compare (s.map CodePoint.value) (t.map CodePoint.value)))
  | .list as, .list bs => orderAll as bs
  | a, b => do return (← a.quantity).compare (← b.quantity)

/-- How two lists compare. -/
def orderAll : List Payload → List Payload → Except Fault (Option Ordering)
  | [], [] => .ok (some .eq)
  | [], _ :: _ => .ok (some .lt)
  | _ :: _, [] => .ok (some .gt)
  | a :: as, b :: bs => if isOneNan a b || a.same b then orderAll as bs else order a b

end

/-- The comparison operators. -/
def compares (op : Slot BinaryOp) (a b : Payload) : Except Fault Bool :=
  match op with
  | .proper .less => do return (← a.order b) = some .lt
  | .proper .more => do return (← a.order b) = some .gt
  | .proper .atMost => do return (← a.order b).any Ordering.isLE
  | .proper .atLeast => do return (← a.order b).any Ordering.isGE
  | op => do throw (.unknownComparison (← BinaryOp.plain op))

end Mandate.Payload
