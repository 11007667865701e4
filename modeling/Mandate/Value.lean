/-
  Mandate.Value

  Values: what a running program computes with. A value is a payload together
  with the datatype it was checked to be and the place of the expression it came
  from.

  A payload does not always fit its datatype. An array whose first element was
  never given a value can hold anything, and assigning to one element gives the
  whole array the datatype of that element. So payloads carry their own sort,
  and each operation says which sorts it takes.
-/

import Mandate.Document.Tree
import Mandate.Scope

namespace Mandate

/-- A closure literal together with the scope it was evaluated in. Two closures are the same
only if they come from the same evaluation, which `id` counts. -/
structure Closure where
  id : Nat
  params : Slot (List Param)
  returns : Slot Datatype
  body : Node
  origin : Origin
  scope : Scope
  deriving Repr, Inhabited

/-- The datatype of a closure. -/
def Closure.datatype (c : Closure) : Except Fault Datatype :=
  LambdaStyle.closure.datatype c.params c.returns

/-- Which object a payload is that is not a number. No such payload is equal to any, itself
included, but lists take an object for equal to itself. -/
inductive NanObject where
  /-- The one that stands for all results outside the domain of an operator. -/
  | outside
  /-- The one in stored programs. -/
  | stored
  /-- One that was made by an operator on others, or on infinite numbers. -/
  | made (id : Nat)
  deriving DecidableEq, Repr, Inhabited

/-- What a value holds. -/
inductive Payload where
  /-- The content of a variable that was never given a value. -/
  | null
  | bool (b : Bool)
  /-- A whole number that arithmetic on truth values gives. -/
  | int (i : Int)
  | number (x : Float)
  /-- The result of arithmetic that has none. -/
  | nan (object : NanObject)
  | text (t : Text)
  | list (items : List Payload)
  /-- A program tree: a function, or an instruction that was not run. -/
  | node (n : Node)
  | closure (c : Closure)
  /-- A parameter, span or datatype that a stored program gives as a value. -/
  | data (d : Datum)
  deriving Repr, Inhabited

/-- A payload, the datatype it was checked to be, and where it came from. -/
structure Value where
  payload : Payload
  datatype : Datatype
  origin : Origin
  deriving Repr, Inhabited

/-- The same value from another place. -/
def Value.withOrigin (v : Value) (o : Origin) : Value := { v with origin := o }

/-- The content of a variable that was never given a value. -/
def Value.unset (o : Origin) : Value := ⟨.null, Datatype.any, o⟩

namespace Payload

/-! ## Data and trees as payloads -/

/-- A number as a payload. One that is no number is an object of its own. -/
def real (object : NanObject) (x : Float) : Payload := if x.isNaN then .nan object else .number x

mutual

/-- Data as a payload. A node is a tree, unless it is a parameter. -/
def ofDatum : Datum → Payload
  | .null => .null
  | .bool b => .bool b
  | .int i => .int i
  | .number x => real .stored x
  | .text s => .text s
  | .list items => .list (ofData items)
  | d =>
    match Node.ofDatum d with
    | .data d => .data d
    | n => .node n

/-- Data as payloads, one by one. -/
def ofData : List Datum → List Payload
  | [] => []
  | d :: ds => ofDatum d :: ofData ds

end

/-- A node as a payload: plain data becomes data, all else stays a tree. -/
def ofNode : Node → Payload
  | .data d => ofDatum d
  | n => .node n

/-- What the sort of a payload is called. -/
def label : Payload → String
  | .null => Datum.null.label
  | .bool b => (Datum.bool b).label
  | .int i => (Datum.int i).label
  | .number x => (Datum.number x).label
  | .nan _ => (Datum.number Number.nan).label
  | .text _ => (Datum.text "").label
  | .list _ => (Datum.list []).label
  | .node n => n.label
  | .closure _ => "Closure"
  | .data d => d.label

/-- The kind of a payload that has no datatype of its own. -/
def kind : Payload → Kind
  | .null | .data _ => .any
  | .bool _ => .boolean
  | .int _ | .number _ | .nan _ => .number
  | .text _ => .string
  | .list _ => .array
  | .node (.lambda .function ..) => .function
  | .node _ => .instruction
  | .closure _ => .closure

/-- Where a payload comes from; only trees and parameters come from somewhere. -/
def origin? : Payload → Option Origin
  | .node n => n.origin?
  | .data d => d.place?.map Origin.ofDatum
  | _ => none

/-- The datatype that a literal or a parameter has. -/
def ownDatatype : Payload → Except Fault Datatype
  | .node (.lambda style params returns _ _) => style.datatype params returns
  | .data d => d.ownDatatype
  | _ => .error .noPart

/-! ## Truth and equality -/

/-- The quantity that a payload counts as; truth values count as one and zero. -/
def quantity? : Payload → Option Number.Quantity
  | .bool b => some (.whole (if b then 1 else 0))
  | .int i => some (.whole i)
  | .number x => some (.real x)
  | .nan _ => some (.real Number.nan)
  | _ => none

/-- A quantity as a payload. -/
def ofQuantity (object : NanObject) : Number.Quantity → Payload
  | .whole i => .int i
  | .real x => real object x

/-- Whether a payload counts as true: all do but false, zero and what is empty. -/
def truth : Payload → Bool
  | .null => false
  | .bool b => b
  | .int i => i ≠ 0
  | .number x => x != 0
  | .nan _ => true
  | .text s => !s.isEmpty
  | .list items => !items.isEmpty
  | .node _ | .closure _ | .data _ => true

/-- Whether two payloads are one object that is not a number. -/
def isOneNan : Payload → Payload → Bool
  | .nan a, .nan b => a = b
  | _, _ => false

mutual

/-- Whether two payloads are equal. Numbers and truth values compare by quantity, lists element
by element, trees without their spans, closures by identity. -/
def same : Payload → Payload → Bool
  | .null, .null => true
  | .text s, .text t => s = t
  | .list as, .list bs => sameAll as bs
  | .node m, .node n => m.same n
  | .closure c, .closure d => c.id = d.id
  | .data d, .data e => d.same e
  | a, b =>
    match a.quantity?, b.quantity? with
    | some x, some y => x.same y
    | _, _ => false

/-- Whether two lists of payloads are equal. An element that is one object in both is not looked
at: what is not a number is then taken for equal to itself. -/
def sameAll : List Payload → List Payload → Bool
  | [], [] => true
  | a :: as, b :: bs => (isOneNan a b || same a b) && sameAll as bs
  | _, _ => false

end

end Payload

end Mandate
