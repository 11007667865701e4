/-
  Mandate.Document.Inspect

  What data answers, whatever its sort. A stored program can hold any data in any
  place, and a run that comes by asks it one of these things:

    * how it is written, inside other data (`Datum.shown`) or on its own
      (`Datum.plain`),
    * whether it counts as true, and whether it equals other data, where the
      spans of nodes do not matter,
    * what it is as a datatype (`Datum.asDatatype`), and what it holds if it is
      gone through one by one (`Datum.series`).

  Data that cannot answer gives a `Fault`.
-/

import Mandate.Datatype
import Mandate.Document.Datum

namespace Mandate

/-! ## Datatypes -/

mutual

/-- What a stored datatype is in the language. -/
def TypeDatum.toDatatype : TypeDatum → Datatype
  | .mk (.text name) args returns =>
    match Kind.ofName? name with
    | some k => .mk k (TypeDatum.toDatatypes args) (TypeDatum.toResult returns)
    | none => Datatype.ofUnknownName name
  | .mk kind _ _ => Datatype.ofUnnamedKind (.ok kind.shown)

/-- What stored datatypes are, one by one. -/
def TypeDatum.toDatatypes : List TypeDatum → List Datatype
  | [] => []
  | t :: ts => t.toDatatype :: TypeDatum.toDatatypes ts

/-- What a stored result is. -/
def TypeDatum.toResult : Option TypeDatum → Option Datatype
  | none => none
  | some t => some t.toDatatype

end

mutual

/-- Whether two stored datatypes are equal. -/
def TypeDatum.same : TypeDatum → TypeDatum → Bool
  | .mk k as r, .mk k' as' r' =>
    k.same k' && TypeDatum.sameAll as as' && TypeDatum.sameResult r r'

/-- Whether two lists of stored datatypes are equal. -/
def TypeDatum.sameAll : List TypeDatum → List TypeDatum → Bool
  | [], [] => true
  | a :: as, b :: bs => a.same b && TypeDatum.sameAll as bs
  | _, _ => false

/-- Whether two stored results are equal. -/
def TypeDatum.sameResult : Option TypeDatum → Option TypeDatum → Bool
  | none, none => true
  | some a, some b => a.same b
  | _, _ => false

end

namespace Datum

/-! ## Written form -/

/-- What the sort of data is called. -/
def label : Datum → String
  | .null => "NoneType"
  | .bool _ => "bool"
  | .int _ => "int"
  | .number _ => "float"
  | .text _ => "str"
  | .list _ => "list"
  | .span .. => "Span"
  | .datatype _ => "DataType"
  | .node label _ _ => label.text

mutual

/-- Data as it is written inside other data. -/
def shown : Datum → Except Fault String
  | .null => .ok "None"
  | .bool b => .ok (Text.truthName b)
  | .int i => .ok (toString i)
  | .number x => .ok (Number.literal x)
  | .text s => .ok (Text.quoted s)
  | .list items => do return Text.listed (← shownAll items)
  | .span start stop => .ok (start.plain ++ ".." ++ stop.plain)
  | .datatype t => t.toDatatype.shown
  | .node label fields place => do
    let parts := label.fields.zip (← shownAll fields)
    return Text.record label.text (parts ++ [("span", ← shown place)])

/-- Data written out one by one. -/
def shownAll : List Datum → Except Fault (List String)
  | [] => .ok []
  | d :: ds => do return (← shown d) :: (← shownAll ds)

end

/-- Data as it is written on its own, where a text needs no quotes. -/
def plain : Datum → Except Fault String
  | .text s => .ok s
  | d => d.shown

/-! ## Truth and equality -/

/-- The quantity that data counts as; truth values count as one and zero. -/
def quantity? : Datum → Option Number.Quantity
  | .bool b => some (.whole (if b then 1 else 0))
  | .int i => some (.whole i)
  | .number x => some (.real x)
  | _ => none

/-- Whether data counts as true: all does but false, zero and what is empty. -/
def truth : Datum → Bool
  | .null => false
  | .bool b => b
  | .int i => i ≠ 0
  | .number x => x != 0
  | .text s => !s.isEmpty
  | .list items => !items.isEmpty
  | .span .. | .datatype _ | .node .. => true

/-- Whether data is not a number. -/
def isNaN : Datum → Bool
  | .number x => x.isNaN
  | _ => false

mutual

/-- Whether two pieces of data are equal. Numbers and truth values compare by quantity, lists
item by item, and nodes by their label and fields, spans aside. -/
def same : Datum → Datum → Bool
  | .null, .null => true
  | .text s, .text t => s = t
  | .list as, .list bs => sameAll as bs
  | .span a b, .span a' b' => a.same a' && b.same b'
  | .datatype t, .datatype t' => t.same t'
  | .node l fs _, .node l' fs' _ => l = l' && sameAll fs fs'
  | a, b =>
    match a.quantity?, b.quantity? with
    | some x, some y => x.same y
    | _, _ => false

/-- Whether two lists of data are equal. All stored data that is not a number is one object, which
is not equal to itself but is found to be the same one here. -/
def sameAll : List Datum → List Datum → Bool
  | [], [] => true
  | a :: as, b :: bs => (same a b || a.isNaN && b.isNaN) && sameAll as bs
  | _, _ => false

end

/-! ## Parts -/

/-- What data is in the place of a datatype. -/
def asDatatype : Datum → Datatype
  | .datatype t => t.toDatatype
  | d => Datatype.ofOther d.shown

/-- What data is in the place of the kind of a datatype: the datatype of that kind alone. -/
def asKind : Datum → Datatype
  | .text name => (TypeDatum.mk (.text name) [] none).toDatatype
  | d => Datatype.ofUnnamedKind d.shown

/-- What data holds, one by one: the items of a list, or the characters of a text. -/
def series : Datum → Except Fault (List Datum)
  | .list items => .ok items
  | .text s => .ok (s.toList.map fun c => .text (String.singleton c))
  | _ => .error .unsuitable

/-- The span of a node. -/
def place? : Datum → Option Datum
  | .node _ _ place => some place
  | _ => none

/-- The name of a parameter. -/
def parameterName : Datum → Except Fault Datum
  | .node .param [name, _] _ => .ok name
  | _ => .error .noPart

mutual

/-- The datatype that a parameter, a function or a closure has. -/
def ownDatatype : Datum → Except Fault Datatype
  | .node .param [_, t] _ => .ok t.asDatatype
  | .node .function [params, returns, _] _ => do
    return Datatype.function (← parameterDatatypes params) returns.asDatatype
  | .node .closure [params, returns, _] _ => do
    return Datatype.closure (← parameterDatatypes params) returns.asDatatype
  | _ => .error .noPart

/-- The datatypes of parameters. -/
def parameterDatatypes : Datum → Except Fault (List Datatype)
  | .list items => ownDatatypes items
  | .text s => if s.isEmpty then .ok [] else .error .noPart
  | _ => .error .unsuitable

/-- The datatypes that several have, one by one. -/
def ownDatatypes : List Datum → Except Fault (List Datatype)
  | [] => .ok []
  | d :: ds => do return (← ownDatatype d) :: (← ownDatatypes ds)

end

end Datum

end Mandate
