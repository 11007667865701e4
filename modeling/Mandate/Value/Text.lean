/-
  Mandate.Value.Text

  How values are written.

    * `Payload.rendered` is what `print` and `toString` give. The datatype
      decides the form, and a payload that should be a text is given as it is,
      so the result need not be a text.
    * `Payload.shown` is the form inside other data, and `Payload.plain` the form
      on its own, where a text needs no quotes.
    * `Value.shown` is the form of a value in trace lines.
-/

import Mandate.Value

namespace Mandate

/-- A closure written out. -/
def Closure.shown (c : Closure) : Except Fault String := do
  return "<closure " ++ (← (← c.datatype).shown) ++ ">"

namespace Payload

/-! ## Payloads written out -/

/-- The digits of a whole number, if they are not too many to be written. -/
def wholeText (i : Int) : Except Fault String :=
  if i.natAbs < Nat.pow 10 4300 then .ok (toString i) else .error .unreadable

mutual

/-- A payload as it is written inside other data. -/
def shown : Payload → Except Fault String
  | .null => .ok "None"
  | .bool b => .ok (Text.truthName b)
  | .int i => wholeText i
  | .number x => .ok (Number.literal x)
  | .nan _ => .ok (Number.literal Number.nan)
  | .text t => .ok t.quoted
  | .list items => do return Text.listed (← shownAll items)
  | .node n => n.shown
  | .closure c => c.shown
  | .data d => d.shown

/-- Payloads written out one by one. -/
def shownAll : List Payload → Except Fault (List String)
  | [] => .ok []
  | p :: ps => do return (← shown p) :: (← shownAll ps)

end

/-- A payload as it is written on its own. -/
def plain : Payload → Except Fault Text
  | .text t => .ok t
  | p => Text.ofString <$> p.shown

/-- The text of a payload that should be a number. -/
def numberText : Payload → Except Fault Text
  | .number x => .ok (Number.display x)
  | .nan _ => .ok (Number.display Number.nan)
  | .int i => do
    let x ← (Number.Quantity.whole i).toFloat
    return if i.natAbs < Nat.pow 10 21 then toString i else Number.literal x
  | p => p.plain

/-! ## Payloads as texts -/

/-- The word for a truth value. -/
def truthText (p : Payload) : Text := if p.truth then "true" else "false"

/-- Texts in square brackets; every item has to be a text. -/
def bracketed (items : List Payload) : Except Fault Payload := do
  let texts ← items.mapM fun
    | .text t => .ok t
    | _ => .error Fault.unsuitable
  return .text (Text.ofString "[" ++ List.intercalate ", " texts ++ "]")

/-- The text of a text that is taken for a datatype. As an array it is that of its
characters. -/
def renderedText (t : Text) : Datatype → Except Fault Payload
  | .mk .any _ _ | .mk .string _ _ | .mk .number _ _ => .ok (.text t)
  | .mk .boolean _ _ => .ok (.text (truthText (.text t)))
  | .mk .array [] _ => .error .noElement
  | .mk .array (e :: _) _ => do bracketed (← t.mapM fun point => renderedText [point] e)
  | .mk .function _ _ => .error .noPart
  | .mk .closure _ _ => .ok (.text t.quoted)
  | .mk .instruction _ _ => .ok (.text (Text.ofString ("<instruction " ++ label (.text t) ++ ">")))
  | .foreign f => do
    -- Whatever its kind, it has to have one.
    let _ ← (Datatype.foreign f).kind
    return .text t

/-- The text of a payload without parts that is taken for a kind, or for an unknown one. -/
def renderedAs (p : Payload) (t : Datatype) : Option Kind → Except Fault Payload
  | some .string => .ok p
  | some .number => .text <$> p.numberText
  | some .boolean => .ok (.text p.truthText)
  | some .array => do
    -- There is nothing to go through, but a datatype without an element is noticed first.
    let _ ← t.element
    .error .unsuitable
  | some .function => do
    return .text (Text.ofString ("<function " ++ (← (← p.ownDatatype).shown) ++ ">"))
  | some .closure => do return .text (← p.shown)
  | some .instruction => .ok (.text (Text.ofString ("<instruction " ++ p.label ++ ">")))
  | some .any | none =>
    match p with
    | .null => .ok (.text "null")
    | _ => .text <$> p.plain

/-- The text of a payload without parts that is taken for a datatype. -/
def renderedWhole (p : Payload) (t : Datatype) : Except Fault Payload := do
  match ← t.kind with
  | some .any => renderedAs p t (some p.kind)
  | k => renderedAs p t k

mutual

/-- What `print` and `toString` give for a payload taken for a datatype. A payload taken for a
text is given as it is. -/
def rendered (p : Payload) (t : Datatype) : Except Fault Payload :=
  match p with
  | .text s => renderedText s t
  | .list items =>
    match t with
    | .mk .any _ _ => do bracketed (← renderedAll items Datatype.any)
    | .mk .array _ _ => do
      let e ← t.element
      bracketed (← renderedAll items e)
    | .mk .instruction _ _ => do bracketed (← renderedAll items t)
    | _ => renderedWhole (.list items) t
  | p => renderedWhole p t

/-- What `print` and `toString` give for payloads taken for one datatype. -/
def renderedAll : List Payload → Datatype → Except Fault (List Payload)
  | [], _ => .ok []
  | p :: ps, t => do return (← rendered p t) :: (← renderedAll ps t)

end

end Payload

/-! ## Values -/

/-- What `toString` gives for a value. -/
def Value.rendered (v : Value) : Except Fault Payload := v.payload.rendered v.datatype

/-- What `print` writes for a value. -/
def Value.printed (v : Value) : Except Fault Text := do
  match ← v.rendered with
  | .text t => return t
  | _ => .error .unsuitable

/-- A value in a trace line: its text in quotes and its datatype. -/
def Value.shown (v : Value) : Except Fault String := do
  let p ← v.rendered
  return "Value(" ++ (← p.shown) ++ ": " ++ (← v.datatype.shown) ++ ")"

/-- Values in a trace line. -/
def Value.shownAll (vs : List Value) : Except Fault String := do
  return Text.listed (← vs.mapM Value.shown)

/-- What a run came to, in a trace line. -/
def Value.shownResult : Option Value → Except Fault String
  | none => .ok "None"
  | some v => v.shown

/-- A variable with its value, written out. -/
def Value.shownVariable (name : Name) (v : Value) : Except Fault String := do
  return "Variable(" ++ (← name.shown) ++ ", " ++ (← v.shown) ++ ")"

end Mandate
