/-
  Mandate.Datatype

  Datatypes: what a value is checked to be.

    * `Datatype.text` is the printed form, `Array<Number>`, `|Number| -> Any`,
      `() => Any`.
    * `Datatype.accepts` tells whether a value of one datatype may stand where
      another is required.
    * `Datatype.WellFormed` picks out the datatypes a program can write: one
      element for an array, a result for a function or closure, and no other
      parts.

  A stored program may hold others, and may hold something else in the place of
  one. All that can be told of such a thing is how it is written. Asking for a
  part that is not there is a `Fault`, as is asking what an unknown kind accepts.
-/

import Mandate.Fault
import Mandate.Text.Quoted

namespace Mandate

/-- The kind of a datatype. -/
inductive Kind where
  | any | string | number | boolean | instruction | array | function | closure
  deriving DecidableEq, Repr, Inhabited

namespace Kind

/-- Every kind. -/
def all : List Kind :=
  [.any, .string, .number, .boolean, .instruction, .array, .function, .closure]

/-- The name of a kind. -/
def name : Kind → String
  | .any => "Any"
  | .string => "String"
  | .number => "Number"
  | .boolean => "Boolean"
  | .instruction => "Instruction"
  | .array => "Array"
  | .function => "Function"
  | .closure => "Closure"

/-- The kind of a name. -/
def ofName? (name : String) : Option Kind := all.find? fun k => k.name = name

end Kind

/-- What can be told of something that stands in the place of a datatype. -/
structure Foreign where
  /-- Its printed form, if it has one. -/
  printed : Except Fault String
  /-- If it has a kind at all, the kind as it is written inside data. -/
  kind? : Option (Except Fault String)
  deriving Repr, Inhabited

/-- What asking it for acceptance comes to. -/
def Foreign.refusal (f : Foreign) : Fault :=
  match f.kind? with
  | none => .noPart
  | some (.ok kind) => .unknownKind kind
  | some (.error fault) => fault

/-- A datatype: its kind, the datatypes it is made from, and what a call returns. -/
inductive Datatype where
  | mk (kind : Kind) (args : List Datatype) (returns : Option Datatype)
  /-- Something that only a stored program can put in the place of one. -/
  | foreign (f : Foreign)
  deriving Repr, Inhabited

namespace Datatype

/-- The kind of a datatype, unless it is an unknown one. -/
def kind : Datatype → Except Fault (Option Kind)
  | .mk k _ _ => .ok (some k)
  | .foreign f => if f.kind?.isSome then .ok none else .error .noPart

/-- Whether a datatype is of a kind. -/
def hasKind (t : Datatype) (k : Kind) : Except Fault Bool :=
  match t.kind with
  | .ok k' => .ok (k' = some k)
  | .error f => .error f

/-- The element of an array, or the parameters of a function or closure. -/
def args : Datatype → List Datatype
  | .mk _ as _ => as
  | .foreign _ => []

/-- What a call returns. -/
def returns : Datatype → Option Datatype
  | .mk _ _ r => r
  | .foreign _ => none

/-- The datatype of a kind that takes nothing. -/
def ofKind (k : Kind) : Datatype := .mk k [] none

/-- Whatever there is. -/
def any : Datatype := ofKind .any

/-- Texts. -/
def string : Datatype := ofKind .string

/-- Numbers. -/
def number : Datatype := ofKind .number

/-- Truth values. -/
def boolean : Datatype := ofKind .boolean

/-- Instructions. -/
def instruction : Datatype := ofKind .instruction

/-- Arrays with elements of one datatype. -/
def array (element : Datatype) : Datatype := .mk .array [element] none

/-- Functions. -/
def function (params : List Datatype) (returns : Datatype) : Datatype :=
  .mk .function params (some returns)

/-- Closures. -/
def closure (params : List Datatype) (returns : Datatype) : Datatype :=
  .mk .closure params (some returns)

/-- Arrays of anything. -/
def anyArray : Datatype := array any

/-- A datatype of a kind with a name that nobody knows. -/
def ofUnknownName (name : String) : Datatype :=
  .foreign ⟨.ok name, some (.ok (Text.quoted name))⟩

/-- A datatype of a kind that is no name, given how the kind is written. It has no printed
form. -/
def ofUnnamedKind (kind : Except Fault String) : Datatype :=
  .foreign ⟨.error .unsuitable, some kind⟩

/-- Something without a kind in the place of a datatype, given how it is written. -/
def ofOther (written : Except Fault String) : Datatype := .foreign ⟨written, none⟩

/-- Nothing in the place of a datatype. -/
def absent : Datatype := ofOther (.ok "None")

/-- The element of an array. -/
def element (t : Datatype) : Except Fault Datatype :=
  match t.args with
  | e :: _ => .ok e
  | [] => .error .noElement

/-! ## Printing -/

mutual

/-- The printed form. An array without an element shows none, and what has no printed form
shows as nothing. -/
def text : Datatype → String
  | .mk .array (e :: _) _ => "Array<" ++ e.text ++ ">"
  | .mk .array [] _ => "Array<>"
  | .mk .function ps r => "|" ++ textList ps ++ "| -> " ++ textReturn r
  | .mk .closure ps r => "(" ++ textList ps ++ ") => " ++ textReturn r
  | .mk k _ _ => k.name
  | .foreign ⟨.ok s, _⟩ => s
  | .foreign ⟨.error _, _⟩ => ""

/-- The printed forms of several datatypes, with commas between them. -/
def textList : List Datatype → String
  | [] => ""
  | [t] => t.text
  | t :: ts => t.text ++ ", " ++ textList ts

/-- The printed form of a result. A missing one shows as `None`. -/
def textReturn : Option Datatype → String
  | none => "None"
  | some t => t.text

end

mutual

/-- Why a datatype has no printed form: the first part of the form that is not there. -/
def fault? : Datatype → Option Fault
  | .mk .array (e :: _) _ => e.fault?
  | .mk .array [] _ => some .noElement
  | .mk .function ps r | .mk .closure ps r => (faultAll? ps).or (faultReturn? r)
  | .mk _ _ _ => none
  | .foreign ⟨.ok _, _⟩ => none
  | .foreign ⟨.error f, _⟩ => some f

/-- Why the first of several datatypes that has no printed form has none. -/
def faultAll? : List Datatype → Option Fault
  | [] => none
  | t :: ts => t.fault?.or (faultAll? ts)

/-- Why a result has no printed form. -/
def faultReturn? : Option Datatype → Option Fault
  | none => none
  | some t => t.fault?

end

/-- The printed form of a datatype that has one. -/
def shown (t : Datatype) : Except Fault String :=
  match t.fault? with
  | none => .ok t.text
  | some f => .error f

/-- `A`, `A or B`, `A, B or C`. -/
def alternatives : List String → String
  | [] => ""
  | [a] => a
  | as => ", ".intercalate as.dropLast ++ " or " ++ as.getLastD ""

/-! ## Acceptance -/

/-- Whether an instruction may be a value of this datatype: an instruction, or an array whose
elements may be instructions. -/
def runnable (actual : Datatype) : Except Fault Bool :=
  match actual.kind with
  | .ok (some .instruction) => .ok true
  | .ok (some .array) => do
    let k ← (← actual.element).kind
    return k = some .instruction || k = some .any
  | .ok _ => .ok false
  | .error f => .error f

mutual

/-- Whether a value of datatype `actual` may stand where `expected` is required. -/
def accepts (expected actual : Datatype) : Except Fault Bool :=
  match expected with
  | .mk .any _ _ => .ok true
  | .mk .string _ _ => actual.hasKind .string
  | .mk .number _ _ => actual.hasKind .number
  | .mk .boolean _ _ => actual.hasKind .boolean
  | .mk .instruction _ _ => actual.runnable
  | .mk .array as _ =>
    match actual.hasKind .array with
    | .ok true =>
      match as with
      | [] => .error .noElement
      | e :: _ =>
        match actual.args with
        | [] => .error .noElement
        | a :: _ => e.accepts a
    | other => other
  | .mk .function ps r =>
    match actual.hasKind .function with
    | .ok true =>
      if ps.length = actual.args.length then
        match acceptsAll ps actual.args with
        | .ok true => acceptsReturn r (actual.returns.getD absent)
        | other => other
      else .ok false
    | other => other
  | .mk .closure ps r =>
    match actual.hasKind .closure with
    | .ok true =>
      if ps.length = actual.args.length then
        match acceptsAll ps actual.args with
        | .ok true => acceptsReturn r (actual.returns.getD absent)
        | other => other
      else .ok false
    | other => other
  | .foreign f => .error f.refusal

/-- Acceptance one by one; the first refusal decides. -/
def acceptsAll : List Datatype → List Datatype → Except Fault Bool
  | p :: ps, a :: as =>
    match p.accepts a with
    | .ok true => acceptsAll ps as
    | other => other
  | _, _ => .ok true

/-- Acceptance of a result. -/
def acceptsReturn : Option Datatype → Datatype → Except Fault Bool
  | none, _ => .error .noPart
  | some r, a => r.accepts a

end

/-! ## Datatypes a program can write -/

mutual

/-- Whether a datatype is one that a program can write. -/
def wellFormed : Datatype → Bool
  | .mk .any as r | .mk .string as r | .mk .number as r | .mk .boolean as r
  | .mk .instruction as r => as.isEmpty && r.isNone
  | .mk .array [e] none => e.wellFormed
  | .mk .function ps (some r) | .mk .closure ps (some r) => wellFormedAll ps && r.wellFormed
  | _ => false

/-- Whether every datatype of a list is one that a program can write. -/
def wellFormedAll : List Datatype → Bool
  | [] => true
  | t :: ts => t.wellFormed && wellFormedAll ts

end

/-- A datatype that a program can write. -/
def WellFormed (t : Datatype) : Prop := t.wellFormed = true

instance : DecidablePred WellFormed := fun t => inferInstanceAs (Decidable (t.wellFormed = true))

end Datatype

end Mandate
