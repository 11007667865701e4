/-
  Mandate.Document.Datum

  Program trees as untyped data, the way a document holds them: a node has a
  label and a field for each of the label's names, and a field can hold any
  data. Nothing is checked but that the fields are there.

    * `Datum.toJson` writes data as JSON: a node is an object with its label under
      `type`; spans and datatypes are objects tagged with `__type__`.
    * `Datum.ofJson` reads it back. A missing span is the empty span at the start,
      any other missing field is refused, and unknown keys are dropped.
-/

import Mandate.Document.Json

namespace Mandate

/-! ## Labels -/

/-- The labels of nodes. -/
inductive Label where
  | literal | param | function | closure | array | name | group | index | call
  | unary | binary | nameTarget | indexTarget | print | assign | eval | exec
  | branch | loop | length | input | toString | toNumber | toBoolean
  | isNumber | isBoolean
  deriving DecidableEq, Repr, Inhabited

namespace Label

/-- Every label. -/
def all : List Label :=
  [.literal, .param, .function, .closure, .array, .name, .group, .index, .call,
   .unary, .binary, .nameTarget, .indexTarget, .print, .assign, .eval, .exec,
   .branch, .loop, .length, .input, .toString, .toNumber, .toBoolean,
   .isNumber, .isBoolean]

/-- How a label is written. -/
def text : Label → String
  | .literal => "Literal" | .param => "Param"
  | .function => "FunctionLit" | .closure => "ClosureLit"
  | .array => "ArrayLit" | .name => "Ident" | .group => "Grouping"
  | .index => "Index" | .call => "Call"
  | .unary => "UnaryOp" | .binary => "BinaryOp"
  | .nameTarget => "LValueIdent" | .indexTarget => "LValueIndex"
  | .print => "Print" | .assign => "Assign" | .eval => "Evaluate" | .exec => "Execute"
  | .branch => "If" | .loop => "While"
  | .length => "Length" | .input => "Input" | .toString => "ToString"
  | .toNumber => "ToNumber" | .toBoolean => "ToBoolean"
  | .isNumber => "IsNumber" | .isBoolean => "IsBoolean"

/-- The label with a text. -/
def ofText? (text : String) : Option Label := all.find? fun l => l.text = text

/-- The names of the fields of a node, the span apart. -/
def fields : Label → List String
  | .literal => ["value", "literal_type"]
  | .param => ["name", "datatype"]
  | .function | .closure => ["params", "return_type", "body"]
  | .array => ["elements"]
  | .name | .nameTarget => ["name"]
  | .index | .indexTarget => ["target", "index"]
  | .call => ["func", "args"]
  | .unary => ["op", "operand"]
  | .binary => ["op", "left", "right"]
  | .print => ["exprs"]
  | .assign => ["target", "value"]
  | .group | .eval | .exec | .length | .input | .toString | .toNumber | .toBoolean
  | .isNumber | .isBoolean => ["expr"]
  | .branch => ["condition", "then_branch", "else_branch"]
  | .loop => ["condition", "body"]

end Label

/-! ## Data -/

/-- A datatype in a document; its kind can be anything. -/
inductive TypeDatum where
  | mk (kind : Json) (args : List TypeDatum) (returns : Option TypeDatum)
  deriving Repr, Inhabited

/-- Data in a document. -/
inductive Datum where
  | null
  | bool (b : Bool)
  | int (i : Int)
  | number (x : Float)
  | text (s : String)
  | list (items : List Datum)
  /-- A span; its ends can be anything. -/
  | span (start stop : Json)
  | datatype (t : TypeDatum)
  /-- A node: its fields in the order of the label's names, and its span. -/
  | node (label : Label) (fields : List Datum) (span : Datum)
  deriving Repr, Inhabited

/-- The span of a node that was written without one. -/
def Datum.noSpan : Datum := .span (.int 0) (.int 0)

/-! ## Writing -/

mutual

/-- A datatype as JSON. -/
def TypeDatum.toJson : TypeDatum → Json
  | .mk kind args returns =>
    .object [("kind", kind), ("args", .list (TypeDatum.toJsonAll args)),
      ("returns", TypeDatum.toJsonReturn returns)]

/-- Datatypes as JSON, one by one. -/
def TypeDatum.toJsonAll : List TypeDatum → List Json
  | [] => []
  | t :: ts => t.toJson :: TypeDatum.toJsonAll ts

/-- A result as JSON. -/
def TypeDatum.toJsonReturn : Option TypeDatum → Json
  | none => .null
  | some t => t.toJson

end

mutual

/-- Data as JSON. -/
def Datum.toJson : Datum → Json
  | .null => .null
  | .bool b => .bool b
  | .int i => .int i
  | .number x => .number x
  | .text s => .text s
  | .list items => .list (Datum.toJsonAll items)
  | .span start stop => .object [("__type__", .text "Span"), ("start", start), ("end", stop)]
  | .datatype t => .object [("__type__", .text "DataType"), ("value", t.toJson)]
  | .node label fields place =>
    .object (("type", .text label.text) ::
      (label.fields.zip (Datum.toJsonAll fields) ++ [("span", place.toJson)]))

/-- Data as JSON, one by one. -/
def Datum.toJsonAll : List Datum → List Json
  | [] => []
  | d :: ds => d.toJson :: Datum.toJsonAll ds

end

/-! ## Reading -/

/-- Why JSON is no data. -/
inductive DocumentError where
  /-- A node with this label, as it is written, does not exist. -/
  | unknownLabel (label : String)
  /-- A node lacks a field. -/
  | missingField
  /-- A span or datatype lacks a part. -/
  | missingPart
  /-- A datatype is no object. -/
  | notObject
  /-- The label of a node or the arguments of a datatype are of the wrong sort. -/
  | wrongSort
  deriving DecidableEq, Repr, Inhabited

mutual

/-- A datatype from JSON. -/
def TypeDatum.ofJson : Json → Except DocumentError TypeDatum
  | .object ms =>
    match Json.member? "kind" ms with
    | none => .error .missingPart
    | some kind =>
      match TypeDatum.argsOfMembers ms with
      | .error e => .error e
      | .ok args =>
        match TypeDatum.returnOfMembers ms with
        | .error e => .error e
        | .ok returns => .ok (.mk kind args returns)
  | _ => .error .notObject

/-- Datatypes from JSON, one by one. -/
def TypeDatum.ofJsonAll : List Json → Except DocumentError (List TypeDatum)
  | [] => .ok []
  | j :: js =>
    match TypeDatum.ofJson j with
    | .error e => .error e
    | .ok t => (TypeDatum.ofJsonAll js).map (t :: ·)

/-- The arguments among the members of an object. Whatever can be gone through without
meeting anything is an empty list of them. -/
def TypeDatum.argsOfMembers : List (String × Json) → Except DocumentError (List TypeDatum)
  | [] => .ok []
  | (key, value) :: rest =>
    if key = "args" then
      match value with
      | .list js => TypeDatum.ofJsonAll js
      | .text s => if s = "" then .ok [] else .error .notObject
      | .object ms => if ms.isEmpty then .ok [] else .error .notObject
      | _ => .error .wrongSort
    else TypeDatum.argsOfMembers rest

/-- The result among the members of an object. -/
def TypeDatum.returnOfMembers : List (String × Json) →
    Except DocumentError (Option TypeDatum)
  | [] => .ok none
  | (key, value) :: rest =>
    if key = "returns" then
      match value with
      | .null => .ok none
      | value => (TypeDatum.ofJson value).map some
    else TypeDatum.returnOfMembers rest

end

/-- The label of a node among the members of its object. -/
def labelOfMembers (ms : List (String × Json)) : Except DocumentError Label :=
  match (Json.member? "type" ms).getD .null with
  | .text s =>
    match Label.ofText? s with
    | some l => .ok l
    | none => .error (.unknownLabel s)
  | .list _ | .object _ => .error .wrongSort
  | j => .error (.unknownLabel j.plain)

/-- Fields of which some may be missing, if none is. -/
def allFields : List (Option Datum) → Except DocumentError (List Datum)
  | [] => .ok []
  | none :: _ => .error .missingField
  | some d :: ds => (allFields ds).map (d :: ·)

mutual

/-- Data from JSON. Fields are read in the order of the label's names, and only then is it
seen whether one is missing. -/
def Datum.ofJson : Json → Except DocumentError Datum
  | .null => .ok .null
  | .bool b => .ok (.bool b)
  | .int i => .ok (.int i)
  | .number x => .ok (.number x)
  | .text s => .ok (.text s)
  | .list js => (Datum.ofJsonAll js).map .list
  | .object ms =>
    match Json.member? "__type__" ms with
    | some (.text "DataType") =>
      match Json.member? "value" ms with
      | some j => (TypeDatum.ofJson j).map .datatype
      | none => .error .missingPart
    | some (.text "Span") =>
      match Json.member? "start" ms, Json.member? "end" ms with
      | some start, some stop => .ok (.span start stop)
      | _, _ => .error .missingPart
    | _ =>
      match labelOfMembers ms with
      | .error e => .error e
      | .ok label =>
        match label.fields.mapM fun name => Datum.member? name ms with
        | .error e => .error e
        | .ok found =>
          match Datum.member? "span" ms with
          | .error e => .error e
          | .ok span? =>
            (allFields found).map fun fields =>
              .node label fields (span?.getD Datum.noSpan)

/-- Data from JSON, one by one. -/
def Datum.ofJsonAll : List Json → Except DocumentError (List Datum)
  | [] => .ok []
  | j :: js =>
    match Datum.ofJson j with
    | .error e => .error e
    | .ok d => (Datum.ofJsonAll js).map (d :: ·)

/-- The data under a key, if the key is there. -/
def Datum.member? (name : String) : List (String × Json) →
    Except DocumentError (Option Datum)
  | [] => .ok none
  | (key, value) :: rest =>
    if key = name then (Datum.ofJson value).map some else Datum.member? name rest

end

end Mandate
