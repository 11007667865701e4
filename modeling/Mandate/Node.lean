/-
  Mandate.Node

  Program trees. Every construct is an expression; `print`, assignment, `eval`,
  `exec`, `if`, `while` and the built-in words are instructions, which are values
  until they are run.

  The parser builds only some of the trees. A stored program can put any data
  anywhere, so the type has room for that: names, operators, spans, datatypes and
  lists are slots, and plain data can stand where a node belongs. What such a
  tree means is settled where it is run.
-/

import Mandate.Slot

namespace Mandate

/-! ## Operators and words -/

/-- The binary operators. -/
inductive BinaryOp where
  | and | or | add | subtract | multiply | divide | modulo | power
  | less | more | atMost | atLeast | equal | notEqual
  deriving DecidableEq, Repr, Inhabited

namespace BinaryOp

/-- Every binary operator. -/
def all : List BinaryOp :=
  [.and, .or, .add, .subtract, .multiply, .divide, .modulo, .power,
   .less, .more, .atMost, .atLeast, .equal, .notEqual]

/-- How an operator is written in a program tree. -/
def text : BinaryOp → String
  | .and => "and" | .or => "or"
  | .add => "+" | .subtract => "-" | .multiply => "*" | .divide => "/"
  | .modulo => "%" | .power => "^"
  | .less => "<" | .more => ">" | .atMost => "<=" | .atLeast => ">="
  | .equal => "=" | .notEqual => "!="

/-- The operator that data stands for. -/
def ofDatum? : Datum → Option BinaryOp
  | .text s => all.find? fun op => op.text = s
  | _ => none

/-- What is in the place of an operator, as it is written on its own. -/
def plain : Slot BinaryOp → Except Fault String
  | .proper op => .ok op.text
  | .stray d => d.plain

end BinaryOp

/-- The signs. -/
inductive UnaryOp where
  | plus | minus
  deriving DecidableEq, Repr, Inhabited

namespace UnaryOp

/-- How a sign is written in a program tree. -/
def text : UnaryOp → String
  | .plus => "+"
  | .minus => "-"

/-- The sign that data stands for. -/
def ofDatum? : Datum → Option UnaryOp
  | .text s => if s = "+" then some .plus else if s = "-" then some .minus else none
  | _ => none

end UnaryOp

/-- The built-in words. -/
inductive Builtin where
  | length | input | toString | toNumber | toBoolean | isNumber | isBoolean
  deriving DecidableEq, Repr, Inhabited

namespace Builtin

/-- Every built-in word. -/
def all : List Builtin :=
  [.length, .input, .toString, .toNumber, .toBoolean, .isNumber, .isBoolean]

/-- How a built-in word is written in a program. -/
def keyword : Builtin → String
  | .length => "len"
  | .input => "input"
  | .toString => "toString"
  | .toNumber => "toNumber"
  | .toBoolean => "toBoolean"
  | .isNumber => "isNumber"
  | .isBoolean => "isBoolean"

/-- The label of nodes with a built-in word. -/
def label : Builtin → Label
  | .length => .length
  | .input => .input
  | .toString => .toString
  | .toNumber => .toNumber
  | .toBoolean => .toBoolean
  | .isNumber => .isNumber
  | .isBoolean => .isBoolean

end Builtin

/-- The two kinds of literals that can be called. A closure sees the variables around it, a
function does not. -/
inductive LambdaStyle where
  | function | closure
  deriving DecidableEq, Repr, Inhabited

/-- The label of nodes of a style. -/
def LambdaStyle.label : LambdaStyle → Label
  | .function => .function
  | .closure => .closure

/-! ## Trees -/

/-- A parameter. -/
structure Param where
  name : Name
  datatype : Slot Datatype
  span : Origin
  deriving Repr, Inhabited

/-- A program tree. -/
inductive Node where
  /-- A value of a kind, written out. -/
  | literal (value : Datum) (kind : Slot Kind) (span : Origin)
  /-- A function or closure. -/
  | lambda (style : LambdaStyle) (params : Slot (List Param)) (returns : Slot Datatype)
      (body : Node) (span : Origin)
  | array (elements : Slot (List Node)) (span : Origin)
  | name (name : Name) (span : Origin)
  /-- Something in round brackets. -/
  | group (inner : Node) (span : Origin)
  | index (target index : Node) (span : Origin)
  | call (callee : Node) (args : Slot (List Node)) (span : Origin)
  | unary (op : Slot UnaryOp) (operand : Node) (span : Origin)
  | binary (op : Slot BinaryOp) (left right : Node) (span : Origin)
  /-- A variable to assign to. -/
  | nameTarget (name : Name) (span : Origin)
  /-- An element to assign to. -/
  | indexTarget (target index : Node) (span : Origin)
  | print (parts : Slot (List Node)) (span : Origin)
  | assign (target value : Node) (span : Origin)
  | eval (result : Node) (span : Origin)
  | exec (instruction : Node) (span : Origin)
  /-- `if`; without `else` the last branch is absent. -/
  | branch (condition whenTrue whenFalse : Node) (span : Origin)
  /-- `while`. -/
  | loop (condition body : Node) (span : Origin)
  /-- A built-in word and its operand; `input` can do without. -/
  | builtin (word : Builtin) (operand : Node) (span : Origin)
  /-- Plain data, a bare list or a parameter where a node belongs. -/
  | data (d : Datum)
  deriving Repr, Inhabited

namespace Node

/-- No node at all. -/
def absent : Node := .data .null

/-- A text written out. -/
def string (s : String) (span : Span) : Node := .literal (.text s) (.proper .string) span

/-- A number written out. -/
def number (x : Float) (span : Span) : Node := .literal (.number x) (.proper .number) span

/-- A truth value written out. -/
def boolean (b : Bool) (span : Span) : Node := .literal (.bool b) (.proper .boolean) span

/-- Where a node comes from; plain data comes from nowhere. -/
def origin? : Node → Option Origin
  | .literal _ _ s | .lambda _ _ _ _ s | .array _ s | .name _ s | .group _ s
  | .index _ _ s | .call _ _ s | .unary _ _ s | .binary _ _ _ s
  | .nameTarget _ s | .indexTarget _ _ s
  | .print _ s | .assign _ _ s | .eval _ s | .exec _ s | .branch _ _ _ s | .loop _ _ s
  | .builtin _ _ s => some s
  | .data d => d.place?.map Origin.ofDatum

/-- The span of a node. -/
def span (n : Node) : Span := (n.origin?.getD Origin.none).span

/-- What a node is called. -/
def label : Node → String
  | .literal .. => Label.literal.text
  | .lambda style .. => style.label.text
  | .array .. => Label.array.text
  | .name .. => Label.name.text
  | .group .. => Label.group.text
  | .index .. => Label.index.text
  | .call .. => Label.call.text
  | .unary .. => Label.unary.text
  | .binary .. => Label.binary.text
  | .nameTarget .. => Label.nameTarget.text
  | .indexTarget .. => Label.indexTarget.text
  | .print .. => Label.print.text
  | .assign .. => Label.assign.text
  | .eval .. => Label.eval.text
  | .exec .. => Label.exec.text
  | .branch .. => Label.branch.text
  | .loop .. => Label.loop.text
  | .builtin word .. => word.label.text
  | .data d => d.label

end Node

/-! ## Datatypes of slots -/

/-- What is in the place of a datatype. -/
def Slot.datatype : Slot Datatype → Datatype
  | .proper t => t
  | .stray d => d.asDatatype

/-- The datatype of a literal of a kind. -/
def Kind.datatype : Slot Kind → Datatype
  | .proper k => Datatype.ofKind k
  | .stray d => d.asKind

/-- The datatypes of parameters. -/
def Param.datatypes : Slot (List Param) → Except Fault (List Datatype)
  | .proper ps => .ok (ps.map fun p => p.datatype.datatype)
  | .stray d => d.parameterDatatypes

/-- The datatype of a literal that can be called. -/
def LambdaStyle.datatype (style : LambdaStyle) (params : Slot (List Param))
    (returns : Slot Datatype) : Except Fault Datatype := do
  let params ← Param.datatypes params
  match style with
  | .function => return Datatype.function params returns.datatype
  | .closure => return Datatype.closure params returns.datatype

end Mandate
