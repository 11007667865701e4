/-
  Mandate.Program

  Sources to program trees. A source is laid out, parsed to a derivation tree,
  and the tree is given its meaning, children before parents and left to right.

    * `Meaning` is what a derivation of each symbol stands for.
    * `Production.build` is what one production makes of the meanings of its
      right side and the span of its tokens.
    * `parse` is the whole way; `tokenize` only lists the tokens.

  A program of one expression is that expression; any other is an array that
  runs its expressions in order.
-/

import Mandate.Error
import Mandate.Grammar.Parse
import Mandate.Node
import Mandate.Number.Reading

namespace Mandate

/-! ## Literals and targets -/

/-- What an escaped character stands for; an unknown one stands for itself. -/
def unescapeChar (c : Char) : Char :=
  if c = 'n' then '\n'
  else if c = 't' then '\t'
  else if c = 'r' then '\r'
  else if c = '0' then '\x00'
  else c

/-- Text with its escapes resolved. A backslash at the very end stays. -/
def unescape : List Char → List Char
  | [] => []
  | '\\' :: c :: rest => unescapeChar c :: unescape rest
  | c :: rest => c :: unescape rest

/-- The text between the first and the last character of a string token. -/
def stringValue (token : List Char) : String :=
  String.ofList (unescape (token.drop 1).dropLast)

/-- The datatype with a name of its own. -/
def namedDatatype? (name : String) : Option Datatype :=
  match Kind.ofName? name with
  | some .array | some .function | some .closure | none => none
  | some k => some (Datatype.ofKind k)

/-- The left side of an assignment as a target: a name, or an element of a target. -/
def Node.toTarget : Node → Except SyntaxError Node
  | .name n s => .ok (.nameTarget n s)
  | .index target i s =>
    match target.toTarget with
    | .ok t => .ok (.indexTarget t i s)
    | .error e => .error e
  | e => .error ⟨.invalidTarget, e.span⟩

/-- The first parameter whose name an earlier one has. -/
def repeatedParam? (seen : List Name) : List Param → Option Param
  | [] => none
  | p :: ps => if seen.any p.name.same then some p else repeatedParam? (p.name :: seen) ps

/-- Parameters with pairwise different names. -/
def distinctParams (ps : List Param) : Except SyntaxError (List Param) :=
  match repeatedParam? [] ps with
  | none => .ok ps
  | some p => .error ⟨.repeatedParameter p.name.text, p.span.span⟩

/-- The program that runs some expressions; `span` is that of all its tokens. -/
def Node.ofExpressions (es : List Node) (span : Span) : Node :=
  match es with
  | [e] => e
  | es => .array es span

/-! ## Meaning of symbols -/

/-- What a derivation of a nonterminal stands for. -/
def Nonterminal.Meaning : Nonterminal → Type
  | .params | .moreParams => List Param
  | .param => Param
  | .datatype => Datatype
  | .datatypes | .moreDatatypes => List Datatype
  | .lines | .moreParts | .moreExpressions | .arguments => List Node
  | _ => Node

/-- What a derivation of a symbol stands for; a token stands for itself. -/
def Symbol.Meaning : Symbol → Type
  | .leaf _ => Token
  | .branch n => n.Meaning

/-- What derivations of several symbols stand for. -/
inductive Meanings : List Symbol → Type where
  | nil : Meanings []
  | cons {s : Symbol} {ss : List Symbol} (head : s.Meaning) (tail : Meanings ss) :
      Meanings (s :: ss)

/-- The span of a token. -/
def Token.span (t : Token) : Span := ⟨t.start, t.stop⟩

/-- An expression with a binary operator. -/
def binaryOf (op : BinaryOp) (left right : Node) (span : Span) : Except SyntaxError Node :=
  .ok (.binary op left right span)

/-- What a production makes of the meanings of its right side. -/
def Production.build (span : Span) :
    (p : Production) → Meanings p.rhs → Except SyntaxError p.lhs.Meaning
  | .programLinesLast, .cons es (.cons e .nil) =>
    .ok (Node.ofExpressions (List.append es [e]) span)
  | .programLines, .cons es .nil => .ok (Node.ofExpressions es span)
  | .programLast, .cons e .nil => .ok e
  | .programEmpty, .nil => .ok (.array (.proper []) Span.none)
  | .expressionInstruction, .cons e .nil => .ok e
  | .expressionLogic, .cons e .nil => .ok e
  | .printMany, .cons _ (.cons e (.cons es .nil)) => .ok (.print (.proper (e :: es)) span)
  | .printOne, .cons _ (.cons e .nil) => .ok (.print (.proper [e]) span)
  | .eval, .cons _ (.cons e .nil) => .ok (.eval e span)
  | .exec, .cons _ (.cons e .nil) => .ok (.exec e span)
  | .ifElse, .cons _ (.cons c (.cons _ (.cons t (.cons _ (.cons e .nil))))) =>
    .ok (.branch c t e span)
  | .ifThen, .cons _ (.cons c (.cons _ (.cons t .nil))) => .ok (.branch c t Node.absent span)
  | .whileDo, .cons _ (.cons c (.cons _ (.cons b .nil))) => .ok (.loop c b span)
  | .assign, .cons target (.cons _ (.cons value .nil)) =>
    match Node.toTarget target with
    | .ok t => .ok (.assign t value span)
    | .error e => .error e
  | .logicEquality, .cons e .nil => .ok e
  | .logicAnd, .cons l (.cons _ (.cons r .nil)) => binaryOf .and l r span
  | .logicAmpersand, .cons l (.cons _ (.cons r .nil)) => binaryOf .and l r span
  | .logicOr, .cons l (.cons _ (.cons r .nil)) => binaryOf .or l r span
  | .logicBar, .cons l (.cons _ (.cons r .nil)) => binaryOf .or l r span
  | .equalityComparison, .cons e .nil => .ok e
  | .equalityEqual, .cons l (.cons _ (.cons r .nil)) => binaryOf .equal l r span
  | .equalityNotEqual, .cons l (.cons _ (.cons r .nil)) => binaryOf .notEqual l r span
  | .comparisonSum, .cons e .nil => .ok e
  | .comparisonLess, .cons l (.cons _ (.cons r .nil)) => binaryOf .less l r span
  | .comparisonMore, .cons l (.cons _ (.cons r .nil)) => binaryOf .more l r span
  | .comparisonAtMost, .cons l (.cons _ (.cons r .nil)) => binaryOf .atMost l r span
  | .comparisonAtLeast, .cons l (.cons _ (.cons r .nil)) => binaryOf .atLeast l r span
  | .sumProduct, .cons e .nil => .ok e
  | .sumPlus, .cons l (.cons _ (.cons r .nil)) => binaryOf .add l r span
  | .sumMinus, .cons l (.cons _ (.cons r .nil)) => binaryOf .subtract l r span
  | .productPower, .cons e .nil => .ok e
  | .productStar, .cons l (.cons _ (.cons r .nil)) => binaryOf .multiply l r span
  | .productSlash, .cons l (.cons _ (.cons r .nil)) => binaryOf .divide l r span
  | .productPercent, .cons l (.cons _ (.cons r .nil)) => binaryOf .modulo l r span
  | .powerUnary, .cons e .nil => .ok e
  | .powerCaret, .cons l (.cons _ (.cons r .nil)) => binaryOf .power l r span
  | .unarySuffixed, .cons e .nil => .ok e
  | .unaryPlus, .cons _ (.cons e .nil) => .ok (.unary (.proper .plus) e span)
  | .unaryMinus, .cons _ (.cons e .nil) => .ok (.unary (.proper .minus) e span)
  | .unaryLen, .cons _ (.cons e .nil) => .ok (.builtin .length e span)
  | .unaryToString, .cons _ (.cons e .nil) => .ok (.builtin .toString e span)
  | .unaryToNumber, .cons _ (.cons e .nil) => .ok (.builtin .toNumber e span)
  | .unaryToBoolean, .cons _ (.cons e .nil) => .ok (.builtin .toBoolean e span)
  | .unaryIsNumber, .cons _ (.cons e .nil) => .ok (.builtin .isNumber e span)
  | .unaryIsBoolean, .cons _ (.cons e .nil) => .ok (.builtin .isBoolean e span)
  | .unaryInputPrompt, .cons _ (.cons e .nil) => .ok (.builtin .input e span)
  | .unaryInput, .cons _ .nil => .ok (.builtin .input Node.absent span)
  | .suffixedPrimary, .cons e .nil => .ok e
  | .suffixedIndex, .cons e (.cons _ (.cons i (.cons _ .nil))) => .ok (.index e i span)
  | .suffixedCall, .cons f (.cons _ (.cons as (.cons _ .nil))) => .ok (.call f (.proper as) span)
  | .suffixedCallEmpty, .cons f (.cons _ (.cons _ .nil)) => .ok (.call f (.proper []) span)
  | .argumentsMany, .cons e (.cons es .nil) => .ok (List.cons (α := Node) e es)
  | .argumentsOne, .cons e .nil => .ok (List.cons (α := Node) e [])
  | .primaryString, .cons t .nil => .ok (Node.string (stringValue t.text.toList) span)
  | .primaryNumber, .cons t .nil => .ok (Node.number (Number.ofToken t.text.toList) span)
  | .primaryTrue, .cons _ .nil => .ok (Node.boolean true span)
  | .primaryFalse, .cons _ .nil => .ok (Node.boolean false span)
  | .primaryName, .cons t .nil => .ok (.name (.proper t.text) span)
  | .primaryGroup, .cons _ (.cons e (.cons _ .nil)) => .ok (.group e span)
  | .primaryArrayMany, .cons _ (.cons e (.cons es (.cons _ .nil))) =>
    .ok (.array (.proper (e :: es)) span)
  | .primaryArrayOne, .cons _ (.cons e (.cons _ .nil)) => .ok (.array (.proper [e]) span)
  | .primaryArrayEmpty, .cons _ (.cons _ .nil) => .ok (.array (.proper []) span)
  | .primaryFunction, .cons _ (.cons ps (.cons _ (.cons _ (.cons r (.cons b .nil))))) =>
    .ok (.lambda .function (.proper ps) (.proper r) b span)
  | .primaryFunctionEmpty, .cons _ (.cons _ (.cons _ (.cons r (.cons b .nil)))) =>
    .ok (.lambda .function (.proper []) (.proper r) b span)
  | .primaryClosure, .cons _ (.cons ps (.cons _ (.cons _ (.cons r (.cons b .nil))))) =>
    .ok (.lambda .closure (.proper ps) (.proper r) b span)
  | .primaryClosureEmpty, .cons _ (.cons _ (.cons _ (.cons r (.cons b .nil)))) =>
    .ok (.lambda .closure (.proper []) (.proper r) b span)
  | .paramsMany, .cons p (.cons ps .nil) => distinctParams (p :: ps)
  | .paramsOne, .cons p .nil => distinctParams [p]
  | .paramTyped, .cons t (.cons _ (.cons d .nil)) =>
    .ok (Param.mk (.proper t.text) (.proper d) t.span)
  | .datatypeName, .cons t .nil =>
    match namedDatatype? t.text with
    | some d => .ok d
    | none => .error ⟨.invalidDatatype t.text, t.span⟩
  | .datatypeArray, .cons _ (.cons _ (.cons d (.cons _ .nil))) => .ok (Datatype.array d)
  | .datatypeFunction, .cons _ (.cons ds (.cons _ (.cons _ (.cons r .nil)))) =>
    .ok (Datatype.function ds r)
  | .datatypeFunctionEmpty, .cons _ (.cons _ (.cons _ (.cons r .nil))) =>
    .ok (Datatype.function [] r)
  | .datatypeClosure, .cons _ (.cons ds (.cons _ (.cons _ (.cons r .nil)))) =>
    .ok (Datatype.closure ds r)
  | .datatypeClosureEmpty, .cons _ (.cons _ (.cons _ (.cons r .nil))) =>
    .ok (Datatype.closure [] r)
  | .datatypesMany, .cons d (.cons ds .nil) => .ok (List.cons (α := Datatype) d ds)
  | .datatypesOne, .cons d .nil => .ok (List.cons (α := Datatype) d [])
  | .linesExpression, .cons e (.cons _ .nil) => .ok (List.cons (α := Node) e [])
  | .linesBlank, .cons _ .nil => .ok (List.nil (α := Node))
  | .linesMoreExpression, .cons es (.cons e (.cons _ .nil)) =>
    .ok (List.append (α := Node) es [e])
  | .linesMoreBlank, .cons es (.cons _ .nil) => .ok es
  | .partsOne, .cons _ (.cons e .nil) => .ok (List.cons (α := Node) e [])
  | .partsMore, .cons es (.cons _ (.cons e .nil)) => .ok (List.append (α := Node) es [e])
  | .expressionsOne, .cons _ (.cons e .nil) => .ok (List.cons (α := Node) e [])
  | .expressionsMore, .cons es (.cons _ (.cons e .nil)) =>
    .ok (List.append (α := Node) es [e])
  | .moreParamsOne, .cons _ (.cons p .nil) => .ok (List.cons (α := Param) p [])
  | .moreParamsMore, .cons ps (.cons _ (.cons p .nil)) =>
    .ok (List.append (α := Param) ps [p])
  | .moreDatatypesOne, .cons _ (.cons d .nil) => .ok (List.cons (α := Datatype) d [])
  | .moreDatatypesMore, .cons ds (.cons _ (.cons d .nil)) =>
    .ok (List.append (α := Datatype) ds [d])

/-! ## Meaning of trees -/

/-- The span of a forest: from the start of its first token to the end of its last. -/
def Forest.span {ss : List Symbol} (forest : Forest ss) : Span :=
  match forest.first?, forest.last? with
  | some a, some b => ⟨a.start, b.stop⟩
  | _, _ => Span.none

mutual

/-- What a derivation tree stands for. The first error from left to right counts, and a child's
before its parent's. -/
def Tree.meaning {s : Symbol} : Tree s → Except SyntaxError s.Meaning
  | .leaf t text start => .ok (Token.mk t text start)
  | .node p children =>
    match children.meanings with
    | .ok ms => p.build children.span ms
    | .error e => .error e

/-- What the trees of a forest stand for. -/
def Forest.meanings {ss : List Symbol} : Forest ss → Except SyntaxError (Meanings ss)
  | .nil => .ok .nil
  | .cons head tail =>
    match head.meaning with
    | .ok m =>
      match tail.meanings with
      | .ok ms => .ok (.cons m ms)
      | .error e => .error e
    | .error e => .error e

end

/-! ## Sources -/

/-- The error for an offset of a source where no token matches; `text` is the source laid out.
A quote there opens a string that does not end. -/
def unreadable (source text : List Char) (offset : Nat) : SyntaxError :=
  let rest := source.drop offset
  if rest.head? = some '"' then
    let line := rest.takeWhile (· != '\n')
    ⟨.unterminatedString (String.ofList line), ⟨offset, offset + line.length⟩⟩
  else
    ⟨.invalidCharacter (String.ofList ((text.drop offset).take 1)), ⟨offset, offset + 1⟩⟩

/-- The error for a rejected source; `text` is the source laid out. A line end that was taken
for a separator is reported as what it is in the source. -/
def Rejection.toError (source text : List Char) : Rejection → SyntaxError
  | .character offset => unreadable source text offset
  | .token expected found =>
    let expected := expected.map Terminal.describe
    if found.terminal = .finish then
      ⟨.unexpected expected Terminal.finish.describe, ⟨source.length, source.length⟩⟩
    else
      let shown :=
        if (source.drop found.start).head? = some '\n' then "a new line"
        else "\"" ++ found.text ++ "\""
      ⟨.unexpected expected shown, found.span⟩

/-- The tokens of a source. -/
def tokenize (source : List Char) : Except SyntaxError (List Token) :=
  let text := Layout.separate source
  match tokensFrom 0 text with
  | .ok tokens => .ok tokens
  | .error offset => .error (unreadable source text offset)

/-- The program a source stands for. -/
def parse (source : List Char) : Except SyntaxError Node :=
  let text := Layout.separate source
  match parseTree text with
  | .ok tree => tree.meaning
  | .error rejection => .error (rejection.toError source text)

end Mandate
