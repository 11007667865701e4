/-
  Mandate.Grammar.Production

  The grammar of programs. Each production has a left side, `Production.lhs`,
  and a right side, `Production.rhs`; a program is what `Nonterminal.program`
  derives. Precedence and associativity are in the productions: `logic` is the
  loosest binary level and `power` the tightest, and every level is left
  recursive.

  `Symbol.weight` orders the symbols so that every production but those of
  `program` has a right side that outweighs its left side; reducing a stack of
  symbols therefore always makes it lighter (`Production.lhs_weight_lt`).
-/

import Mandate.Grammar.Terminal

namespace Mandate

/-- What a derivation tree can be of, tokens apart. -/
inductive Nonterminal where
  | program | expression | instruction
  | logic | equality | comparison | sum | product | power | unary | suffixed
  | arguments | primary | params | param | datatype | datatypes
  | lines | moreParts | moreExpressions | moreParams | moreDatatypes
  deriving DecidableEq, Repr, Inhabited

/-- A symbol of the grammar. -/
inductive Symbol where
  | leaf (t : Terminal)
  | branch (n : Nonterminal)
  deriving DecidableEq, Repr, Inhabited

/-- The productions, grouped by left side. -/
inductive Production where
  | programLinesLast | programLines | programLast | programEmpty
  | expressionInstruction | expressionLogic
  | printMany | printOne | eval | exec | ifElse | ifThen | whileDo | assign
  | logicEquality | logicAnd | logicAmpersand | logicOr | logicBar
  | equalityComparison | equalityEqual | equalityNotEqual
  | comparisonSum | comparisonLess | comparisonMore | comparisonAtMost | comparisonAtLeast
  | sumProduct | sumPlus | sumMinus
  | productPower | productStar | productSlash | productPercent
  | powerUnary | powerCaret
  | unarySuffixed | unaryPlus | unaryMinus | unaryLen | unaryToString | unaryToNumber
  | unaryToBoolean | unaryIsNumber | unaryIsBoolean | unaryInputPrompt | unaryInput
  | suffixedPrimary | suffixedIndex | suffixedCall | suffixedCallEmpty
  | argumentsMany | argumentsOne
  | primaryString | primaryNumber | primaryTrue | primaryFalse | primaryName
  | primaryGroup | primaryArrayMany | primaryArrayOne | primaryArrayEmpty
  | primaryFunction | primaryFunctionEmpty | primaryClosure | primaryClosureEmpty
  | paramsMany | paramsOne
  | paramTyped
  | datatypeName | datatypeArray | datatypeFunction | datatypeFunctionEmpty
  | datatypeClosure | datatypeClosureEmpty
  | datatypesMany | datatypesOne
  | linesExpression | linesBlank | linesMoreExpression | linesMoreBlank
  | partsOne | partsMore
  | expressionsOne | expressionsMore
  | moreParamsOne | moreParamsMore
  | moreDatatypesOne | moreDatatypesMore
  deriving DecidableEq, Repr, Inhabited

namespace Production

/-- Every production. -/
def all : List Production :=
  [.programLinesLast, .programLines, .programLast, .programEmpty,
   .expressionInstruction, .expressionLogic,
   .printMany, .printOne, .eval, .exec, .ifElse, .ifThen, .whileDo, .assign,
   .logicEquality, .logicAnd, .logicAmpersand, .logicOr, .logicBar,
   .equalityComparison, .equalityEqual, .equalityNotEqual,
   .comparisonSum, .comparisonLess, .comparisonMore, .comparisonAtMost, .comparisonAtLeast,
   .sumProduct, .sumPlus, .sumMinus,
   .productPower, .productStar, .productSlash, .productPercent,
   .powerUnary, .powerCaret,
   .unarySuffixed, .unaryPlus, .unaryMinus, .unaryLen, .unaryToString, .unaryToNumber,
   .unaryToBoolean, .unaryIsNumber, .unaryIsBoolean, .unaryInputPrompt, .unaryInput,
   .suffixedPrimary, .suffixedIndex, .suffixedCall, .suffixedCallEmpty,
   .argumentsMany, .argumentsOne,
   .primaryString, .primaryNumber, .primaryTrue, .primaryFalse, .primaryName,
   .primaryGroup, .primaryArrayMany, .primaryArrayOne, .primaryArrayEmpty,
   .primaryFunction, .primaryFunctionEmpty, .primaryClosure, .primaryClosureEmpty,
   .paramsMany, .paramsOne,
   .paramTyped,
   .datatypeName, .datatypeArray, .datatypeFunction, .datatypeFunctionEmpty,
   .datatypeClosure, .datatypeClosureEmpty,
   .datatypesMany, .datatypesOne,
   .linesExpression, .linesBlank, .linesMoreExpression, .linesMoreBlank,
   .partsOne, .partsMore,
   .expressionsOne, .expressionsMore,
   .moreParamsOne, .moreParamsMore,
   .moreDatatypesOne, .moreDatatypesMore]

theorem mem_all (p : Production) : p ∈ all := by
  cases p <;> decide

/-- The nonterminal a production derives. -/
def lhs : Production → Nonterminal
  | .programLinesLast | .programLines | .programLast | .programEmpty => .program
  | .expressionInstruction | .expressionLogic => .expression
  | .printMany | .printOne | .eval | .exec | .ifElse | .ifThen | .whileDo | .assign =>
    .instruction
  | .logicEquality | .logicAnd | .logicAmpersand | .logicOr | .logicBar => .logic
  | .equalityComparison | .equalityEqual | .equalityNotEqual => .equality
  | .comparisonSum | .comparisonLess | .comparisonMore | .comparisonAtMost
  | .comparisonAtLeast => .comparison
  | .sumProduct | .sumPlus | .sumMinus => .sum
  | .productPower | .productStar | .productSlash | .productPercent => .product
  | .powerUnary | .powerCaret => .power
  | .unarySuffixed | .unaryPlus | .unaryMinus | .unaryLen | .unaryToString | .unaryToNumber
  | .unaryToBoolean | .unaryIsNumber | .unaryIsBoolean | .unaryInputPrompt
  | .unaryInput => .unary
  | .suffixedPrimary | .suffixedIndex | .suffixedCall | .suffixedCallEmpty => .suffixed
  | .argumentsMany | .argumentsOne => .arguments
  | .primaryString | .primaryNumber | .primaryTrue | .primaryFalse | .primaryName
  | .primaryGroup | .primaryArrayMany | .primaryArrayOne | .primaryArrayEmpty
  | .primaryFunction | .primaryFunctionEmpty | .primaryClosure
  | .primaryClosureEmpty => .primary
  | .paramsMany | .paramsOne => .params
  | .paramTyped => .param
  | .datatypeName | .datatypeArray | .datatypeFunction | .datatypeFunctionEmpty
  | .datatypeClosure | .datatypeClosureEmpty => .datatype
  | .datatypesMany | .datatypesOne => .datatypes
  | .linesExpression | .linesBlank | .linesMoreExpression | .linesMoreBlank => .lines
  | .partsOne | .partsMore => .moreParts
  | .expressionsOne | .expressionsMore => .moreExpressions
  | .moreParamsOne | .moreParamsMore => .moreParams
  | .moreDatatypesOne | .moreDatatypesMore => .moreDatatypes

/-- The symbols a production derives them as. -/
def rhs : Production → List Symbol
  | .programLinesLast => [.branch .lines, .branch .expression]
  | .programLines => [.branch .lines]
  | .programLast => [.branch .expression]
  | .programEmpty => []
  | .expressionInstruction => [.branch .instruction]
  | .expressionLogic => [.branch .logic]
  | .printMany => [.leaf .printKw, .branch .logic, .branch .moreParts]
  | .printOne => [.leaf .printKw, .branch .logic]
  | .eval => [.leaf .evalKw, .branch .expression]
  | .exec => [.leaf .execKw, .branch .expression]
  | .ifElse => [.leaf .ifKw, .branch .logic, .leaf .thenKw, .branch .expression,
      .leaf .elseKw, .branch .expression]
  | .ifThen => [.leaf .ifKw, .branch .logic, .leaf .thenKw, .branch .expression]
  | .whileDo => [.leaf .whileKw, .branch .logic, .leaf .doKw, .branch .expression]
  | .assign => [.branch .suffixed, .leaf .assignArrow, .branch .expression]
  | .logicEquality => [.branch .equality]
  | .logicAnd => [.branch .logic, .leaf .andKw, .branch .equality]
  | .logicAmpersand => [.branch .logic, .leaf .ampersand, .branch .equality]
  | .logicOr => [.branch .logic, .leaf .orKw, .branch .equality]
  | .logicBar => [.branch .logic, .leaf .bar, .branch .equality]
  | .equalityComparison => [.branch .comparison]
  | .equalityEqual => [.branch .equality, .leaf .equal, .branch .comparison]
  | .equalityNotEqual => [.branch .equality, .leaf .notEqual, .branch .comparison]
  | .comparisonSum => [.branch .sum]
  | .comparisonLess => [.branch .comparison, .leaf .less, .branch .sum]
  | .comparisonMore => [.branch .comparison, .leaf .more, .branch .sum]
  | .comparisonAtMost => [.branch .comparison, .leaf .atMost, .branch .sum]
  | .comparisonAtLeast => [.branch .comparison, .leaf .atLeast, .branch .sum]
  | .sumProduct => [.branch .product]
  | .sumPlus => [.branch .sum, .leaf .plus, .branch .product]
  | .sumMinus => [.branch .sum, .leaf .minus, .branch .product]
  | .productPower => [.branch .power]
  | .productStar => [.branch .product, .leaf .star, .branch .power]
  | .productSlash => [.branch .product, .leaf .slash, .branch .power]
  | .productPercent => [.branch .product, .leaf .percent, .branch .power]
  | .powerUnary => [.branch .unary]
  | .powerCaret => [.branch .power, .leaf .caret, .branch .unary]
  | .unarySuffixed => [.branch .suffixed]
  | .unaryPlus => [.leaf .plus, .branch .unary]
  | .unaryMinus => [.leaf .minus, .branch .unary]
  | .unaryLen => [.leaf .lenKw, .branch .unary]
  | .unaryToString => [.leaf .toStringKw, .branch .unary]
  | .unaryToNumber => [.leaf .toNumberKw, .branch .unary]
  | .unaryToBoolean => [.leaf .toBooleanKw, .branch .unary]
  | .unaryIsNumber => [.leaf .isNumberKw, .branch .unary]
  | .unaryIsBoolean => [.leaf .isBooleanKw, .branch .unary]
  | .unaryInputPrompt => [.leaf .inputKw, .branch .suffixed]
  | .unaryInput => [.leaf .inputKw]
  | .suffixedPrimary => [.branch .primary]
  | .suffixedIndex =>
    [.branch .suffixed, .leaf .openSquare, .branch .expression, .leaf .closeSquare]
  | .suffixedCall =>
    [.branch .suffixed, .leaf .openRound, .branch .arguments, .leaf .closeRound]
  | .suffixedCallEmpty => [.branch .suffixed, .leaf .openRound, .leaf .closeRound]
  | .argumentsMany => [.branch .expression, .branch .moreExpressions]
  | .argumentsOne => [.branch .expression]
  | .primaryString => [.leaf .string]
  | .primaryNumber => [.leaf .number]
  | .primaryTrue => [.leaf .trueKw]
  | .primaryFalse => [.leaf .falseKw]
  | .primaryName => [.leaf .name]
  | .primaryGroup => [.leaf .openRound, .branch .expression, .leaf .closeRound]
  | .primaryArrayMany =>
    [.leaf .openSquare, .branch .expression, .branch .moreExpressions, .leaf .closeSquare]
  | .primaryArrayOne => [.leaf .openSquare, .branch .expression, .leaf .closeSquare]
  | .primaryArrayEmpty => [.leaf .openSquare, .leaf .closeSquare]
  | .primaryFunction =>
    [.leaf .bar, .branch .params, .leaf .bar, .leaf .thinArrow, .branch .datatype,
     .branch .primary]
  | .primaryFunctionEmpty =>
    [.leaf .bar, .leaf .bar, .leaf .thinArrow, .branch .datatype, .branch .primary]
  | .primaryClosure =>
    [.leaf .openRound, .branch .params, .leaf .closeRound, .leaf .fatArrow,
     .branch .datatype, .branch .primary]
  | .primaryClosureEmpty =>
    [.leaf .openRound, .leaf .closeRound, .leaf .fatArrow, .branch .datatype,
     .branch .primary]
  | .paramsMany => [.branch .param, .branch .moreParams]
  | .paramsOne => [.branch .param]
  | .paramTyped => [.leaf .name, .leaf .colon, .branch .datatype]
  | .datatypeName => [.leaf .name]
  | .datatypeArray => [.leaf .arrayKw, .leaf .less, .branch .datatype, .leaf .more]
  | .datatypeFunction =>
    [.leaf .bar, .branch .datatypes, .leaf .bar, .leaf .thinArrow, .branch .datatype]
  | .datatypeFunctionEmpty => [.leaf .bar, .leaf .bar, .leaf .thinArrow, .branch .datatype]
  | .datatypeClosure =>
    [.leaf .openRound, .branch .datatypes, .leaf .closeRound, .leaf .fatArrow,
     .branch .datatype]
  | .datatypeClosureEmpty =>
    [.leaf .openRound, .leaf .closeRound, .leaf .fatArrow, .branch .datatype]
  | .datatypesMany => [.branch .datatype, .branch .moreDatatypes]
  | .datatypesOne => [.branch .datatype]
  | .linesExpression => [.branch .expression, .leaf .semicolon]
  | .linesBlank => [.leaf .semicolon]
  | .linesMoreExpression => [.branch .lines, .branch .expression, .leaf .semicolon]
  | .linesMoreBlank => [.branch .lines, .leaf .semicolon]
  | .partsOne => [.leaf .dot, .branch .logic]
  | .partsMore => [.branch .moreParts, .leaf .dot, .branch .logic]
  | .expressionsOne => [.leaf .comma, .branch .expression]
  | .expressionsMore => [.branch .moreExpressions, .leaf .comma, .branch .expression]
  | .moreParamsOne => [.leaf .comma, .branch .param]
  | .moreParamsMore => [.branch .moreParams, .leaf .comma, .branch .param]
  | .moreDatatypesOne => [.leaf .comma, .branch .datatype]
  | .moreDatatypesMore => [.branch .moreDatatypes, .leaf .comma, .branch .datatype]

end Production

namespace Nonterminal

/-- Every nonterminal. -/
def all : List Nonterminal :=
  [.program, .expression, .instruction, .logic, .equality, .comparison, .sum, .product,
   .power, .unary, .suffixed, .arguments, .primary, .params, .param, .datatype,
   .datatypes, .lines, .moreParts, .moreExpressions, .moreParams, .moreDatatypes]

theorem mem_all (n : Nonterminal) : n ∈ all := by
  cases n <;> decide

/-- The position of a nonterminal among all of them. -/
def index (n : Nonterminal) : Nat := n.ctorIdx

/-- How heavy a nonterminal is: more than its left side for each unit production. -/
def weight : Nonterminal → Nat
  | .program => 32
  | .expression => 33
  | .instruction => 34
  | .arguments | .params | .datatypes | .lines => 32
  | .moreParts | .moreExpressions | .moreParams | .moreDatatypes => 32
  | .logic => 35
  | .equality => 36
  | .comparison => 37
  | .sum => 38
  | .product => 39
  | .power => 40
  | .unary => 41
  | .suffixed => 42
  | .primary => 43
  | .param | .datatype => 43

end Nonterminal

namespace Symbol

/-- How heavy a symbol is; every weight is between 32 and 63. -/
def weight : Symbol → Nat
  | .leaf _ => 63
  | .branch n => n.weight

end Symbol

/-- The weight of a sequence of symbols. -/
def Symbol.total : List Symbol → Nat
  | [] => 0
  | s :: ss => s.weight + Symbol.total ss

namespace Production

/-- Outside `program`, a right side outweighs its left side. -/
theorem lhs_weight_lt (p : Production) (h : p.lhs ≠ .program) :
    p.lhs.weight < Symbol.total p.rhs := by
  revert h
  cases p <;> decide

/-- Right sides are short: a dot in one of them fits below eight. -/
theorem rhs_length_lt (p : Production) : p.rhs.length < 8 := by
  cases p <;> decide

end Production

end Mandate
