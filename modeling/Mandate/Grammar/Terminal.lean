/-
  Mandate.Grammar.Terminal

  The terminals of the language: keywords, marks, and the three open classes
  (names, numbers, strings), with the end of the text as one more.

    * `Terminal.text` is the fixed text of a keyword or mark.
    * `Terminal.label` is the name a trace line gives to a token.
    * `Terminal.describe` is how a terminal reads in an error message.
-/

namespace Mandate

/-- What a token can be. -/
inductive Terminal where
  | printKw | evalKw | execKw | ifKw | thenKw | elseKw | whileKw | doKw
  | andKw | orKw | lenKw | toStringKw | toNumberKw | toBooleanKw
  | isNumberKw | isBooleanKw | inputKw | trueKw | falseKw | arrayKw
  | assignArrow | notEqual | atMost | atLeast | thinArrow | fatArrow
  | semicolon | dot | ampersand | bar | equal | less | more
  | plus | minus | star | slash | percent | caret
  | openSquare | closeSquare | openRound | closeRound | comma | colon
  | string | number | name
  | finish
  deriving DecidableEq, Repr, Inhabited

namespace Terminal

/-- The keywords. -/
def keywords : List Terminal :=
  [.printKw, .evalKw, .execKw, .ifKw, .thenKw, .elseKw, .whileKw, .doKw,
   .andKw, .orKw, .lenKw, .toStringKw, .toNumberKw, .toBooleanKw,
   .isNumberKw, .isBooleanKw, .inputKw, .trueKw, .falseKw, .arrayKw]

/-- The marks: terminals with a fixed text that is no word. -/
def marks : List Terminal :=
  [.assignArrow, .notEqual, .atMost, .atLeast, .thinArrow, .fatArrow,
   .semicolon, .dot, .ampersand, .bar, .equal, .less, .more,
   .plus, .minus, .star, .slash, .percent, .caret,
   .openSquare, .closeSquare, .openRound, .closeRound, .comma, .colon]

/-- Every terminal. -/
def all : List Terminal :=
  keywords ++ marks ++ [.string, .number, .name, .finish]

theorem mem_all (t : Terminal) : t ∈ all := by
  cases t <;> decide

/-- The fixed text of a keyword or mark; an open class has none. -/
def text : Terminal → String
  | .printKw => "print" | .evalKw => "eval" | .execKw => "exec"
  | .ifKw => "if" | .thenKw => "then" | .elseKw => "else"
  | .whileKw => "while" | .doKw => "do" | .andKw => "and" | .orKw => "or"
  | .lenKw => "len" | .toStringKw => "toString" | .toNumberKw => "toNumber"
  | .toBooleanKw => "toBoolean" | .isNumberKw => "isNumber"
  | .isBooleanKw => "isBoolean" | .inputKw => "input"
  | .trueKw => "true" | .falseKw => "false" | .arrayKw => "Array"
  | .assignArrow => "<-" | .notEqual => "!=" | .atMost => "<=" | .atLeast => ">="
  | .thinArrow => "->" | .fatArrow => "=>"
  | .semicolon => ";" | .dot => "." | .ampersand => "&" | .bar => "|"
  | .equal => "=" | .less => "<" | .more => ">"
  | .plus => "+" | .minus => "-" | .star => "*" | .slash => "/"
  | .percent => "%" | .caret => "^"
  | .openSquare => "[" | .closeSquare => "]" | .openRound => "(" | .closeRound => ")"
  | .comma => "," | .colon => ":"
  | .string | .number | .name | .finish => ""

/-- Whether a terminal is a keyword. -/
def isKeyword (t : Terminal) : Bool := keywords.contains t

/-- The name that token listings use. The two-character marks are numbered. -/
def label : Terminal → String
  | .printKw => "PRINT" | .evalKw => "EVAL" | .execKw => "EXEC"
  | .ifKw => "IF" | .thenKw => "THEN" | .elseKw => "ELSE"
  | .whileKw => "WHILE" | .doKw => "DO" | .andKw => "AND" | .orKw => "OR"
  | .lenKw => "LEN" | .toStringKw => "TOSTRING" | .toNumberKw => "TONUMBER"
  | .toBooleanKw => "TOBOOLEAN" | .isNumberKw => "ISNUMBER"
  | .isBooleanKw => "ISBOOLEAN" | .inputKw => "INPUT"
  | .trueKw => "TRUE" | .falseKw => "FALSE" | .arrayKw => "ARRAY"
  | .assignArrow => "__ANON_0" | .notEqual => "__ANON_1" | .atMost => "__ANON_2"
  | .atLeast => "__ANON_3" | .thinArrow => "__ANON_4" | .fatArrow => "__ANON_5"
  | .semicolon => "SEMICOLON" | .dot => "DOT" | .ampersand => "AMPERSAND" | .bar => "VBAR"
  | .equal => "EQUAL" | .less => "LESSTHAN" | .more => "MORETHAN"
  | .plus => "PLUS" | .minus => "MINUS" | .star => "STAR" | .slash => "SLASH"
  | .percent => "PERCENT" | .caret => "CIRCUMFLEX"
  | .openSquare => "LSQB" | .closeSquare => "RSQB" | .openRound => "LPAR"
  | .closeRound => "RPAR" | .comma => "COMMA" | .colon => "COLON"
  | .string => "STRING" | .number => "NUMBER" | .name => "IDENT" | .finish => "$END"

/-- How a terminal reads in a message: an open class by its description, any other quoted. -/
def describe : Terminal → String
  | .name => "a name"
  | .number => "a number"
  | .string => "a string"
  | .finish => "the end of the program"
  | t => "\"" ++ t.text ++ "\""

/-- The position of a terminal among all of them. -/
def index (t : Terminal) : Nat := t.ctorIdx

end Terminal

end Mandate
