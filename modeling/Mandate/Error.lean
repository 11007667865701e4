/-
  Mandate.Error

  The errors a program's author gets to see. An error has a cause and the place
  it points at. Its message is one of a fixed set of texts around the place,
  which is given as raw offsets (`text`) or as line and columns (`describe`).
-/

import Mandate.Slot

namespace Mandate

/-! ## Syntax errors -/

/-- Why a source is no program. -/
inductive SyntaxCause where
  /-- A character that no token has. -/
  | invalidCharacter (character : String)
  /-- A string with no end, with its first line. -/
  | unterminatedString (text : String)
  /-- Something else than what could have come. -/
  | unexpected (expected : List String) (found : String)
  /-- A name that is no datatype. -/
  | invalidDatatype (name : String)
  /-- Two parameters of one literal with the same name. -/
  | repeatedParameter (name : String)
  /-- Something that cannot be assigned to. -/
  | invalidTarget
  deriving DecidableEq, Repr, Inhabited

/-- The message of a cause at a place. What was expected is listed in order. -/
def SyntaxCause.message (cause : SyntaxCause) (place : String) : String :=
  match cause with
  | .invalidCharacter c => "Found an invalid character, \"" ++ c ++ "\", at " ++ place
  | .unterminatedString text =>
    "Found an unterminated string literal, " ++ text ++ ", at " ++ place
  | .unexpected [] found => "Found an unexpected " ++ found ++ ", at " ++ place
  | .unexpected expected found =>
    "Expected " ++ Datatype.alternatives (expected.mergeSort fun a b => decide (a ≤ b))
      ++ ", but found " ++ found ++ ", at " ++ place
  | .invalidDatatype name => "Found an invalid datatype, " ++ name ++ ", at " ++ place
  | .repeatedParameter name =>
    "Multiple parameters share the name \"" ++ name ++ "\", at " ++ place
  | .invalidTarget => "Only a variable or an element of one can be assigned to, at " ++ place

/-- A syntax error. -/
structure SyntaxError where
  cause : SyntaxCause
  span : Span
  deriving DecidableEq, Repr, Inhabited

/-- The message with raw offsets. -/
def SyntaxError.text (e : SyntaxError) : String := e.cause.message e.span.text

/-- The message with line and columns. -/
def SyntaxError.describe (e : SyntaxError) (source : List Char) : String :=
  e.cause.message (e.span.describe source)

/-! ## Runtime errors -/

/-- Why a program cannot go on. -/
inductive RuntimeCause where
  | undefinedVariable (name : String)
  /-- A value of another datatype than those expected. -/
  | unexpectedDatatype (expected : List Datatype) (found : Datatype)
  /-- An index, as it is printed, that is no position. -/
  | outOfBounds (index : Text)
  /-- A function that came to no value. -/
  | functionWithoutValue
  /-- A closure that came to no value. -/
  | closureWithoutValue
  /-- An instruction that came to no value. -/
  | instructionWithoutValue
  /-- `self` outside of a function or closure. -/
  | selfOutside
  /-- A call with another number of arguments than there are parameters. -/
  | wrongArgumentCount (expected : Nat)
  /-- Values that cannot be compared. -/
  | cannotCompare
  /-- A text that is no number. -/
  | notNumber (text : Text)
  /-- A text that is no truth value. -/
  | notBoolean (text : Text)
  /-- A word for expressions that was run. -/
  | misplacedWord (word : String)
  deriving Inhabited

/-- The message of a cause at a place. -/
def RuntimeCause.message (cause : RuntimeCause) (place : String) : Text :=
  match cause with
  | .undefinedVariable name => "Undefined variable, " ++ name ++ ", at " ++ place
  | .unexpectedDatatype expected found =>
    "Expected a value of type " ++ Datatype.alternatives (expected.map Datatype.text)
      ++ ", but found a value of type " ++ found.text ++ ", at " ++ place
  | .outOfBounds index => "Index " ++ index ++ ", at " ++ place ++ ", is out of bounds"
  | .functionWithoutValue =>
    "The function call, at " ++ place ++ ", didn't evaluate to a value"
  | .closureWithoutValue => "The closure call, at " ++ place ++ ", didn't evaluate to a value"
  | .instructionWithoutValue =>
    "The instruction, at " ++ place ++ ", didn't evaluate to a value"
  | .selfOutside =>
    "Use of self, at " ++ place
      ++ ", is invalid as it's not being used inside of a function or closure"
  | .wrongArgumentCount n =>
    "Provided more or less than " ++ toString n
      ++ " arguments to the function or closure, at " ++ place
  | .cannotCompare =>
    "Cannot compare values of type Array, Instruction, Function or Closure, at " ++ place
  | .notNumber text => "Cannot convert \"" ++ text ++ "\", at " ++ place ++ ", to a Number"
  | .notBoolean text => "Cannot convert \"" ++ text ++ "\", at " ++ place ++ ", to a Boolean"
  | .misplacedWord word =>
    "The " ++ word ++ " keyword, at " ++ place ++ ", can only be used inside of an expression"

/-- A runtime error. -/
structure RuntimeError where
  cause : RuntimeCause
  origin : Origin
  deriving Inhabited

/-- The message with raw offsets. -/
def RuntimeError.text (e : RuntimeError) : Text := e.cause.message e.origin.text

/-- The message with line and columns. -/
def RuntimeError.describe (e : RuntimeError) (source : List Char) : Text :=
  e.cause.message (e.origin.describe source)

end Mandate
