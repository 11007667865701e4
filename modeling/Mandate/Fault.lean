/-
  Mandate.Fault

  What can go wrong outside the language. A program that was checked by its own
  datatypes cannot meet most of these; one loaded from a document, or one whose
  arrays hold other things than their datatype says, can.
-/

namespace Mandate

/-- An operation met something it has no meaning for. -/
inductive Fault where
  /-- The operation is not defined on data of this kind. -/
  | unsuitable
  /-- The data has no such part. -/
  | noPart
  /-- An array datatype has no element. -/
  | noElement
  /-- A text does not read as what it should be, or a number has too many digits to be one. -/
  | unreadable
  /-- A whole number is too large for a number or a count. -/
  | tooLarge
  /-- Something is too long to be kept. -/
  | oversized
  /-- A node is used in a place where it has no meaning. -/
  | misplaced
  /-- A datatype of this kind, as it is written inside data, accepts nothing and refuses
  nothing. -/
  | unknownKind (kind : String)
  /-- No arithmetic operator is written so. -/
  | unknownArithmetic (operator : String)
  /-- No comparison is written so. -/
  | unknownComparison (operator : String)
  /-- No binary operator is written so. -/
  | unknownBinary (operator : String)
  deriving DecidableEq, Repr, Inhabited

/-- What there is to say about a fault, if anything. -/
def Fault.message? : Fault → Option String
  | .unknownKind kind => some ("unknown datatype kind " ++ kind)
  | .unknownArithmetic op => some ("unknown arithmetic operator " ++ op)
  | .unknownComparison op => some ("unknown comparison operator " ++ op)
  | .unknownBinary op => some ("unknown binary operator " ++ op)
  | _ => none

end Mandate
