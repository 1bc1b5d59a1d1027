import CondLang.Operator

/-!
Why a list of tokens is not a condition: a cause, and the index of the token at which it was
noticed, or the length of the list when the tokens ran out.
-/

namespace CondLang

inductive ParseError.Cause where
  | unexpectedToken (text : String)
  | unexpectedEndOfInput
  | expectedOperationName (found : String)
  | unknownOperation (name : String)
  | missingCloseParen (op : Operator)
  /-- An operand could not be read; why is not kept. -/
  | expressionExpected
  | integerOutOfRange (text : String)
  deriving DecidableEq, Repr

structure ParseError where
  cause : ParseError.Cause
  index : Nat
  deriving DecidableEq, Repr

namespace ParseError

def Cause.message : Cause → String
  | unexpectedToken text => "Unexpected token '" ++ text ++ "'."
  | unexpectedEndOfInput => "Unexpected end of input."
  | expectedOperationName found =>
    "Expected an operation name; found '" ++ found ++ "' instead."
  | unknownOperation name => "Unknown operation '" ++ name ++ "'."
  | missingCloseParen op =>
    "Operation '" ++ op.keyword ++ "' takes " ++ op.arity.description ++ "; ')' expected."
  | expressionExpected => "Expression expected."
  | integerOutOfRange text => "Integer literal '" ++ text ++ "' is out of range."

def message (e : ParseError) : String :=
  e.cause.message

end ParseError

end CondLang
