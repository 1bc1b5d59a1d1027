import CondLang.Operator
import CondLang.Value

/-!
Why a condition has no value. An error knows the types of the operands, never their values.
-/

namespace CondLang

inductive EvalError where
  | undefinedVariable (name : String)
  | binaryTypeMismatch (op : BinaryOp) (left right : ValueType)
  | unaryTypeMismatch (op : UnaryOp) (operand : ValueType)
  deriving DecidableEq, Repr

namespace EvalError

def message : EvalError → String
  | undefinedVariable name => "Variable '" ++ name ++ "' is not defined."
  | binaryTypeMismatch op left right =>
    "Operation '" ++ op.keyword ++ "' cannot be applied to operands of type '" ++ left.name ++
      "' and '" ++ right.name ++ "'."
  | unaryTypeMismatch op operand =>
    "Operation '" ++ op.keyword ++ "' cannot be applied to an operand of type '" ++
      operand.name ++ "'."

end EvalError

end CondLang
