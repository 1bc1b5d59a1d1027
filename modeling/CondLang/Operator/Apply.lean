import CondLang.EvalError

/-!
Operators on values. `and`, `or` and `not` take booleans, `eq` and `neq` two operands of one type,
and the order integers; the result is a boolean.
-/

namespace CondLang

def BinaryOp.onBools? (op : BinaryOp) (a b : Bool) : Option Bool :=
  match op with
  | and => some (a && b)
  | or => some (a || b)
  | eq => some (a == b)
  | notEq => some (a != b)
  | gt | lt | gtEq | ltEq => none

def BinaryOp.onInts? (op : BinaryOp) (a b : Int64) : Option Bool :=
  match op with
  | eq => some (a == b)
  | notEq => some (a != b)
  | gt => some (decide (a > b))
  | lt => some (decide (a < b))
  | gtEq => some (decide (a ≥ b))
  | ltEq => some (decide (a ≤ b))
  | and | or => none

def BinaryOp.onStrings? (op : BinaryOp) (a b : String) : Option Bool :=
  match op with
  | eq => some (a == b)
  | notEq => some (a != b)
  | and | or | gt | lt | gtEq | ltEq => none

def BinaryOp.onValues? (op : BinaryOp) : Value → Value → Option Bool
  | .bool a, .bool b => op.onBools? a b
  | .int a, .int b => op.onInts? a b
  | .str a, .str b => op.onStrings? a b
  | _, _ => none

def BinaryOp.apply (op : BinaryOp) (left right : Value) : Except EvalError Value :=
  match op.onValues? left right with
  | some b => .ok (.bool b)
  | none => .error (.binaryTypeMismatch op left.type right.type)

def UnaryOp.apply (op : UnaryOp) (operand : Value) : Except EvalError Value :=
  match op, operand with
  | not, .bool b => .ok (.bool !b)
  | not, v => .error (.unaryTypeMismatch op v.type)

end CondLang
