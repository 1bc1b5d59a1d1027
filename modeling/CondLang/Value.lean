import CondLang.Text.Literal

/-!
Values: integers of 64 bits with a sign, strings and booleans.
-/

namespace CondLang

inductive ValueType where
  | int
  | string
  | bool
  deriving DecidableEq, Repr

def ValueType.name : ValueType → String
  | int => "int"
  | string => "string"
  | bool => "bool"

inductive Value where
  | int (n : Int64)
  | str (s : String)
  | bool (b : Bool)
  deriving DecidableEq, Repr

namespace Value

def type : Value → ValueType
  | int _ => .int
  | str _ => .string
  | bool _ => .bool

def int? : Value → Option Int64
  | int n => some n
  | _ => none

def str? : Value → Option String
  | str s => some s
  | _ => none

def bool? : Value → Option Bool
  | bool b => some b
  | _ => none

/-- The value as a literal, so that the string `1` and the number 1 look different. -/
def display : Value → String
  | int n => String.ofList (Literal.int n)
  | str s => String.ofList (Literal.str s)
  | bool b => String.ofList (Literal.bool b)

end Value

end CondLang
