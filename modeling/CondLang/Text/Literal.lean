import CondLang.Text.Decimal

/-!
Literals in a condition: decimal integers, two booleans, and strings between quotes without any
escape.
-/

namespace CondLang.Literal

def int (n : Int64) : List Char :=
  Decimal.numeral n.toInt

def bool : Bool → List Char
  | true => ['t', 'r', 'u', 'e']
  | false => ['f', 'a', 'l', 's', 'e']

def str (s : String) : List Char :=
  '"' :: s.toList ++ ['"']

def readInt? (text : String) : Option Int64 :=
  Decimal.readInt64? text.toList

def readBool? (text : String) : Option Bool :=
  if text = "true" then some true else if text = "false" then some false else none

/-- What stands between the quotes: all but the first and the last character, whatever they are. -/
def readStr (text : String) : String :=
  String.ofList (text.toList.drop 1).dropLast

theorem readBool?_bool (b : Bool) : readBool? (String.ofList (bool b)) = some b := by
  cases b <;> decide

theorem readStr_str (s : String) : readStr (String.ofList (str s)) = s := by
  simp [readStr, str]

end CondLang.Literal
