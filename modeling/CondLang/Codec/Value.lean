import CondLang.Codec.Choice
import CondLang.Value

/-!
Values in JSON: the choice of the type, which carries the value.
-/

namespace CondLang.Value

def toJson : Value → Json
  | int n => .record [("Int", .int n.toInt)]
  | str s => .record [("Str", .text s)]
  | bool b => .record [("Bool", .bool b)]

def ofJson? (j : Json) : Option Value :=
  match j.choice? with
  | some (name, body) =>
    if name = "Int" then body.int64?.map int
    else if name = "Str" then body.text?.map str
    else if name = "Bool" then body.bool?.map bool
    else none
  | none => none

end CondLang.Value
