import CondLang.Codec.Choice
import CondLang.Expr

/-!
Conditions in JSON: the choice of a node's shape with its constant, its name, or the record of its
parts. For data of unknown origin there is a limit on the depth of the tree (`ofJsonWithin?`): all
ways to write a tree nest its nodes equally deep, and what is passed over does not count.
-/

namespace CondLang.Expr

def toJson : Expr → Json
  | var name => .record [("Variable", .text name)]
  | int n => .record [("Int", .int n.toInt)]
  | str s => .record [("Str", .text s)]
  | bool b => .record [("Bool", .bool b)]
  | unary op e => .record [("Unary", .record [("op", op.toJson), ("operand", e.toJson)])]
  | binary op l r =>
    .record [("Binary", .record [("op", op.toJson), ("left", l.toJson), ("right", r.toJson)])]

def leafOfJson? (shape : String) (body : Json) : Option Expr :=
  if shape = "Variable" then body.text?.map var
  else if shape = "Int" then body.int64?.map int
  else if shape = "Str" then body.text?.map str
  else if shape = "Bool" then body.bool?.map bool
  else none

def ofJson? (j : Json) : Option Expr :=
  match _hj : j.choice? with
  | some (shape, body) =>
    if shape = "Unary" then
      match _hb : body.fields? ["op", "operand"] with
      | some [op, e] => do
        some (unary (← UnaryOp.ofJson? op) (← ofJson? e))
      | _ => none
    else if shape = "Binary" then
      match _hb : body.fields? ["op", "left", "right"] with
      | some [op, l, r] => do
        some (binary (← BinaryOp.ofJson? op) (← ofJson? l) (← ofJson? r))
      | _ => none
    else leafOfJson? shape body
  | none => none
termination_by j
decreasing_by
  all_goals
    have hbody := Json.sizeOf_body_lt _hj
    have hfield := fun f h => @Json.sizeOf_field_lt _ _ f _ _hb h
    simp only [List.mem_cons, List.not_mem_nil, or_false] at hfield
  · exact Nat.lt_trans (hfield e (.inr rfl)) hbody
  · exact Nat.lt_trans (hfield l (.inr (.inl rfl))) hbody
  · exact Nat.lt_trans (hfield r (.inr (.inr rfl))) hbody

def jsonDepth : Expr → Nat
  | var _ | int _ | str _ | bool _ => 1
  | unary _ e => e.jsonDepth + 2
  | binary _ l r => max l.jsonDepth r.jsonDepth + 2

def jsonDepthLimit : Nat := 127

def ofJsonWithin? (limit : Nat) (j : Json) : Option Expr :=
  (ofJson? j).filter fun e => e.jsonDepth ≤ limit

end CondLang.Expr
