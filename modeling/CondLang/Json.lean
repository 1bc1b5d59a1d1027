/-!
JSON as a tree. Of numbers other than integers the literal is kept, and of objects all members in
their order. A string is `none` where an escape in it stands for half of a surrogate pair.
-/

namespace CondLang

inductive Json where
  | null
  | bool (b : Bool)
  | int (n : Int)
  /-- A number written with a fraction or an exponent, or as minus zero. -/
  | real (literal : String)
  | str (text : Option String)
  | arr (items : List Json)
  | obj (members : List (Option String × Json))

namespace Json

def text (s : String) : Json :=
  str (some s)

def record (members : List (String × Json)) : Json :=
  obj (members.map fun m => (some m.1, m.2))

def text? : Json → Option String
  | str s => s
  | _ => none

def bool? : Json → Option Bool
  | bool b => some b
  | _ => none

def int? : Json → Option Int
  | int n => some n
  | _ => none

end Json

end CondLang
