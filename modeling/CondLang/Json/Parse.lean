import CondLang.Json
import CondLang.Json.Token

/-!
Reading JSON, token by token: the state is what has to come next and the arrays and objects that are
open, the innermost first.
-/

namespace CondLang.Json

/-- An array or object of which a part has been read, the last item or member first. -/
inductive Open where
  | arr (done : List Json)
  | obj (done : List (Option String × Json))
  | member (done : List (Option String × Json)) (name : Option String)

inductive Due where
  | value
  | firstItem
  | name
  | firstName
  | colon
  | more
  | done (j : Json)

namespace Parse

def resume (j : Json) : List Open → Option (Due × List Open)
  | [] => some (.done j, [])
  | .arr done :: opens => some (.more, .arr (j :: done) :: opens)
  | .member done name :: opens => some (.more, .obj ((name, j) :: done) :: opens)
  | .obj _ :: _ => none

def valueStep (t : Token) (opens : List Open) : Option (Due × List Open) :=
  match t with
  | .null => resume .null opens
  | .bool b => resume (.bool b) opens
  | .int n => resume (.int n) opens
  | .real literal => resume (.real literal) opens
  | .str s => resume (.str s) opens
  | .openArr => some (.firstItem, .arr [] :: opens)
  | .openObj => some (.firstName, .obj [] :: opens)
  | _ => none

def nameStep (t : Token) (opens : List Open) : Option (Due × List Open) :=
  match t, opens with
  | .str name, .obj done :: opens => some (.colon, .member done name :: opens)
  | _, _ => none

def closeStep (t : Token) (opens : List Open) : Option (Due × List Open) :=
  match t, opens with
  | .closeArr, .arr done :: opens => resume (.arr done.reverse) opens
  | .closeObj, .obj done :: opens => resume (.obj done.reverse) opens
  | _, _ => none

def commaStep : List Open → Option (Due × List Open)
  | .arr done :: opens => some (.value, .arr done :: opens)
  | .obj done :: opens => some (.name, .obj done :: opens)
  | _ => none

def step (t : Token) (due : Due) (opens : List Open) : Option (Due × List Open) :=
  match due with
  | .value => valueStep t opens
  | .firstItem => if t = .closeArr then closeStep t opens else valueStep t opens
  | .name => nameStep t opens
  | .firstName => if t = .closeObj then closeStep t opens else nameStep t opens
  | .colon => if t = .colon then some (.value, opens) else none
  | .more => if t = .comma then commaStep opens else closeStep t opens
  | .done _ => none

def run (due : Due) (opens : List Open) : List Token → Option Json
  | [] =>
    match due with
    | .done j => some j
    | _ => none
  | t :: ts =>
    match step t due opens with
    | some (due, opens) => run due opens ts
    | none => none

end Parse

def ofTokens? (ts : List Token) : Option Json :=
  Parse.run .value [] ts

def parse? (s : String) : Option Json :=
  (readTokens? s.toList).bind ofTokens?

end CondLang.Json
