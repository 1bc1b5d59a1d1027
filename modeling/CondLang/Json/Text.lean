import CondLang.Json
import CondLang.Json.Token

/-!
The compact text of a JSON tree.
-/

namespace CondLang.Json

mutual

def tokensOnto (tail : List Token) : Json → List Token
  | null => .null :: tail
  | bool b => .bool b :: tail
  | int n => .int n :: tail
  | real literal => .real literal :: tail
  | str s => .str s :: tail
  | arr items => .openArr :: itemTokensOnto (.closeArr :: tail) [] items
  | obj members => .openObj :: memberTokensOnto (.closeObj :: tail) [] members

def itemTokensOnto (tail lead : List Token) : List Json → List Token
  | [] => tail
  | j :: js => lead ++ tokensOnto (itemTokensOnto tail [.comma] js) j

def memberTokensOnto (tail lead : List Token) : List (Option String × Json) → List Token
  | [] => tail
  | (name, j) :: ms =>
    lead ++ .str name :: .colon :: tokensOnto (memberTokensOnto tail [.comma] ms) j

end

def tokens (j : Json) : List Token :=
  j.tokensOnto []

def compact (j : Json) : String :=
  String.ofList (j.tokens.flatMap Token.chars)

end CondLang.Json
