import CondLang.Expr
import CondLang.Text.Literal

/-!
The canonical text of a condition. No character is escaped, so only the trees whose leaves can be
written down have a text that reads back.
-/

namespace CondLang.Expr

def textOnto (tail : List Char) : Expr → List Char
  | var name => name.toList ++ tail
  | int n => Literal.int n ++ tail
  | str s => Literal.str s ++ tail
  | bool b => Literal.bool b ++ tail
  | unary op e => '(' :: op.keyword.toList ++ ' ' :: textOnto (')' :: tail) e
  | binary op l r =>
    '(' :: op.keyword.toList ++ ' ' :: textOnto (' ' :: textOnto (')' :: tail) r) l

def text (e : Expr) : String :=
  String.ofList (e.textOnto [])

end CondLang.Expr
