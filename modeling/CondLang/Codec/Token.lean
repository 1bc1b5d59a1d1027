import CondLang.Codec.Choice
import CondLang.Token.List

/-!
Tokens and lists of tokens in JSON, as records.
-/

namespace CondLang

namespace Token

def toJson (t : Token) : Json :=
  .record [("kind", t.kind.toJson), ("whitespace_start", .int t.blankStart),
    ("whitespace_len", .int t.blankLength), ("text", .text t.text)]

def ofJson? (j : Json) : Option Token :=
  match j.fields? ["kind", "whitespace_start", "whitespace_len", "text"] with
  | some [kind, blankStart, blankLength, text] => do
    some ⟨← TokenKind.ofJson? kind, ← blankStart.offset?, ← blankLength.offset?, ← text.text?⟩
  | _ => none

end Token

namespace TokenList

def toJson (ts : TokenList) : Json :=
  .record [("tokens", .arr (ts.toList.map Token.toJson))]

def ofJson? (j : Json) : Option TokenList :=
  match j.fields? ["tokens"] with
  | some [.arr items] => (items.mapM Token.ofJson?).map TokenList.mk
  | _ => none

end TokenList

end CondLang
