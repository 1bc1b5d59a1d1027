import CondLang.Json.Record
import CondLang.Operator
import CondLang.Text.Decimal
import CondLang.Token

/-!
Operators, arities and kinds of tokens in JSON, each as the choice of its name, and integers that
have to fit into 64 bits: with a sign for constants, without one for offsets.
-/

namespace CondLang

def Json.int64? (j : Json) : Option Int64 :=
  j.int?.bind Decimal.toInt64?

def Json.offset? (j : Json) : Option Nat :=
  match j.int? with
  | some n => if 0 ≤ n ∧ n.toNat < UInt64.size then some n.toNat else none
  | none => none

namespace Codec

def named? {α : Type} (name : α → String) (all : List α) (j : Json) : Option α :=
  j.plainChoice?.bind fun s => all.find? fun a => name a == s

end Codec

namespace UnaryOp

def toJson (op : UnaryOp) : Json :=
  .text op.name

def ofJson? : Json → Option UnaryOp :=
  Codec.named? name all

end UnaryOp

namespace BinaryOp

def toJson (op : BinaryOp) : Json :=
  .text op.name

def ofJson? : Json → Option BinaryOp :=
  Codec.named? name all

end BinaryOp

namespace Arity

def toJson (arity : Arity) : Json :=
  .text arity.name

def ofJson? : Json → Option Arity :=
  Codec.named? name all

end Arity

namespace TokenKind

def toJson (kind : TokenKind) : Json :=
  .text kind.name

def ofJson? : Json → Option TokenKind :=
  Codec.named? name all

end TokenKind

end CondLang
