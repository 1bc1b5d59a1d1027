import CondLang.Expr
import CondLang.Text.Literal
import CondLang.Text.Quoted

/-!
Outlines: the shape of every node by name and what it holds, with texts quoted and escaped, on one
line (`outline`) or with each part of a node on a line of its own (`indentedOutline`).
-/

namespace CondLang

namespace Expr

def Shape.opening : Shape → List Char
  | var => "Variable(".toList
  | int => "Int(".toList
  | str => "Str(".toList
  | bool => "Bool(".toList
  | unary => "Unary \x7b".toList
  | binary => "Binary \x7b".toList

/-- What stands around the parts of a node at some depth. -/
structure Layout where
  leafOpen : Nat → List Char
  leafClose : Nat → List Char
  formOpen : Nat → List Char
  formNext : Nat → List Char
  formClose : Nat → List Char

namespace Layout

def line : Layout where
  leafOpen _ := []
  leafClose _ := []
  formOpen _ := [' ']
  formNext _ := [',', ' ']
  formClose _ := [' ']

def newline (depth : Nat) : List Char :=
  '\n' :: List.replicate (4 * depth) ' '

def indented : Layout where
  leafOpen depth := newline (depth + 1)
  leafClose depth := ',' :: newline depth
  formOpen depth := newline (depth + 1)
  formNext depth := ',' :: newline (depth + 1)
  formClose depth := ',' :: newline depth

def leafOnto (layout : Layout) (depth : Nat) (tail content : List Char) : List Char :=
  layout.leafOpen depth ++ (content ++ (layout.leafClose depth ++ ')' :: tail))

end Layout

def outlineOnto (hidden : Char → Bool) (layout : Layout) (depth : Nat) (tail : List Char) :
    Expr → List Char
  | var name =>
    Shape.var.opening ++ layout.leafOnto depth tail (Quoted.textWith hidden name.toList)
  | int n => Shape.int.opening ++ layout.leafOnto depth tail (Literal.int n)
  | str s => Shape.str.opening ++ layout.leafOnto depth tail (Quoted.textWith hidden s.toList)
  | bool b => Shape.bool.opening ++ layout.leafOnto depth tail (Literal.bool b)
  | unary op e =>
    Shape.unary.opening ++ (layout.formOpen depth ++ ("op: ".toList ++ (op.name.toList ++
      (layout.formNext depth ++ ("operand: ".toList ++
        outlineOnto hidden layout (depth + 1) (layout.formClose depth ++ '\x7d' :: tail) e)))))
  | binary op l r =>
    Shape.binary.opening ++ (layout.formOpen depth ++ ("op: ".toList ++ (op.name.toList ++
      (layout.formNext depth ++ ("left: ".toList ++
        outlineOnto hidden layout (depth + 1) (layout.formNext depth ++ ("right: ".toList ++
          outlineOnto hidden layout (depth + 1) (layout.formClose depth ++ '\x7d' :: tail) r)) l)))))

def outlineWith (hidden : Char → Bool) (layout : Layout) (e : Expr) : String :=
  String.ofList (e.outlineOnto hidden layout 0 [])

def outline : Expr → String :=
  outlineWith Quoted.isControl .line

def indentedOutline : Expr → String :=
  outlineWith Quoted.isControl .indented

end Expr

end CondLang
