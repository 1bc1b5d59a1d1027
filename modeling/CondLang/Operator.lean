/-!
Operators: one on a single operand and eight on two, each with a keyword that heads its forms and a
name in data and outlines.
-/

namespace CondLang

inductive Arity where
  | one
  | two
  deriving DecidableEq, Repr

def Arity.all : List Arity :=
  [one, two]

def Arity.name : Arity → String
  | one => "One"
  | two => "Two"

def Arity.description : Arity → String
  | one => "one operand"
  | two => "two operands"

inductive UnaryOp where
  | not
  deriving DecidableEq, Repr

def UnaryOp.all : List UnaryOp :=
  [not]

def UnaryOp.name : UnaryOp → String
  | not => "Not"

def UnaryOp.keyword : UnaryOp → String
  | not => "not"

inductive BinaryOp where
  | and
  | or
  | eq
  | notEq
  | gt
  | lt
  | gtEq
  | ltEq
  deriving DecidableEq, Repr

def BinaryOp.all : List BinaryOp :=
  [and, or, eq, notEq, gt, lt, gtEq, ltEq]

def BinaryOp.name : BinaryOp → String
  | and => "And"
  | or => "Or"
  | eq => "Eq"
  | notEq => "NotEq"
  | gt => "Gt"
  | lt => "Lt"
  | gtEq => "GtEq"
  | ltEq => "LtEq"

def BinaryOp.keyword : BinaryOp → String
  | and => "and"
  | or => "or"
  | eq => "eq"
  | notEq => "neq"
  | gt => "gt"
  | lt => "lt"
  | gtEq => "gte"
  | ltEq => "lte"

inductive Operator where
  | unary (op : UnaryOp)
  | binary (op : BinaryOp)
  deriving DecidableEq, Repr

namespace Operator

def keyword : Operator → String
  | unary op => op.keyword
  | binary op => op.keyword

def arity : Operator → Arity
  | unary _ => .one
  | binary _ => .two

def all : List Operator :=
  UnaryOp.all.map unary ++ BinaryOp.all.map binary

def outline : Operator → String
  | unary op => "Unary(" ++ op.name ++ ")"
  | binary op => "Binary(" ++ op.name ++ ")"

def ofKeyword? (name : String) : Option Operator :=
  all.find? fun op => op.keyword == name

theorem ofKeyword?_keyword (op : Operator) : ofKeyword? op.keyword = some op := by
  rcases op with op | op <;> cases op <;> decide

theorem keyword_of_ofKeyword? {name : String} {op : Operator} (h : ofKeyword? name = some op) :
    op.keyword = name := by
  simpa using List.find?_some h

end Operator

end CondLang
