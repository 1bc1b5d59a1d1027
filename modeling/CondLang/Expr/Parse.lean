import CondLang.Expr
import CondLang.Expr.ParseError
import CondLang.Text.Literal
import CondLang.Token

/-!
Parsing. The grammar is fully parenthesised and each operator fixes the number of its operands:

    expression  ::=  variable | int | bool | string | '(' form ')'
    form        ::=  unary-operator expression | binary-operator expression expression

The parser reads the tokens from left to right, each once. Its state is what has to come next and
the forms that are open, the innermost first. A failure inside an operand is reported as a missing
expression where that operand begins, and so for every operand that is open (`unwind`).
-/

namespace CondLang

/-- A form that is waiting for one of its operands, which begins at token `start`. -/
inductive Open where
  | operand (op : UnaryOp) (start : Nat)
  | left (op : BinaryOp) (start : Nat)
  | right (op : BinaryOp) (left : Expr) (start : Nat)
  deriving DecidableEq, Repr

def Open.start : Open → Nat
  | operand _ start | left _ start | right _ _ start => start

inductive Due where
  | expression
  | operator
  /-- The parenthesis that closes the form headed by this operator; `e` is the finished form. -/
  | close (op : Operator) (e : Expr)
  | done (e : Expr)
  deriving DecidableEq, Repr

inductive ParseEvent where
  | expression (index : Nat) (token : Token)
  | form (op : Operator)
  | operandFailed (start : Nat) (error : ParseError)
  deriving DecidableEq, Repr

/-- A complete expression, and the index of the first token behind it. -/
structure Parsed where
  expr : Expr
  next : Nat
  deriving DecidableEq, Repr

structure ParseRun where
  events : List ParseEvent
  result : Except ParseError Parsed

def ParseRun.after (run : ParseRun) (events : List ParseEvent) : ParseRun :=
  ⟨events ++ run.events, run.result⟩

namespace Parse

/-- What is due once an expression is complete that ends before token `i`. -/
def resume (e : Expr) (i : Nat) : List Open → Due × List Open
  | [] => (.done e, [])
  | .operand op _ :: opens => (.close (.unary op) (.unary op e), opens)
  | .left op _ :: opens => (.expression, .right op e i :: opens)
  | .right op l _ :: opens => (.close (.binary op) (.binary op l e), opens)

def enter (op : Operator) (i : Nat) (opens : List Open) : Due × List Open :=
  match op with
  | .unary op => (.expression, .operand op i :: opens)
  | .binary op => (.expression, .left op i :: opens)

def unwind (error : ParseError) : List Open → ParseRun
  | [] => ⟨[], .error error⟩
  | o :: opens =>
    let outer := unwind ⟨.expressionExpected, o.start⟩ opens
    ⟨.operandFailed o.start error :: outer.events, outer.result⟩

inductive Step where
  | take (events : List ParseEvent) (next : Due × List Open)
  | finish (parsed : Parsed)
  | refuse (events : List ParseEvent) (cause : ParseError.Cause)

def expressionStep (i : Nat) (t : Token) (opens : List Open) : Step :=
  let events := [.expression i t]
  let leaf e := Step.take events (resume e (i + 1) opens)
  match t.kind with
  | .symbol => leaf (.var t.text)
  | .intLiteral =>
    match Literal.readInt? t.text with
    | some n => leaf (.int n)
    | none => .refuse events (.integerOutOfRange t.text)
  | .booleanLiteral =>
    match Literal.readBool? t.text with
    | some b => leaf (.bool b)
    | none => .refuse events (.unexpectedToken t.text)
  | .stringLiteral => leaf (.str (Literal.readStr t.text))
  | .leftParen => .take events (.operator, opens)
  | .rightParen => .refuse events (.unexpectedToken t.text)
  | .endOfInput => .refuse events .unexpectedEndOfInput

def operatorStep (i : Nat) (t : Token) (opens : List Open) : Step :=
  if t.kind = .symbol then
    match Operator.ofKeyword? t.text with
    | some op => .take [.form op] (enter op (i + 1) opens)
    | none => .refuse [] (.unknownOperation t.text)
  else .refuse [] (.expectedOperationName t.text)

def step (i : Nat) (t : Token) (due : Due) (opens : List Open) : Step :=
  match due with
  | .expression => expressionStep i t opens
  | .operator => operatorStep i t opens
  | .close op e =>
    if t.kind = .rightParen then .take [] (resume e (i + 1) opens)
    else .refuse [] (.missingCloseParen op)
  | .done e =>
    if t.kind = .endOfInput then .finish ⟨e, i⟩
    else .refuse [] (.unexpectedToken t.text)

def run (due : Due) (opens : List Open) (i : Nat) : List Token → ParseRun
  | [] => unwind ⟨.unexpectedEndOfInput, i⟩ opens
  | t :: ts =>
    match step i t due opens with
    | .take events (due, opens) => (run due opens (i + 1) ts).after events
    | .finish parsed => ⟨[], .ok parsed⟩
    | .refuse events cause => (unwind ⟨cause, i⟩ opens).after events

end Parse

def parseRun (tokens : List Token) : ParseRun :=
  Parse.run .expression [] 0 tokens

def parse (tokens : List Token) : Except ParseError Parsed :=
  (parseRun tokens).result

end CondLang
