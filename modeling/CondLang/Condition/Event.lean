import CondLang.Expr.Eval
import CondLang.Expr.Parse
import CondLang.Token

/-!
What the stages of a condition tell to a log: each event has a stage, a level, a message and data.
-/

namespace CondLang

inductive Event where
  | token (t : Token)
  /-- The lexer gives up at this offset, where `found` stands. -/
  | unmatched (position : Nat) (found : Option Char)
  | unterminated (tokens : Nat)
  | parsing (event : ParseEvent)
  | evaluating
  | undefined (name : String)
  | unary (op : UnaryOp) (operand : Value)
  | binary (op : BinaryOp) (left right : Value)
  deriving DecidableEq, Repr

inductive Stage where
  | lexing
  | compiling
  | parsing
  | evaluating
  deriving DecidableEq, Repr

inductive Level where
  | debug
  | trace
  deriving DecidableEq, Repr

def Step.event? : Step → Option Event
  | lookup name none => some (.undefined name)
  | lookup _ (some _) => none
  | unary op v => some (.unary op v)
  | binary op v w => some (.binary op v w)

namespace Event

def stage : Event → Stage
  | token _ | unmatched .. => .lexing
  | unterminated _ => .compiling
  | parsing _ => .parsing
  | evaluating | undefined _ | unary .. | binary .. => .evaluating

def level : Event → Level
  | unmatched .. | unterminated _ | parsing (.expression ..) | undefined _ => .debug
  | token _ | parsing (.form _) | parsing (.operandFailed ..) | evaluating | unary .. | binary .. =>
    .trace

def message : Event → String
  | token _ => "token"
  | unmatched .. => "no token rule matches; stopping without end of input"
  | unterminated _ => "lexer stopped before end of input"
  | parsing (.expression ..) => "parse_expr"
  | parsing (.form _) => "parse_s_expr"
  | parsing (.operandFailed ..) => "operand failed"
  | evaluating => "interpret"
  | undefined _ => "undefined variable"
  | unary .. => "unary"
  | binary .. => "binary"

end Event

end CondLang
