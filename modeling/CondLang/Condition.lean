import CondLang.Condition.Event
import CondLang.Lexer

/-!
Conditions as text: a text is read into tokens, the tokens into a tree, and the tree is evaluated. A
text that the lexer could not read to its end never has a tree.
-/

namespace CondLang

inductive ConditionError where
  | parse (e : ParseError)
  | eval (e : EvalError)
  | notBoolean (found : ValueType)
  deriving DecidableEq, Repr

def ConditionError.message : ConditionError → String
  | parse e => e.message
  | eval e => e.message
  | notBoolean found =>
    "Condition evaluated to a value of type '" ++ found.name ++ "', not 'bool'."

namespace Condition

def lexEvents (source : String) : List Event :=
  let (tokens, last) := (Lexer.ofText source).run
  tokens.map .token ++
    if TokenList.isTerminated ⟨tokens⟩ then []
    else [.unmatched last.position last.rest.head?, .unterminated tokens.length]

def parseRun (source : String) : ParseRun :=
  CondLang.parseRun (lex source).toList

def compile (source : String) : Except ParseError Expr :=
  (parseRun source).result.map Parsed.expr

def steps (source : String) (ρ : Resolver) : List Step :=
  match compile source with
  | .ok e => (e.evaluation ρ).steps
  | .error _ => []

def evaluate (source : String) (ρ : Resolver) : Except ConditionError Value :=
  match compile source with
  | .ok e => (e.eval ρ).mapError .eval
  | .error e => .error (.parse e)

def isVisible (source : String) (ρ : Resolver) : Except ConditionError Bool :=
  match evaluate source ρ with
  | .ok v =>
    match v.bool? with
    | some b => .ok b
    | none => .error (.notBoolean v.type)
  | .error e => .error e

def evaluateAll (sources : List String) (ρ : Resolver) : List (Except ConditionError Value) :=
  sources.map fun source => evaluate source ρ

def lookups (source : String) (ρ : Resolver) : List String :=
  (steps source ρ).filterMap Step.name?

def events (source : String) (ρ : Resolver) : List Event :=
  lexEvents source ++ (parseRun source).events.map .parsing ++
    match compile source with
    | .ok e => .evaluating :: (e.evaluation ρ).steps.filterMap Step.event?
    | .error _ => []

end Condition

end CondLang
