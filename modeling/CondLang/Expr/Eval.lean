import CondLang.Expr
import CondLang.Operator.Apply
import CondLang.Variables

/-!
Evaluation, operands first and the left one before the right one; a failing operand ends it, and no
value does. `walk` records what is done, the last step first; `eval` is the result alone.
-/

namespace CondLang

inductive Step where
  | lookup (name : String) (answer : Option Value)
  | unary (op : UnaryOp) (operand : Value)
  | binary (op : BinaryOp) (left right : Value)
  deriving DecidableEq, Repr

def Step.name? : Step → Option String
  | lookup name _ => some name
  | unary .. | binary .. => none

structure Evaluation where
  steps : List Step
  result : Except EvalError Value

def Evaluation.lookups (evaluation : Evaluation) : List String :=
  evaluation.steps.filterMap Step.name?

namespace Expr

def walk (ρ : Resolver) (done : List Step) : Expr → List Step × Except EvalError Value
  | var name =>
    let answer := ρ name
    (.lookup name answer :: done,
      match answer with
      | some v => .ok v
      | none => .error (.undefinedVariable name))
  | int n => (done, .ok (.int n))
  | str s => (done, .ok (.str s))
  | bool b => (done, .ok (.bool b))
  | unary op e =>
    match walk ρ done e with
    | (done, .ok v) => (.unary op v :: done, op.apply v)
    | failed => failed
  | binary op l r =>
    match walk ρ done l with
    | (done, .ok v) =>
      match walk ρ done r with
      | (done, .ok w) => (.binary op v w :: done, op.apply v w)
      | failed => failed
    | failed => failed

def evaluation (e : Expr) (ρ : Resolver) : Evaluation :=
  let (done, result) := e.walk ρ []
  ⟨done.reverse, result⟩

def eval (e : Expr) (ρ : Resolver) : Except EvalError Value :=
  (e.walk ρ []).2

theorem walk_eq (ρ : Resolver) (done : List Step) (e : Expr) :
    e.walk ρ done = ((e.walk ρ []).1 ++ done, (e.walk ρ []).2) := by
  induction e generalizing done with
  | var | int | str | bool => simp [walk]
  | unary op e ih =>
    rw [walk, ih, walk]
    rcases e.walk ρ [] with ⟨steps, _ | v⟩ <;> simp
  | binary op l r ihl ihr =>
    rw [walk, ihl, walk]
    rcases l.walk ρ [] with ⟨left, _ | v⟩
    · simp
    · simp only
      rw [ihr, ihr left]
      rcases r.walk ρ [] with ⟨right, _ | w⟩ <;> simp

theorem eval_unary (ρ : Resolver) (op : UnaryOp) (e : Expr) :
    (unary op e).eval ρ = e.eval ρ >>= op.apply := by
  simp only [eval, walk]
  rcases e.walk ρ [] with ⟨steps, _ | v⟩ <;> rfl

theorem eval_binary (ρ : Resolver) (op : BinaryOp) (l r : Expr) :
    (binary op l r).eval ρ = (do op.apply (← l.eval ρ) (← r.eval ρ)) := by
  simp only [eval, walk]
  rcases l.walk ρ [] with ⟨left, _ | v⟩
  · rfl
  · simp only
    rw [walk_eq]
    rcases r.walk ρ [] with ⟨right, _ | w⟩ <;> rfl

end Expr

end CondLang
