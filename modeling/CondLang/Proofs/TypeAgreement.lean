import CondLang.Condition
import CondLang.Proofs.Evaluation
import Mathlib.Control.Monad.Basic

/-! Whether an operator takes its operands is settled by their types, and what it yields is a
boolean. So resolvers that give every name the same type lead to the same lookups and to values of
one type, or to the same error. -/

namespace CondLang

inductive SameOutcome {ε α : Type} (r : α → α → Prop) : Except ε α → Except ε α → Prop
  | ok {a b : α} (h : r a b) : SameOutcome r (.ok a) (.ok b)
  | error (e : ε) : SameOutcome r (.error e) (.error e)

def Value.SameType (v w : Value) : Prop :=
  v.type = w.type

def Resolver.SameTypes (ρ σ : Resolver) : Prop :=
  ∀ name, (ρ name).map Value.type = (σ name).map Value.type

def UnaryOp.accepts : UnaryOp → ValueType → Bool
  | not, operand => operand = .bool

def BinaryOp.accepts : BinaryOp → ValueType → ValueType → Bool
  | and, left, right | or, left, right => left = .bool && right = .bool
  | eq, left, right | notEq, left, right => left = right
  | gt, left, right | lt, left, right | gtEq, left, right | ltEq, left, right =>
    left = .int && right = .int

theorem UnaryOp.map_type_apply (op : UnaryOp) (v : Value) :
    (op.apply v).map Value.type =
      if op.accepts v.type then .ok .bool else .error (.unaryTypeMismatch op v.type) := by
  cases op
  cases v <;> rfl

theorem BinaryOp.isSome_onValues? (op : BinaryOp) (v w : Value) :
    (op.onValues? v w).isSome = op.accepts v.type w.type := by
  cases v <;> cases w <;> cases op <;> rfl

theorem BinaryOp.map_type_apply (op : BinaryOp) (v w : Value) :
    (op.apply v w).map Value.type =
      if op.accepts v.type w.type then .ok .bool
      else .error (.binaryTypeMismatch op v.type w.type) := by
  rw [← isSome_onValues?, BinaryOp.apply]
  cases op.onValues? v w <;> rfl

theorem sameOutcome_of_map_eq {ε : Type} {a b : Except ε Value}
    (h : a.map Value.type = b.map Value.type) : SameOutcome Value.SameType a b := by
  cases a with
  | error e =>
    cases b with
    | error e' =>
      cases h
      exact .error e
    | ok w => cases h
  | ok v =>
    cases b with
    | error e' => cases h
    | ok w => exact .ok (Except.ok.inj h)

theorem SameOutcome.mapError {ε ε' α : Type} {r : α → α → Prop} {a b : Except ε α}
    (h : SameOutcome r a b) (f : ε → ε') : SameOutcome r (a.mapError f) (b.mapError f) := by
  cases h with
  | ok hab => exact .ok hab
  | error e => exact .error (f e)

theorem UnaryOp.sameOutcome_apply (op : UnaryOp) {v w : Value} (h : v.SameType w) :
    SameOutcome Value.SameType (op.apply v) (op.apply w) := by
  apply sameOutcome_of_map_eq
  rw [map_type_apply, map_type_apply, show v.type = w.type from h]

theorem BinaryOp.sameOutcome_apply (op : BinaryOp) {v w v' w' : Value} (hl : v.SameType v')
    (hr : w.SameType w') : SameOutcome Value.SameType (op.apply v w) (op.apply v' w') := by
  apply sameOutcome_of_map_eq
  rw [map_type_apply, map_type_apply, show v.type = v'.type from hl, show w.type = w'.type from hr]

structure Evaluation.Agree (a b : Evaluation) : Prop where
  lookups : a.lookups = b.lookups
  outcome : SameOutcome Value.SameType a.result b.result

theorem Evaluation.Agree.andThen {a b : Evaluation} {next next' : Value → Evaluation}
    (h : a.Agree b) (hnext : ∀ v w, v.SameType w → (next v).Agree (next' w)) :
    (a.andThen next).Agree (b.andThen next') := by
  obtain ⟨steps, result⟩ := a
  obtain ⟨steps', result'⟩ := b
  obtain ⟨hlookups, houtcome⟩ := h
  cases houtcome with
  | error e => exact ⟨hlookups, .error e⟩
  | @ok v w hvw =>
    obtain ⟨hmore, hresult⟩ := hnext v w hvw
    refine ⟨?_, hresult⟩
    rw [lookups_andThen_of_ok rfl, lookups_andThen_of_ok rfl, hlookups, hmore]

variable {ρ σ : Resolver}

theorem Resolver.SameTypes.sameOutcome (h : ρ.SameTypes σ) (name : String) :
    SameOutcome Value.SameType ((Expr.var name).eval ρ) ((Expr.var name).eval σ) := by
  have hname := h name
  simp only [Expr.eval, Expr.walk]
  cases hρ : ρ name with
  | none =>
    rw [hρ, Option.map_none, eq_comm, Option.map_eq_none_iff] at hname
    rw [hname]
    exact .error _
  | some v =>
    rw [hρ, Option.map_some, eq_comm, Option.map_eq_some_iff] at hname
    obtain ⟨w, hσ, hw⟩ := hname
    rw [hσ]
    exact .ok hw.symm

theorem Resolver.SameTypes.agree (h : ρ.SameTypes σ) (e : Expr) :
    (e.evaluation ρ).Agree (e.evaluation σ) := by
  induction e with
  | var name => exact ⟨rfl, h.sameOutcome name⟩
  | int n => exact ⟨rfl, .ok rfl⟩
  | str s => exact ⟨rfl, .ok rfl⟩
  | bool b => exact ⟨rfl, .ok rfl⟩
  | unary op e ih =>
    rw [Expr.evaluation_unary, Expr.evaluation_unary]
    exact ih.andThen fun v w hvw => ⟨rfl, op.sameOutcome_apply hvw⟩
  | binary op l r ihl ihr =>
    -- Both runs reach the right operand, or neither does, for no value of the left one stops them.
    rw [Expr.evaluation_binary, Expr.evaluation_binary]
    exact ihl.andThen fun v v' hv =>
      ihr.andThen fun w w' hw => ⟨rfl, op.sameOutcome_apply hv hw⟩

namespace Condition

theorem lookups_of_sameTypes (h : ρ.SameTypes σ) (source : String) :
    lookups source ρ = lookups source σ := by
  unfold lookups steps
  cases compile source with
  | error e => rfl
  | ok e => exact (h.agree e).lookups

theorem sameOutcome_evaluate (h : ρ.SameTypes σ) (source : String) :
    SameOutcome Value.SameType (evaluate source ρ) (evaluate source σ) := by
  unfold evaluate
  cases compile source with
  | error e => exact .error _
  | ok e =>
    exact (h.agree e).outcome.mapError ConditionError.eval

theorem sameOutcome_isVisible (h : ρ.SameTypes σ) (source : String) :
    SameOutcome (fun _ _ => True) (isVisible source ρ) (isVisible source σ) := by
  have houtcome := sameOutcome_evaluate h source
  unfold isVisible
  generalize evaluate source ρ = a, evaluate source σ = b at houtcome
  cases houtcome with
  | error e => exact .error e
  | @ok v w hvw =>
    cases v with
    | int n => cases w with
      | int m => exact .error (ConditionError.notBoolean .int)
      | str | bool => cases hvw
    | str s => cases w with
      | str t => exact .error (ConditionError.notBoolean .string)
      | int | bool => cases hvw
    | bool x => cases w with
      | bool y => exact .ok trivial
      | int | str => cases hvw

end Condition

/-- Success and failure depend on the types of the variables alone: under resolvers that agree on
them the same names are asked for, and the outcome is a value of the same type or the same error. -/
theorem outcome_depends_on_types (h : ρ.SameTypes σ) :
    (∀ e : Expr, (e.evaluation ρ).lookups = (e.evaluation σ).lookups ∧
        SameOutcome Value.SameType (e.eval ρ) (e.eval σ)) ∧
      ∀ source, Condition.lookups source ρ = Condition.lookups source σ ∧
        SameOutcome Value.SameType (Condition.evaluate source ρ) (Condition.evaluate source σ) ∧
        SameOutcome (fun _ _ => True) (Condition.isVisible source ρ)
          (Condition.isVisible source σ) :=
  ⟨fun e => ⟨(h.agree e).lookups, (h.agree e).outcome⟩, fun source =>
    ⟨Condition.lookups_of_sameTypes h source, Condition.sameOutcome_evaluate h source,
      Condition.sameOutcome_isVisible h source⟩⟩

theorem outcome_depends_on_types_ages :
    Resolver.SameTypes (.ofPairs [("age", .int 30)]) (.ofPairs [("age", .int (-1))]) ∧
      Condition.isVisible "(gt age 18)" (.ofPairs [("age", .int 30)]) = .ok true ∧
      Condition.isVisible "(gt age 18)" (.ofPairs [("age", .int (-1))]) = .ok false ∧
      SameOutcome (fun _ _ => True)
        (Condition.isVisible "(gt age 18)" (.ofPairs [("age", .int 30)]))
        (Condition.isVisible "(gt age 18)" (.ofPairs [("age", .int (-1))])) := by
  have hsame : Resolver.SameTypes (.ofPairs [("age", .int 30)]) (.ofPairs [("age", .int (-1))]) := by
    intro name
    rw [Resolver.ofPairs, Resolver.ofPairs, List.lookup_cons, List.lookup_cons]
    cases name == "age" <;> rfl
  exact ⟨hsame, by decide +kernel, by decide +kernel,
    ((outcome_depends_on_types hsame).2 "(gt age 18)").2.2⟩

end CondLang
