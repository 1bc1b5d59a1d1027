import CondLang.Proofs.Composition
import CondLang.Proofs.Rejection

/-! Every operator yields a boolean or fails, so a value of another type comes from a leaf that is
the whole condition. A condition has one of four endings, each with its own cause. -/

namespace CondLang

theorem Value.bool?_eq_some_iff {v : Value} {b : Bool} : v.bool? = some b ↔ v = .bool b := by
  cases v <;> simp [bool?]

theorem UnaryOp.eq_bool_of_apply {op : UnaryOp} {v w : Value} (h : op.apply v = .ok w) :
    ∃ b, w = .bool b := by
  cases op
  cases v with
  | bool b =>
    cases h
    exact ⟨!b, rfl⟩
  | int | str => cases h

theorem BinaryOp.eq_bool_of_apply {op : BinaryOp} {v w u : Value} (h : op.apply v w = .ok u) :
    ∃ b, u = .bool b := by
  unfold BinaryOp.apply at h
  split at h
  · next b _ =>
    cases h
    exact ⟨b, rfl⟩
  · cases h

namespace Expr

variable {ρ : Resolver} {e : Expr} {v : Value} {found : ValueType}

inductive IsForm : Expr → Prop
  | unary (op : UnaryOp) (e : Expr) : IsForm (.unary op e)
  | binary (op : BinaryOp) (l r : Expr) : IsForm (.binary op l r)

inductive NonBooleanLeaf (ρ : Resolver) : Expr → ValueType → Prop
  | int (n : Int64) : NonBooleanLeaf ρ (.int n) .int
  | str (s : String) : NonBooleanLeaf ρ (.str s) .string
  | var {name : String} {v : Value} (hv : ρ name = some v)
    (htype : v.type = .int ∨ v.type = .string) : NonBooleanLeaf ρ (.var name) v.type

theorem IsForm.eq_bool_of_eval (h : e.IsForm) (hv : e.eval ρ = .ok v) : ∃ b, v = .bool b := by
  cases h with
  | unary op e =>
    obtain ⟨w, -, happly⟩ := eval_unary_eq_ok_iff.1 hv
    exact op.eq_bool_of_apply happly
  | binary op l r =>
    obtain ⟨a, b, -, -, happly⟩ := eval_binary_eq_ok_iff.1 hv
    exact op.eq_bool_of_apply happly

theorem eval_var_eq_ok_iff {name : String} : (var name).eval ρ = .ok v ↔ ρ name = some v := by
  simp only [eval, walk]
  cases ρ name <;> simp

theorem NonBooleanLeaf.eval (h : NonBooleanLeaf ρ e found) :
    ∃ v, e.eval ρ = .ok v ∧ v.bool? = none ∧ v.type = found := by
  cases h with
  | int n => exact ⟨.int n, rfl, rfl, rfl⟩
  | str s => exact ⟨.str s, rfl, rfl, rfl⟩
  | @var name v hv htype =>
    refine ⟨v, eval_var_eq_ok_iff.2 hv, ?_, rfl⟩
    cases v with
    | int | str => rfl
    | bool b => rcases htype with htype | htype <;> cases htype

theorem nonBooleanLeaf_of_eval (hv : e.eval ρ = .ok v) (hbool : v.bool? = none) :
    NonBooleanLeaf ρ e v.type := by
  have hform : ¬e.IsForm := by
    intro h
    obtain ⟨b, rfl⟩ := h.eq_bool_of_eval hv
    cases hbool
  cases e with
  | int n => cases hv; exact .int n
  | str s => cases hv; exact .str s
  | bool b => cases hv; cases hbool
  | var name =>
    refine .var (eval_var_eq_ok_iff.1 hv) ?_
    cases v with
    | int => exact .inl rfl
    | str => exact .inr rfl
    | bool b => cases hbool
  | unary op e => exact absurd (.unary op e) hform
  | binary op l r => exact absurd (.binary op l r) hform

end Expr

namespace Condition

variable {s : String} {ρ : Resolver} {e : Expr}

inductive Outcome (s : String) (ρ : Resolver) : Except ConditionError Bool → Prop
  | refused {error : ParseError} (h : compile s = .error error) :
    Outcome s ρ (.error (.parse error))
  | failed {e : Expr} {error : EvalError} (h : compile s = .ok e) (he : e.eval ρ = .error error) :
    Outcome s ρ (.error (.eval error))
  | leaf {e : Expr} {found : ValueType} (h : compile s = .ok e)
    (he : e.NonBooleanLeaf ρ found) : Outcome s ρ (.error (.notBoolean found))
  | visible {e : Expr} {b : Bool} (h : compile s = .ok e) (he : e.eval ρ = .ok (.bool b)) :
    Outcome s ρ (.ok b)

theorem outcome_isVisible (s : String) (ρ : Resolver) : Outcome s ρ (isVisible s ρ) := by
  cases h : compile s with
  | error error =>
    rw [isVisible_of_compile_error h]
    exact .refused h
  | ok e =>
    cases he : e.eval ρ with
    | error error =>
      rw [isVisible, (evaluate_eq_error_iff h).2 ⟨error, he, rfl⟩]
      exact .failed h he
    | ok v =>
      rw [isVisible, (evaluate_eq_ok_iff h).2 he]
      cases hbool : v.bool? with
      | none =>
        simp only [hbool]
        exact .leaf h (Expr.nonBooleanLeaf_of_eval he hbool)
      | some b =>
        simp only [hbool]
        rw [Value.bool?_eq_some_iff.1 hbool] at he
        exact .visible h he

theorem Outcome.isVisible_eq {result : Except ConditionError Bool} (h : Outcome s ρ result) :
    isVisible s ρ = result := by
  cases h with
  | refused h => exact isVisible_of_compile_error h ρ
  | @failed _ error h he => rw [isVisible, (evaluate_eq_error_iff h).2 ⟨error, he, rfl⟩]
  | leaf h he =>
    obtain ⟨v, hv, hbool, rfl⟩ := he.eval
    rw [isVisible, (evaluate_eq_ok_iff h).2 hv]
    simp only [hbool]
  | visible h he =>
    rw [isVisible, (evaluate_eq_ok_iff h).2 he]
    rfl

theorem isVisible_eq_iff {result : Except ConditionError Bool} :
    isVisible s ρ = result ↔ Outcome s ρ result := by
  constructor
  · rintro rfl
    exact outcome_isVisible s ρ
  · exact Outcome.isVisible_eq

theorem isVisible_eq_notBoolean_iff {found : ValueType} :
    isVisible s ρ = .error (.notBoolean found) ↔
      ∃ e, compile s = .ok e ∧ e.NonBooleanLeaf ρ found := by
  rw [isVisible_eq_iff]
  constructor
  · rintro (_ | _ | ⟨h, he⟩)
    exact ⟨_, h, he⟩
  · rintro ⟨e, h, he⟩
    exact .leaf h he

theorem isVisible_eq_parse_iff {error : ParseError} :
    isVisible s ρ = .error (.parse error) ↔ compile s = .error error := by
  rw [isVisible_eq_iff]
  constructor
  · rintro (h | _)
    exact h
  · exact .refused

theorem isVisible_eq_eval_iff {error : EvalError} :
    isVisible s ρ = .error (.eval error) ↔ ∃ e, compile s = .ok e ∧ e.eval ρ = .error error := by
  rw [isVisible_eq_iff]
  constructor
  · rintro (_ | ⟨h, he⟩)
    exact ⟨_, h, he⟩
  · rintro ⟨e, h, he⟩
    exact .failed h he

theorem lookups_of_compile_error {error : ParseError} (h : compile s = .error error)
    (ρ : Resolver) : lookups s ρ = [] := by
  rw [lookups, steps_of_compile_error h, List.filterMap_nil]

theorem exists_eval_bool (hleaf : ∀ found, ¬e.NonBooleanLeaf ρ found)
    (hok : ∀ error, e.eval ρ ≠ .error error) : ∃ b, e.eval ρ = .ok (.bool b) := by
  cases he : e.eval ρ with
  | error error => exact absurd he (hok error)
  | ok v =>
    cases hbool : v.bool? with
    | none => exact absurd (Expr.nonBooleanLeaf_of_eval he hbool) (hleaf v.type)
    | some b => exact ⟨b, congrArg _ (Value.bool?_eq_some_iff.1 hbool)⟩

/-- A form has a boolean value or none, so that only a leaf can be a condition of another type; and
which of its four endings a condition comes to is settled by its text, its tree and its value. -/
theorem only_leaves_are_not_boolean :
    (∀ (e : Expr) (ρ : Resolver) (v : Value), e.IsForm → e.eval ρ = .ok v → ∃ b, v = .bool b) ∧
    ∀ (s : String) (ρ : Resolver),
      (∀ found, isVisible s ρ = .error (.notBoolean found) ↔
        ∃ e, compile s = .ok e ∧ e.NonBooleanLeaf ρ found) ∧
      (∀ error, isVisible s ρ = .error (.parse error) ↔ compile s = .error error) ∧
      (∀ error, compile s = .error error → steps s ρ = [] ∧ lookups s ρ = []) ∧
      (∀ error, isVisible s ρ = .error (.eval error) ↔
        ∃ e, compile s = .ok e ∧ e.eval ρ = .error error) ∧
      ∀ e, compile s = .ok e → (∀ found, ¬e.NonBooleanLeaf ρ found) →
        (∀ error, e.eval ρ ≠ .error error) →
          ∃ b, isVisible s ρ = .ok b ∧ evaluate s ρ = .ok (.bool b) := by
  refine ⟨fun e ρ v h => h.eq_bool_of_eval, fun s ρ =>
    ⟨fun found => isVisible_eq_notBoolean_iff, fun error => isVisible_eq_parse_iff,
      fun error h => ⟨steps_of_compile_error h ρ, lookups_of_compile_error h ρ⟩,
      fun error => isVisible_eq_eval_iff, fun e h hleaf hok => ?_⟩⟩
  obtain ⟨b, he⟩ := exists_eval_bool hleaf hok
  exact ⟨b, isVisible_eq_iff.2 (.visible h he), (evaluate_eq_ok_iff h).2 he⟩

end Condition

end CondLang
