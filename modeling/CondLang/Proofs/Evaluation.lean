import CondLang.Expr.Eval

/-! An evaluation in parts: the steps of an operand, then those of what is done with its value. -/

namespace CondLang

def Evaluation.andThen (evaluation : Evaluation) (next : Value → Evaluation) : Evaluation :=
  match evaluation.result with
  | .ok v => ⟨evaluation.steps ++ (next v).steps, (next v).result⟩
  | .error error => ⟨evaluation.steps, .error error⟩

namespace Evaluation

variable {evaluation : Evaluation} {next : Value → Evaluation}

theorem andThen_of_ok {v : Value} (h : evaluation.result = .ok v) :
    evaluation.andThen next = ⟨evaluation.steps ++ (next v).steps, (next v).result⟩ := by
  rw [andThen, h]

theorem andThen_of_error {error : EvalError} (h : evaluation.result = .error error) :
    evaluation.andThen next = ⟨evaluation.steps, .error error⟩ := by
  rw [andThen, h]

theorem lookups_andThen_of_ok {v : Value} (h : evaluation.result = .ok v) :
    (evaluation.andThen next).lookups = evaluation.lookups ++ (next v).lookups := by
  rw [andThen_of_ok h]
  exact List.filterMap_append

theorem lookups_andThen_of_error {error : EvalError} (h : evaluation.result = .error error) :
    (evaluation.andThen next).lookups = evaluation.lookups := by
  rw [andThen_of_error h]
  rfl

end Evaluation

theorem UnaryOp.eq_of_apply_error {op : UnaryOp} {v : Value} {error : EvalError}
    (h : op.apply v = .error error) : error = .unaryTypeMismatch op v.type := by
  cases op
  cases v <;> cases h <;> rfl

theorem BinaryOp.eq_of_apply_error {op : BinaryOp} {v w : Value} {error : EvalError}
    (h : op.apply v w = .error error) : error = .binaryTypeMismatch op v.type w.type := by
  unfold BinaryOp.apply at h
  split at h <;> cases h
  rfl

namespace Expr

section Inversion
variable {ρ : Resolver} {e l r : Expr} {v : Value} {error : EvalError}

theorem eval_unary_eq_ok_iff {op : UnaryOp} :
    (unary op e).eval ρ = .ok v ↔ ∃ w, e.eval ρ = .ok w ∧ op.apply w = .ok v := by
  rw [eval_unary]
  cases e.eval ρ <;> simp [bind, Except.bind]

theorem eval_unary_eq_error_iff {op : UnaryOp} :
    (unary op e).eval ρ = .error error ↔
      e.eval ρ = .error error ∨ ∃ w, e.eval ρ = .ok w ∧ op.apply w = .error error := by
  rw [eval_unary]
  cases e.eval ρ <;> simp [bind, Except.bind]

theorem eval_binary_eq_ok_iff {op : BinaryOp} :
    (binary op l r).eval ρ = .ok v ↔
      ∃ a b, l.eval ρ = .ok a ∧ r.eval ρ = .ok b ∧ op.apply a b = .ok v := by
  rw [eval_binary]
  cases l.eval ρ <;> cases r.eval ρ <;> simp [bind, Except.bind]

theorem eval_binary_eq_error_iff {op : BinaryOp} :
    (binary op l r).eval ρ = .error error ↔
      l.eval ρ = .error error ∨ (∃ a, l.eval ρ = .ok a ∧ r.eval ρ = .error error) ∨
        ∃ a b, l.eval ρ = .ok a ∧ r.eval ρ = .ok b ∧ op.apply a b = .error error := by
  rw [eval_binary]
  cases l.eval ρ <;> cases r.eval ρ <;> simp [bind, Except.bind]

end Inversion

theorem evaluation_unary (op : UnaryOp) (e : Expr) (ρ : Resolver) :
    (unary op e).evaluation ρ =
      (e.evaluation ρ).andThen fun v => ⟨[.unary op v], op.apply v⟩ := by
  simp only [evaluation, walk]
  rcases e.walk ρ [] with ⟨steps, _ | v⟩
  · rfl
  · simp only [Evaluation.andThen, List.reverse_cons]

theorem evaluation_binary (op : BinaryOp) (l r : Expr) (ρ : Resolver) :
    (binary op l r).evaluation ρ =
      (l.evaluation ρ).andThen fun v =>
        (r.evaluation ρ).andThen fun w => ⟨[.binary op v w], op.apply v w⟩ := by
  simp only [evaluation, walk]
  rcases l.walk ρ [] with ⟨left, _ | v⟩
  · rfl
  · simp only [Evaluation.andThen]
    rw [walk_eq]
    rcases r.walk ρ [] with ⟨right, _ | w⟩
    · simp only [List.reverse_append]
    · simp only [List.reverse_cons, List.reverse_append, List.append_assoc]

theorem lookups_unary (op : UnaryOp) (e : Expr) (ρ : Resolver) :
    ((unary op e).evaluation ρ).lookups = (e.evaluation ρ).lookups := by
  rw [evaluation_unary]
  cases h : (e.evaluation ρ).result with
  | error error => rw [Evaluation.lookups_andThen_of_error h]
  | ok v =>
    rw [Evaluation.lookups_andThen_of_ok h]
    exact List.append_nil _

theorem lookups_binary_of_error {op : BinaryOp} {l r : Expr} {ρ : Resolver} {error : EvalError}
    (h : l.eval ρ = .error error) :
    ((binary op l r).evaluation ρ).lookups = (l.evaluation ρ).lookups := by
  rw [evaluation_binary]
  exact Evaluation.lookups_andThen_of_error h

theorem lookups_binary_of_ok {op : BinaryOp} {l r : Expr} {ρ : Resolver} {v : Value}
    (h : l.eval ρ = .ok v) :
    ((binary op l r).evaluation ρ).lookups =
      (l.evaluation ρ).lookups ++ (r.evaluation ρ).lookups := by
  rw [evaluation_binary, Evaluation.lookups_andThen_of_ok h]
  cases hr : (r.evaluation ρ).result with
  | error error => rw [Evaluation.lookups_andThen_of_error hr]
  | ok w =>
    rw [Evaluation.lookups_andThen_of_ok hr]
    exact congrArg _ (List.append_nil _)

end Expr

end CondLang
