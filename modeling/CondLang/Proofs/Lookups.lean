import CondLang.Proofs.Evaluation

/-! Which names an evaluation asks for: the variables of the tree from left to right, or, when it
fails, those up to the one place of the tree at which it does. -/

namespace CondLang

inductive Turn where
  | operand
  | left
  | right
  deriving DecidableEq, Repr

def EvalError.undefined? : EvalError → Option String
  | undefinedVariable name => some name
  | binaryTypeMismatch .. | unaryTypeMismatch .. => none

namespace Expr

def names : Expr → List String
  | var name => [name]
  | int _ | str _ | bool _ => []
  | unary _ e => e.names
  | binary _ l r => l.names ++ r.names

/-- The variables in the node at this place and to the left of it. A path that leads out of the tree
ends at the last node on it. -/
def namesUpTo : Expr → List Turn → List String
  | unary _ e, .operand :: path => e.namesUpTo path
  | binary _ l _, .left :: path => l.namesUpTo path
  | binary _ l r, .right :: path => l.names ++ r.namesUpTo path
  | e, _ => e.names

/-- The node at this place fails, and it is the first one to do so: a variable that has no value, or
an operator that has values for its operands and does not take them. -/
inductive FailsAt (ρ : Resolver) : Expr → List Turn → EvalError → Prop
  | var {name : String} (h : ρ name = none) :
    FailsAt ρ (var name) [] (.undefinedVariable name)
  | unary {op : UnaryOp} {e : Expr} {v : Value} {error : EvalError} (hv : e.eval ρ = .ok v)
    (h : op.apply v = .error error) : FailsAt ρ (unary op e) [] error
  | binary {op : BinaryOp} {l r : Expr} {v w : Value} {error : EvalError}
    (hv : l.eval ρ = .ok v) (hw : r.eval ρ = .ok w) (h : op.apply v w = .error error) :
    FailsAt ρ (binary op l r) [] error
  | operand {op : UnaryOp} {e : Expr} {path : List Turn} {error : EvalError}
    (h : FailsAt ρ e path error) : FailsAt ρ (.unary op e) (.operand :: path) error
  | left {op : BinaryOp} {l r : Expr} {path : List Turn} {error : EvalError}
    (h : FailsAt ρ l path error) : FailsAt ρ (.binary op l r) (.left :: path) error
  | right {op : BinaryOp} {l r : Expr} {v : Value} {path : List Turn} {error : EvalError}
    (hv : l.eval ρ = .ok v) (h : FailsAt ρ r path error) :
    FailsAt ρ (.binary op l r) (.right :: path) error

variable {ρ : Resolver} {e : Expr} {path place : List Turn} {v : Value} {error error' : EvalError}

theorem namesUpTo_prefix_names (e : Expr) (path : List Turn) : e.namesUpTo path <+: e.names := by
  fun_induction namesUpTo e path with
  | case1 op e path ih => exact ih
  | case2 op l r path ih => exact ih.trans (List.prefix_append _ _)
  | case3 op l r path ih => exact (List.prefix_append_right_inj _).2 ih
  | case4 e path => exact List.prefix_rfl

theorem lookups_of_ok (h : e.eval ρ = .ok v) : (e.evaluation ρ).lookups = e.names := by
  induction e generalizing v with
  | var name => rfl
  | int n => rfl
  | str s => rfl
  | bool b => rfl
  | unary op e ih =>
    obtain ⟨w, he, _⟩ := eval_unary_eq_ok_iff.1 h
    rw [lookups_unary, ih he, names]
  | binary op l r ihl ihr =>
    obtain ⟨a, b, hl, hr, _⟩ := eval_binary_eq_ok_iff.1 h
    rw [lookups_binary_of_ok hl, ihl hl, ihr hr, names]

theorem eval_var_eq_error_iff {name : String} :
    (var name).eval ρ = .error error ↔ ρ name = none ∧ error = .undefinedVariable name := by
  simp only [eval, walk]
  cases ρ name with
  | none => simp [eq_comm]
  | some v => simp

theorem isSome_of_eval_ok (h : e.eval ρ = .ok v) : ∀ name ∈ e.names, (ρ name).isSome = true := by
  induction e generalizing v with
  | var name =>
    intro asked hasked
    rw [List.mem_singleton.1 hasked, Option.isSome_iff_ne_none]
    intro hnone
    rw [eval_var_eq_error_iff.2 ⟨hnone, rfl⟩] at h
    cases h
  | int | str | bool => exact fun _ hasked => nomatch hasked
  | unary op e ih =>
    obtain ⟨w, he, _⟩ := eval_unary_eq_ok_iff.1 h
    exact ih he
  | binary op l r ihl ihr =>
    obtain ⟨a, b, hl, hr, _⟩ := eval_binary_eq_ok_iff.1 h
    exact List.forall_mem_append.2 ⟨ihl hl, ihr hr⟩

theorem FailsAt.eval (h : FailsAt ρ e path error) : e.eval ρ = .error error := by
  induction h with
  | var h => exact eval_var_eq_error_iff.2 ⟨h, rfl⟩
  | unary hv h => exact eval_unary_eq_error_iff.2 (.inr ⟨_, hv, h⟩)
  | binary hv hw h => exact eval_binary_eq_error_iff.2 (.inr (.inr ⟨_, _, hv, hw, h⟩))
  | operand _ ih => exact eval_unary_eq_error_iff.2 (.inl ih)
  | left _ ih => exact eval_binary_eq_error_iff.2 (.inl ih)
  | right hv _ ih => exact eval_binary_eq_error_iff.2 (.inr (.inl ⟨_, hv, ih⟩))

theorem exists_failsAt (h : e.eval ρ = .error error) : ∃ path, FailsAt ρ e path error := by
  induction e with
  | var name =>
    obtain ⟨hname, rfl⟩ := eval_var_eq_error_iff.1 h
    exact ⟨[], .var hname⟩
  | int | str | bool => cases h
  | unary op e ih =>
    rcases eval_unary_eq_error_iff.1 h with he | ⟨v, he, happly⟩
    · obtain ⟨path, hpath⟩ := ih he
      exact ⟨_, .operand hpath⟩
    · exact ⟨[], .unary he happly⟩
  | binary op l r ihl ihr =>
    rcases eval_binary_eq_error_iff.1 h with hl | ⟨a, hl, hr⟩ | ⟨a, b, hl, hr, happly⟩
    · obtain ⟨path, hpath⟩ := ihl hl
      exact ⟨_, .left hpath⟩
    · obtain ⟨path, hpath⟩ := ihr hr
      exact ⟨_, .right hl hpath⟩
    · exact ⟨[], .binary hl hr happly⟩

theorem FailsAt.not_ok (h : FailsAt ρ e path error) : e.eval ρ ≠ .ok v := by
  rw [h.eval]
  nofun

theorem FailsAt.unique (h : FailsAt ρ e path error) (h' : FailsAt ρ e place error') :
    path = place := by
  induction h generalizing place with
  | var =>
    cases h'
    rfl
  | unary hv => cases h' with
    | unary => rfl
    | operand h' => exact absurd hv h'.not_ok
  | binary hv hw => cases h' with
    | binary => rfl
    | left h' => exact absurd hv h'.not_ok
    | right _ h' => exact absurd hw h'.not_ok
  | operand h ih => cases h' with
    | unary hv => exact absurd hv h.not_ok
    | operand h' => exact congrArg _ (ih h')
  | left h ih => cases h' with
    | binary hv => exact absurd hv h.not_ok
    | left h' => exact congrArg _ (ih h')
    | right hv => exact absurd hv h.not_ok
  | right hv h ih => cases h' with
    | binary _ hw => exact absurd hw h.not_ok
    | left h' => exact absurd hv h'.not_ok
    | right _ h' => exact congrArg _ (ih h')

theorem FailsAt.lookups (h : FailsAt ρ e path error) :
    (e.evaluation ρ).lookups = e.namesUpTo path := by
  induction h with
  | var => rfl
  | unary hv =>
    rw [lookups_unary, lookups_of_ok hv]
    rfl
  | binary hv hw =>
    rw [lookups_binary_of_ok hv, lookups_of_ok hv, lookups_of_ok hw]
    rfl
  | operand _ ih =>
    rw [lookups_unary, ih]
    rfl
  | left h ih =>
    -- The right operand is never reached.
    rw [lookups_binary_of_error h.eval, ih]
    rfl
  | right hv _ ih =>
    rw [lookups_binary_of_ok hv, lookups_of_ok hv, ih]
    rfl

theorem FailsAt.answered (h : FailsAt ρ e path error) :
    ∃ answered, e.namesUpTo path = answered ++ error.undefined?.toList ∧
      ∀ name ∈ answered, (ρ name).isSome = true := by
  induction h with
  | var => exact ⟨[], rfl, fun _ hname => nomatch hname⟩
  | @unary op e v error hv h =>
    rw [UnaryOp.eq_of_apply_error h]
    exact ⟨e.names, (List.append_nil _).symm, isSome_of_eval_ok hv⟩
  | @binary op l r v w error hv hw h =>
    rw [BinaryOp.eq_of_apply_error h]
    exact ⟨l.names ++ r.names, (List.append_nil _).symm,
      List.forall_mem_append.2 ⟨isSome_of_eval_ok hv, isSome_of_eval_ok hw⟩⟩
  | operand _ ih => exact ih
  | left _ ih => exact ih
  | @right op l r v path error hv _ ih =>
    obtain ⟨answered, hnames, hanswered⟩ := ih
    refine ⟨l.names ++ answered, ?_, List.forall_mem_append.2 ⟨isSome_of_eval_ok hv, hanswered⟩⟩
    rw [namesUpTo, hnames, List.append_assoc]

theorem FailsAt.eq_none {name : String} (h : FailsAt ρ e path (.undefinedVariable name)) :
    ρ name = none := by
  generalize herror : EvalError.undefinedVariable name = error at h
  induction h with
  | var h =>
    cases herror
    exact h
  | unary _ h => cases herror.trans (UnaryOp.eq_of_apply_error h)
  | binary _ _ h => cases herror.trans (BinaryOp.eq_of_apply_error h)
  | operand _ ih => exact ih herror
  | left _ ih => exact ih herror
  | right _ _ ih => exact ih herror

theorem lookups_prefix_names (e : Expr) (ρ : Resolver) : (e.evaluation ρ).lookups <+: e.names := by
  cases h : e.eval ρ with
  | ok v => exact lookups_of_ok h ▸ List.prefix_rfl
  | error error =>
    obtain ⟨path, hpath⟩ := exists_failsAt h
    rw [hpath.lookups]
    exact namesUpTo_prefix_names e path

/-- The names asked for are the variables of the tree from left to right: all of them, or those up
to the variable that is undefined, or those up to the operator that refuses its operands. -/
theorem lookups_of_evaluation (e : Expr) (ρ : Resolver) :
    (e.evaluation ρ).lookups <+: e.names ∧
      (∀ v, e.eval ρ = .ok v → (e.evaluation ρ).lookups = e.names) ∧
      (∀ name, e.eval ρ = .error (.undefinedVariable name) →
        ρ name = none ∧ ∃ answered, (e.evaluation ρ).lookups = answered ++ [name] ∧
          ∀ asked ∈ answered, (ρ asked).isSome = true) ∧
      ∀ error, e.eval ρ = .error error → error.undefined? = none →
        (∀ asked ∈ (e.evaluation ρ).lookups, (ρ asked).isSome = true) ∧
          ∃ path, (e.evaluation ρ).lookups = e.namesUpTo path ∧
            ∀ place, FailsAt ρ e place error ↔ place = path := by
  refine ⟨lookups_prefix_names e ρ, fun v hv => lookups_of_ok hv, fun name hname => ?_,
    fun error herror hmismatch => ?_⟩
  · obtain ⟨path, hpath⟩ := exists_failsAt hname
    rw [hpath.lookups]
    exact ⟨hpath.eq_none, hpath.answered⟩
  · obtain ⟨path, hpath⟩ := exists_failsAt herror
    obtain ⟨answered, hnames, hanswered⟩ := hpath.answered
    rw [hmismatch, Option.toList_none, List.append_nil] at hnames
    rw [hpath.lookups]
    refine ⟨hnames ▸ hanswered, path, rfl, fun place => ⟨fun h => h.unique hpath, ?_⟩⟩
    rintro rfl
    exact hpath

end Expr
end CondLang
