import CondLang.Condition
import CondLang.Proofs.Lookups
import Mathlib.Control.Monad.Basic

/-! All that an evaluation learns of its host is the answers to the names that it asks for. A host
that only defines more names answers them alike, unless the evaluation ended at a name that was not
defined. -/

namespace CondLang

namespace Resolver

def AgreeOn (ρ σ : Resolver) (names : List String) : Prop :=
  ∀ name ∈ names, σ name = ρ name

def ExtendedBy (ρ σ : Resolver) : Prop :=
  ∀ name v, ρ name = some v → σ name = some v

theorem ExtendedBy.agreeOn {ρ σ : Resolver} {names : List String} (h : ρ.ExtendedBy σ)
    (hnames : ∀ name ∈ names, (ρ name).isSome = true) : ρ.AgreeOn σ names := by
  intro name hname
  obtain ⟨v, hv⟩ := Option.isSome_iff_exists.1 (hnames name hname)
  rw [hv, h name v hv]

theorem ofPairs_extendedBy_append (pairs more : List (String × Value)) :
    (ofPairs pairs).ExtendedBy (ofPairs (pairs ++ more)) := by
  intro name v hv
  rw [ofPairs] at hv
  rw [ofPairs, List.lookup_append, hv, Option.some_or]

end Resolver

variable {ρ σ : Resolver}

namespace Expr

variable {e : Expr}

theorem evaluation_eq_of_agreeOn (h : ρ.AgreeOn σ (e.evaluation ρ).lookups) :
    e.evaluation σ = e.evaluation ρ := by
  induction e with
  | var name =>
    have hname : σ name = ρ name := h name List.mem_cons_self
    simp only [evaluation, walk, hname]
  | int | str | bool => rfl
  | unary op e ih =>
    rw [lookups_unary] at h
    rw [evaluation_unary, evaluation_unary, ih h]
  | binary op l r ihl ihr =>
    rw [evaluation_binary, evaluation_binary]
    cases hl : l.eval ρ with
    | error error =>
      -- The right operand is not reached, and nothing is known of the names in it.
      rw [lookups_binary_of_error hl] at h
      rw [ihl h, Evaluation.andThen_of_error hl, Evaluation.andThen_of_error hl]
    | ok v =>
      rw [lookups_binary_of_ok hl] at h
      obtain ⟨hleft, hright⟩ := List.forall_mem_append.1 h
      rw [ihl hleft, ihr hright]

theorem isSome_of_mem_lookups (h : ∀ name, e.eval ρ ≠ .error (.undefinedVariable name)) :
    ∀ name ∈ (e.evaluation ρ).lookups, (ρ name).isSome = true := by
  cases hresult : e.eval ρ with
  | ok v =>
    rw [lookups_of_ok hresult]
    exact isSome_of_eval_ok hresult
  | error error =>
    obtain ⟨path, hpath⟩ := exists_failsAt hresult
    obtain ⟨answered, hnames, hanswered⟩ := hpath.answered
    have hmismatch : error.undefined? = none := by
      cases error with
      | undefinedVariable name => exact absurd hresult (h name)
      | binaryTypeMismatch | unaryTypeMismatch => rfl
    rw [hmismatch, Option.toList_none, List.append_nil] at hnames
    rw [hpath.lookups, hnames]
    exact hanswered

theorem eval_eq_or_undefined (h : ρ.ExtendedBy σ) (e : Expr) :
    e.eval σ = e.eval ρ ∨ ∃ name, e.eval ρ = .error (.undefinedVariable name) := by
  by_cases hundefined : ∃ name, e.eval ρ = .error (.undefinedVariable name)
  · exact .inr hundefined
  · have hagree := h.agreeOn (isSome_of_mem_lookups (not_exists.1 hundefined))
    exact .inl (congrArg Evaluation.result (evaluation_eq_of_agreeOn hagree))

end Expr

namespace Condition

variable {source : String}

theorem evaluate_eq_of_agreeOn (h : ρ.AgreeOn σ (lookups source ρ)) :
    evaluate source σ = evaluate source ρ ∧ lookups source σ = lookups source ρ := by
  unfold evaluate
  unfold lookups steps at h ⊢
  cases hcompile : compile source with
  | error error => exact ⟨rfl, rfl⟩
  | ok e =>
    rw [hcompile] at h
    have hsame : e.evaluation σ = e.evaluation ρ := Expr.evaluation_eq_of_agreeOn h
    have heval : e.eval σ = e.eval ρ := congrArg Evaluation.result hsame
    simp only [hsame, heval, and_self]

theorem evaluate_eq_or_undefined (h : ρ.ExtendedBy σ) (source : String) :
    evaluate source σ = evaluate source ρ ∨
      ∃ name, evaluate source ρ = .error (.eval (.undefinedVariable name)) := by
  unfold evaluate
  cases compile source with
  | error error => exact .inl rfl
  | ok e =>
    rcases Expr.eval_eq_or_undefined h e with heval | ⟨name, hname⟩
    · exact .inl (congrArg (Except.mapError ConditionError.eval) heval)
    · refine .inr ⟨name, ?_⟩
      simp only [hname, Except.mapError]

end Condition

/-- An evaluation depends on its resolver through the answers it gets and through nothing else. More
definitions change it only where one was missing. -/
theorem outcome_depends_on_lookups (ρ σ : Resolver) :
    (∀ e : Expr, ρ.AgreeOn σ (e.evaluation ρ).lookups →
        e.eval σ = e.eval ρ ∧ (e.evaluation σ).lookups = (e.evaluation ρ).lookups) ∧
      (∀ source, ρ.AgreeOn σ (Condition.lookups source ρ) →
        Condition.evaluate source σ = Condition.evaluate source ρ ∧
          Condition.lookups source σ = Condition.lookups source ρ) ∧
      (ρ.ExtendedBy σ →
        (∀ e : Expr, e.eval σ = e.eval ρ ∨
          ∃ name, e.eval ρ = .error (.undefinedVariable name)) ∧
        ∀ source, Condition.evaluate source σ = Condition.evaluate source ρ ∨
          ∃ name, Condition.evaluate source ρ = .error (.eval (.undefinedVariable name))) := by
  refine ⟨fun e h => ?_, fun source h => Condition.evaluate_eq_of_agreeOn h, fun h =>
    ⟨Expr.eval_eq_or_undefined h, Condition.evaluate_eq_or_undefined h⟩⟩
  have hsame := Expr.evaluation_eq_of_agreeOn h
  exact ⟨congrArg Evaluation.result hsame, congrArg Evaluation.lookups hsame⟩

theorem outcome_depends_on_lookups_unreached :
    let ρ := Resolver.ofPairs [("name", .str "Ann")]
    let σ := Resolver.ofPairs [("name", .str "Ann"), ("age", .int 3)]
    Condition.lookups "(and (gt name 1) age)" ρ = ["name"] ∧ ρ.ExtendedBy σ ∧
      ρ.AgreeOn σ (Condition.lookups "(and (gt name 1) age)" ρ) ∧
      Condition.evaluate "(and (gt name 1) age)" σ =
        .error (.eval (.binaryTypeMismatch .gt .string .int)) := by
  intro ρ σ
  have hresult : Condition.evaluate "(and (gt name 1) age)" ρ =
      .error (.eval (.binaryTypeMismatch .gt .string .int)) := by decide +kernel
  have hagree : ρ.AgreeOn σ (Condition.lookups "(and (gt name 1) age)" ρ) := by
    unfold Resolver.AgreeOn
    decide +kernel
  refine ⟨by decide +kernel, Resolver.ofPairs_extendedBy_append _ [("age", .int 3)], hagree, ?_⟩
  exact ((outcome_depends_on_lookups ρ σ).2.1 _ hagree).1.trans hresult

end CondLang
