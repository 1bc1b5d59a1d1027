import CondLang.Proofs.Evaluation
import CondLang.Proofs.Scanning

/-! Conditions put together as text. A form around two texts compiles to the form around their
trees, since each text is read in it as it is read alone. -/

namespace CondLang.Condition

def binaryText (op : BinaryOp) (a b : String) : String :=
  "(" ++ op.keyword ++ " " ++ a ++ " " ++ b ++ ")"

variable {a b : String} {ea eb : Expr}

theorem compile_not (ha : compile a = .ok ea) :
    compile ("(not " ++ a ++ ")") = .ok (.unary .not ea) := by
  obtain ⟨wa, hscan, hforms⟩ := compile_eq_ok_iff.1 ha
  have hinside : Scans (a.toList ++ [')']) wa [')'] :=
    hscan.append fun _ => stops_cons.2 (by decide)
  have htext : ("(not " ++ a ++ ")").toList =
      '(' :: (Operator.unary .not).keyword.toList ++ ' ' :: (a.toList ++ [')']) := by
    rw [String.toList_append, String.toList_append, List.append_assoc]
    rfl
  have hform := Scans.form (.unary .not) hinside
  rw [← htext] at hform
  exact compile_eq_ok_iff.2 ⟨_, hform, hforms.unary .not⟩

theorem compile_binaryText (op : BinaryOp) (ha : compile a = .ok ea) (hb : compile b = .ok eb) :
    compile (binaryText op a b) = .ok (.binary op ea eb) := by
  obtain ⟨wa, hscana, hformsa⟩ := compile_eq_ok_iff.1 ha
  obtain ⟨wb, hscanb, hformsb⟩ := compile_eq_ok_iff.1 hb
  have hright : Scans (b.toList ++ [')']) wb [')'] :=
    hscanb.append fun _ => stops_cons.2 (by decide)
  have hleft : Scans (a.toList ++ ' ' :: (b.toList ++ [')'])) wa (' ' :: (b.toList ++ [')'])) :=
    hscana.append fun _ => stops_cons.2 (by decide)
  have htext : (binaryText op a b).toList =
      '(' :: (Operator.binary op).keyword.toList ++
        ' ' :: (a.toList ++ ' ' :: (b.toList ++ [')'])) := by
    simp [binaryText, Operator.keyword]
  have hform := Scans.form (.binary op) (hleft.trans (.blank (by decide) hright))
  rw [← htext] at hform
  exact compile_eq_ok_iff.2 ⟨_, hform, hformsa.binary op hformsb⟩

theorem evaluate_of_compile (ha : compile a = .ok ea) (ρ : Resolver) :
    evaluate a ρ = (ea.eval ρ).mapError .eval := by
  rw [evaluate, ha]

theorem lookups_of_compile (ha : compile a = .ok ea) (ρ : Resolver) :
    lookups a ρ = (ea.evaluation ρ).lookups := by
  rw [lookups, steps, ha]
  rfl

theorem evaluate_eq_error_iff (ha : compile a = .ok ea) {ρ : Resolver} {error : ConditionError} :
    evaluate a ρ = .error error ↔ ∃ cause, ea.eval ρ = .error cause ∧ error = .eval cause := by
  rw [evaluate_of_compile ha]
  cases ea.eval ρ with
  | error cause => simp [Except.mapError, eq_comm]
  | ok v => simp [Except.mapError]

theorem evaluate_eq_ok_iff (ha : compile a = .ok ea) {ρ : Resolver} {v : Value} :
    evaluate a ρ = .ok v ↔ ea.eval ρ = .ok v := by
  rw [evaluate_of_compile ha]
  cases ea.eval ρ with
  | error cause => simp [Except.mapError]
  | ok v => simp [Except.mapError]

/-- A form around two conditions compiles to the form around their trees and is evaluated part by
part, and so does the negation of one. -/
theorem compile_composed (op : BinaryOp) (ha : compile a = .ok ea) (hb : compile b = .ok eb) :
    compile ("(not " ++ a ++ ")") = .ok (.unary .not ea) ∧
      compile (binaryText op a b) = .ok (.binary op ea eb) ∧
      ∀ ρ,
        (∀ error, evaluate a ρ = .error error →
          evaluate (binaryText op a b) ρ = .error error ∧
            lookups (binaryText op a b) ρ = lookups a ρ) ∧
        ∀ v, evaluate a ρ = .ok v →
          lookups (binaryText op a b) ρ = lookups a ρ ++ lookups b ρ ∧
            evaluate (binaryText op a b) ρ = match evaluate b ρ with
              | .ok w => (op.apply v w).mapError .eval
              | .error error => .error error := by
  have hboth := compile_binaryText op ha hb
  refine ⟨compile_not ha, hboth, fun ρ => ⟨fun error herror => ?_, fun v hv => ?_⟩⟩
  · obtain ⟨cause, hcause, rfl⟩ := (evaluate_eq_error_iff ha).1 herror
    rw [evaluate_of_compile hboth, lookups_of_compile hboth, lookups_of_compile ha,
      Expr.lookups_binary_of_error hcause, Expr.eval_binary, hcause]
    exact ⟨rfl, rfl⟩
  · have hleft := (evaluate_eq_ok_iff ha).1 hv
    rw [evaluate_of_compile hboth, lookups_of_compile hboth, lookups_of_compile ha,
      lookups_of_compile hb, Expr.lookups_binary_of_ok hleft, Expr.eval_binary, hleft,
      evaluate_of_compile hb]
    refine ⟨rfl, ?_⟩
    cases eb.eval ρ <;> rfl

theorem compile_composed_quoted :
    compile "(eq s \"a) \" )\t" = .ok (.binary .eq (.var "s") (.str "a) ")) ∧
      compile "true\n" = .ok (.bool true) ∧
      compile (binaryText .and "(eq s \"a) \" )\t" "true\n") =
        .ok (.binary .and (.binary .eq (.var "s") (.str "a) ")) (.bool true)) :=
  ⟨by decide +kernel, by decide +kernel,
    (compile_composed .and (by decide +kernel) (by decide +kernel)).2.1⟩

end CondLang.Condition
