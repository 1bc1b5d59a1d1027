import CondLang.Proofs.Evaluation

/-! Laws by which conditions may be rewritten: some operators are the negation of others, some are
others with their operands in the other order, and negation, conjunction and disjunction are
two-valued. Where both sides of a law fail they may fail differently. -/

namespace CondLang

namespace BinaryOp

inductive Complement : BinaryOp → BinaryOp → Prop
  | notEq : Complement .notEq .eq
  | ltEq : Complement .ltEq .gt
  | gtEq : Complement .gtEq .lt

inductive Mirror : BinaryOp → BinaryOp → Prop
  | gt : Mirror .gt .lt
  | gtEq : Mirror .gtEq .ltEq
  | eq : Mirror .eq .eq
  | and : Mirror .and .and
  | or : Mirror .or .or

variable {op op' : BinaryOp}

theorem decide_le_eq_not_lt (a b : Int64) : decide (a ≤ b) = !decide (b < a) := by
  rw [← decide_not, decide_eq_decide]
  exact Int64.not_lt.symm

theorem Complement.onInts? (h : Complement op op') (a b : Int64) :
    op.onInts? a b = (op'.onInts? a b).map (!·) := by
  cases h with
  | notEq => rfl
  | ltEq => exact congrArg some (decide_le_eq_not_lt a b)
  | gtEq => exact congrArg some (decide_le_eq_not_lt b a)

theorem Complement.onValues? (h : Complement op op') (v w : Value) :
    op.onValues? v w = (op'.onValues? v w).map (!·) := by
  cases v <;> cases w
  case int.int a b => exact h.onInts? a b
  all_goals cases h <;> rfl

theorem Mirror.onInts? (h : Mirror op op') (a b : Int64) : op.onInts? a b = op'.onInts? b a := by
  cases h with
  | eq => exact congrArg some (Bool.beq_comm ..)
  | gt | gtEq | and | or => rfl

theorem Mirror.onValues? (h : Mirror op op') (v w : Value) :
    op.onValues? v w = op'.onValues? w v := by
  cases v <;> cases w
  case int.int a b => exact h.onInts? a b
  all_goals cases h
  all_goals
    simp [BinaryOp.onValues?, BinaryOp.onBools?, BinaryOp.onStrings?, Bool.and_comm, Bool.or_comm,
      Bool.beq_comm]

inductive Connective : BinaryOp → (Bool → Bool → Bool) → Prop
  | and : Connective .and (· && ·)
  | or : Connective .or (· || ·)

theorem Connective.onValues?_eq_some_iff {f : Bool → Bool → Bool} (h : Connective op f)
    {v w : Value} {r : Bool} :
    op.onValues? v w = some r ↔ ∃ p q, v = .bool p ∧ w = .bool q ∧ r = f p q := by
  cases h with
  | and | or =>
    cases v <;> cases w <;>
      simp [BinaryOp.onValues?, BinaryOp.onBools?, BinaryOp.onInts?, BinaryOp.onStrings?, eq_comm]

theorem apply_eq_ok_iff {v w u : Value} :
    op.apply v w = .ok u ↔ ∃ b, op.onValues? v w = some b ∧ u = .bool b := by
  unfold BinaryOp.apply
  cases op.onValues? v w <;> simp [eq_comm]

end BinaryOp

theorem UnaryOp.apply_not_eq_ok_iff {v w : Value} :
    UnaryOp.not.apply v = .ok w ↔ ∃ b, v = .bool b ∧ w = .bool !b := by
  cases v <;> simp [UnaryOp.apply, eq_comm]

namespace Expr

inductive Dual : Expr → Expr → Prop
  | complement {op op' : BinaryOp} (h : op.Complement op') (a b : Expr) :
    Dual (binary op a b) (unary .not (binary op' a b))
  | mirror {op op' : BinaryOp} (h : op.Mirror op') (a b : Expr) :
    Dual (binary op a b) (binary op' b a)
  | notAnd (a b : Expr) :
    Dual (unary .not (binary .and a b)) (binary .or (unary .not a) (unary .not b))
  | notOr (a b : Expr) :
    Dual (unary .not (binary .or a b)) (binary .and (unary .not a) (unary .not b))
  | notNot (a : Expr) : Dual (unary .not (unary .not a)) (binary .and a a)

/-- The second condition comes from the first one by such laws, used in either direction, at any
place and any number of times. -/
inductive Rewritten : Expr → Expr → Prop
  | dual {x y : Expr} (h : Dual x y) : Rewritten x y
  | refl (x : Expr) : Rewritten x x
  | symm {x y : Expr} (h : Rewritten x y) : Rewritten y x
  | trans {x y z : Expr} (h : Rewritten x y) (h' : Rewritten y z) : Rewritten x z
  | unary (op : UnaryOp) {x y : Expr} (h : Rewritten x y) : Rewritten (.unary op x) (.unary op y)
  | binary (op : BinaryOp) {l r l' r' : Expr} (hl : Rewritten l l') (hr : Rewritten r r') :
    Rewritten (.binary op l r) (.binary op l' r')

variable {ρ : Resolver} {a b x y : Expr} {v : Value}

theorem eval_not_eq_ok_iff :
    (unary .not a).eval ρ = .ok v ↔ ∃ p, a.eval ρ = .ok (.bool p) ∧ v = .bool !p := by
  simp only [eval_unary_eq_ok_iff, UnaryOp.apply_not_eq_ok_iff]
  constructor
  · rintro ⟨_, ha, p, rfl, rfl⟩
    exact ⟨p, ha, rfl⟩
  · rintro ⟨p, ha, rfl⟩
    exact ⟨_, ha, p, rfl, rfl⟩

theorem eval_binary_eq_ok_iff_onValues {op : BinaryOp} :
    (binary op a b).eval ρ = .ok v ↔ ∃ u w p, a.eval ρ = .ok u ∧ b.eval ρ = .ok w ∧
      op.onValues? u w = some p ∧ v = .bool p := by
  simp only [eval_binary_eq_ok_iff, BinaryOp.apply_eq_ok_iff, exists_and_left]

theorem eval_connective_eq_ok_iff {op : BinaryOp} {f : Bool → Bool → Bool}
    (h : op.Connective f) : (binary op a b).eval ρ = .ok v ↔
      ∃ p q, a.eval ρ = .ok (.bool p) ∧ b.eval ρ = .ok (.bool q) ∧ v = .bool (f p q) := by
  simp only [eval_binary_eq_ok_iff_onValues, h.onValues?_eq_some_iff]
  constructor
  · rintro ⟨_, _, _, ha, hb, ⟨p, q, rfl, rfl, rfl⟩, rfl⟩
    exact ⟨p, q, ha, hb, rfl⟩
  · rintro ⟨p, q, ha, hb, rfl⟩
    exact ⟨_, _, _, ha, hb, ⟨p, q, rfl, rfl, rfl⟩, rfl⟩

theorem eval_complement {op op' : BinaryOp} (h : op.Complement op') :
    (binary op a b).eval ρ = .ok v ↔ (unary .not (binary op' a b)).eval ρ = .ok v := by
  simp only [eval_not_eq_ok_iff, eval_binary_eq_ok_iff_onValues, h.onValues?,
    Option.map_eq_some_iff]
  constructor
  · rintro ⟨u, w, _, ha, hb, ⟨p, hp, rfl⟩, rfl⟩
    exact ⟨p, ⟨u, w, p, ha, hb, hp, rfl⟩, rfl⟩
  · rintro ⟨p, ⟨u, w, _, ha, hb, hp, hpp⟩, rfl⟩
    cases hpp
    exact ⟨u, w, _, ha, hb, ⟨p, hp, rfl⟩, rfl⟩

theorem eval_mirror {op op' : BinaryOp} (h : op.Mirror op') :
    (binary op a b).eval ρ = .ok v ↔ (binary op' b a).eval ρ = .ok v := by
  simp only [eval_binary_eq_ok_iff_onValues, h.onValues?]
  constructor
  · rintro ⟨u, w, p, ha, hb, hp, hv⟩
    exact ⟨w, u, p, hb, ha, hp, hv⟩
  · rintro ⟨w, u, p, hb, ha, hp, hv⟩
    exact ⟨u, w, p, ha, hb, hp, hv⟩

theorem eval_deMorgan {op op' : BinaryOp} {f g : Bool → Bool → Bool} (hf : op.Connective f)
    (hg : op'.Connective g) (hfg : ∀ p q, (!f p q) = g (!p) (!q)) :
    (unary .not (binary op a b)).eval ρ = .ok v ↔
      (binary op' (unary .not a) (unary .not b)).eval ρ = .ok v := by
  simp only [eval_connective_eq_ok_iff hg, eval_not_eq_ok_iff, eval_connective_eq_ok_iff hf]
  constructor
  · rintro ⟨_, ⟨p, q, ha, hb, hpq⟩, rfl⟩
    cases hpq
    exact ⟨!p, !q, ⟨p, ha, rfl⟩, ⟨q, hb, rfl⟩, congrArg Value.bool (hfg p q)⟩
  · rintro ⟨_, _, ⟨p, ha, hp⟩, ⟨q, hb, hq⟩, rfl⟩
    cases hp
    cases hq
    exact ⟨f p q, ⟨p, q, ha, hb, rfl⟩, congrArg Value.bool (hfg p q).symm⟩

theorem eval_not_not :
    (unary .not (unary .not a)).eval ρ = .ok v ↔ (binary .and a a).eval ρ = .ok v := by
  simp only [eval_connective_eq_ok_iff .and, eval_not_eq_ok_iff]
  constructor
  · rintro ⟨_, ⟨p, ha, hp⟩, rfl⟩
    cases hp
    exact ⟨p, p, ha, ha, by rw [Bool.not_not, Bool.and_self]⟩
  · rintro ⟨p, q, ha, hb, rfl⟩
    cases ha.symm.trans hb
    exact ⟨!p, ⟨p, ha, rfl⟩, by rw [Bool.not_not, Bool.and_self]⟩

theorem Dual.eval_eq_ok_iff (h : Dual x y) : x.eval ρ = .ok v ↔ y.eval ρ = .ok v := by
  cases h with
  | complement h => exact eval_complement h
  | mirror h => exact eval_mirror h
  | notAnd => exact eval_deMorgan .and .or Bool.not_and
  | notOr => exact eval_deMorgan .or .and Bool.not_or
  | notNot => exact eval_not_not

/-- A condition that is rewritten by these laws has the value that it had, and none if it had
none. -/
theorem rewriting_keeps_values (h : Rewritten x y) (ρ : Resolver) (v : Value) :
    x.eval ρ = .ok v ↔ y.eval ρ = .ok v := by
  induction h generalizing v with
  | dual h => exact h.eval_eq_ok_iff
  | refl => exact Iff.rfl
  | symm _ ih => exact (ih v).symm
  | trans _ _ ih ih' => exact (ih v).trans (ih' v)
  | unary op _ ih => simp only [eval_unary_eq_ok_iff, ih]
  | binary op _ _ ihl ihr => simp only [eval_binary_eq_ok_iff, ihl, ihr]

theorem rewriting_keeps_values_inside :
    let adult := binary .gt (var "age") (int 17)
    let minor := binary .ltEq (var "age") (int 17)
    let x := unary .not (binary .and adult (var "member"))
    let y := binary .or minor (unary .not (var "member"))
    let ρ := Resolver.ofPairs [("age", .int 18), ("member", .bool false)]
    Rewritten x y ∧ x.eval ρ = .ok (.bool true) ∧ y.eval ρ = .ok (.bool true) := by
  intro adult minor x y ρ
  have houter : Rewritten x (binary .or (unary .not adult) (unary .not (var "member"))) :=
    .dual (.notAnd adult (var "member"))
  have hinner : Rewritten (unary .not adult) minor :=
    .symm (.dual (.complement .ltEq (var "age") (int 17)))
  have hrewritten : Rewritten x y := houter.trans (.binary .or hinner (.refl _))
  have hx : x.eval ρ = .ok (.bool true) := rfl
  exact ⟨hrewritten, hx, (rewriting_keeps_values hrewritten ρ _).1 hx⟩

end Expr
end CondLang
