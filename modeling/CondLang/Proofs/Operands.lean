import CondLang.Proofs.ParserRun

/-! Operands inside operands. A form is not read on behind the operand that fails, so the operands
that cannot be read lie in one another. -/

namespace CondLang

inductive OperandAt (ts : List Token) (i : Nat) : Nat → Prop
  | first {op : Operator} (hopen : OpensForm ts i op) : OperandAt ts i (i + 2)
  | second {op : BinaryOp} {l : Expr} {k : Nat} (hopen : OpensForm ts i (.binary op))
    (hl : Derives ts (i + 2) l k) : OperandAt ts i k

/-- What begins at index `i` stands inside the operands that begin at these indices, of which it is
itself the innermost. -/
inductive Nested (ts : List Token) : List Nat → Nat → Prop
  | whole : Nested ts [] 0
  | operand {starts : List Nat} {i k : Nat} (h : Nested ts starts i) (hk : OperandAt ts i k) :
    Nested ts (k :: starts) k

variable {ts : List Token} {i k : Nat} {starts around : List Nat} {error error' : ParseError}

/-! ### What is refused -/

theorem Refused.not_exprAt (h : Refused ts i error) : ¬ExprAt ts i := by
  rintro ⟨e, j, he⟩
  obtain ⟨inside, hpasses⟩ := Parse.passes_of_derives he
  obtain ⟨events, hfails⟩ := Parse.fails_of_refused h
  -- A run that goes on behind a first operand has forgotten where this began; a failure tells it.
  have hsame : Parse.runFrom ts .expression [.left .and 0] i =
      Parse.runFrom ts .expression [.left .and 1] i := by
    rw [hpasses, hpasses]
    rfl
  rw [hfails, hfails] at hsame
  cases congrArg ParseRun.result hsame

theorem Refused.unique (h : Refused ts i error) (h' : Refused ts i error') : error = error' := by
  obtain ⟨events, hevents⟩ := Parse.fails_of_refused h
  obtain ⟨events', hevents'⟩ := Parse.fails_of_refused h'
  exact Except.error.inj (congrArg ParseRun.result ((hevents []).symm.trans (hevents' [])))

/-! ### The operands around an expression -/

theorem OperandAt.lt (h : OperandAt ts i k) : i < k := by
  cases h with
  | first => omega
  | second _ hl =>
    have hlt := hl.lt
    omega

theorem OperandAt.refused (h : OperandAt ts i k) (hk : ¬ExprAt ts k) :
    Refused ts i ⟨.expressionExpected, k⟩ := by
  cases h with
  | first hopen => exact .firstOperand hopen hk
  | second hopen hl => exact .secondOperand hopen hl hk

theorem OperandAt.not_exprAt (h : OperandAt ts i k) (hk : ¬ExprAt ts k) : ¬ExprAt ts i :=
  (h.refused hk).not_exprAt

theorem OperandAt.unique {k' : Nat} (h : OperandAt ts i k) (hk : ¬ExprAt ts k)
    (h' : OperandAt ts i k') (hk' : ¬ExprAt ts k') : k = k' :=
  congrArg ParseError.index ((h.refused hk).unique (h'.refused hk'))

namespace Nested

theorem le (h : Nested ts starts i) : ∀ k ∈ starts, k ≤ i := by
  induction h with
  | whole => nofun
  | operand _ hk ih =>
    refine List.forall_mem_cons.2 ⟨Nat.le_refl _, fun j hj => ?_⟩
    exact Nat.le_trans (ih j hj) (Nat.le_of_lt hk.lt)

theorem descending (h : Nested ts starts i) : starts.Pairwise (· > ·) := by
  induction h with
  | whole => exact .nil
  | operand h hk ih =>
    exact List.pairwise_cons.2 ⟨fun j hj => Nat.lt_of_le_of_lt (h.le j hj) hk.lt, ih⟩

theorem of_mem (h : Nested ts starts i) (hk : k ∈ starts) :
    ∃ around, Nested ts (k :: around) k := by
  induction h with
  | whole => cases hk
  | operand h hoperand ih =>
    rcases List.mem_cons.1 hk with rfl | hk
    · exact ⟨_, h.operand hoperand⟩
    · exact ih hk

theorem not_exprAt (h : Nested ts starts i) (hi : ¬ExprAt ts i) : ∀ k ∈ starts, ¬ExprAt ts k := by
  induction h with
  | whole => nofun
  | operand _ hk ih => exact List.forall_mem_cons.2 ⟨hi, ih (hk.not_exprAt hi)⟩

theorem exists_operandAt (h : Nested ts starts i) (hk : k = 0 ∨ k ∈ starts) :
    k = i ∨ ∃ j ∈ starts, OperandAt ts k j := by
  induction h with
  | whole => simpa using hk
  | @operand starts i j h hj ih =>
    by_cases hkj : k = j
    · exact .inl hkj
    · have hk' : k = 0 ∨ k ∈ starts := by simpa [hkj] using hk
      rcases ih hk' with rfl | ⟨m, hm, hoperand⟩
      · exact .inr ⟨j, List.mem_cons_self, hj⟩
      · exact .inr ⟨m, List.mem_cons_of_mem _ hm, hoperand⟩

variable {start : Nat} {root : ParseError}

theorem eq_zero_or_mem (h : Nested ts starts start) (hroot : Refused ts start root)
    (hcause : root.cause ≠ .expressionExpected) (hi : Nested ts around i) (hno : ¬ExprAt ts i) :
    i = 0 ∨ i ∈ starts := by
  induction hi with
  | whole => exact .inl rfl
  | operand _ hk ih =>
    rcases h.exists_operandAt (ih (hk.not_exprAt hno)) with rfl | ⟨j, hj, hoperand⟩
    · -- The innermost operand is refused for another reason than an operand of its own.
      exact absurd (congrArg ParseError.cause (hroot.unique (hk.refused hno))) hcause
    · rw [hk.unique hno hoperand (h.not_exprAt hroot.not_exprAt j hj)]
      exact .inr hj

theorem mem_iff (h : Nested ts starts start) (hroot : Refused ts start root)
    (hcause : root.cause ≠ .expressionExpected) (k : Nat) :
    k ∈ starts ↔ (∃ around, Nested ts (k :: around) k) ∧ ¬ExprAt ts k := by
  constructor
  · exact fun hk => ⟨h.of_mem hk, h.not_exprAt hroot.not_exprAt k hk⟩
  · rintro ⟨⟨around, hk⟩, hno⟩
    rcases h.eq_zero_or_mem hroot hcause hk hno with rfl | hmem
    · cases hk with
      | operand _ hoperand => exact absurd hoperand.lt (Nat.not_lt_zero _)
    · exact hmem

end Nested

end CondLang
