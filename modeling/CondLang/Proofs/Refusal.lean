import CondLang.Expr.ParseError
import CondLang.Proofs.Derivation

/-! Why tokens form no expression, told by the grammar without a parser. Only the outermost failure
is told: of an operand that could not be read, where it should begin. -/

namespace CondLang

def ExprAt (ts : List Token) (i : Nat) : Prop :=
  ∃ e j, Derives ts i e j

/-- A form with this operator is opened at index `i`, and its operands end before index `j`. -/
inductive OperandsEnd (ts : List Token) (i : Nat) : Operator → Nat → Prop
  | one {op : UnaryOp} {e : Expr} {j : Nat} (hopen : OpensForm ts i (.unary op))
    (he : Derives ts (i + 2) e j) : OperandsEnd ts i (.unary op) j
  | two {op : BinaryOp} {l r : Expr} {j k : Nat} (hopen : OpensForm ts i (.binary op))
    (hl : Derives ts (i + 2) l j) (hr : Derives ts j r k) : OperandsEnd ts i (.binary op) k

inductive Refused (ts : List Token) (i : Nat) : ParseError → Prop
  | missing (ht : ts[i]? = none) : Refused ts i ⟨.unexpectedEndOfInput, i⟩
  | ended (h : HasKind ts i .endOfInput) : Refused ts i ⟨.unexpectedEndOfInput, i⟩
  | closing {t : Token} (ht : ts[i]? = some t) (hk : t.kind = .rightParen) :
    Refused ts i ⟨.unexpectedToken t.text, i⟩
  | noBoolean {t : Token} (ht : ts[i]? = some t) (hk : t.kind = .booleanLiteral)
    (htrue : t.text ≠ "true") (hfalse : t.text ≠ "false") :
    Refused ts i ⟨.unexpectedToken t.text, i⟩
  | noInteger {t : Token} (ht : ts[i]? = some t) (hk : t.kind = .intLiteral)
    (hn : ∀ n : Int64, ¬Decimal.IsNumeral t.text.toList n.toInt) :
    Refused ts i ⟨.integerOutOfRange t.text, i⟩
  | noOperator (hopen : HasKind ts i .leftParen) (ht : ts[i + 1]? = none) :
    Refused ts i ⟨.unexpectedEndOfInput, i + 1⟩
  | noName {t : Token} (hopen : HasKind ts i .leftParen) (ht : ts[i + 1]? = some t)
    (hk : t.kind ≠ .symbol) : Refused ts i ⟨.expectedOperationName t.text, i + 1⟩
  | noKeyword {t : Token} (hopen : HasKind ts i .leftParen) (ht : ts[i + 1]? = some t)
    (hk : t.kind = .symbol) (hop : ∀ op : Operator, t.text ≠ op.keyword) :
    Refused ts i ⟨.unknownOperation t.text, i + 1⟩
  | firstOperand {op : Operator} (hopen : OpensForm ts i op) (h : ¬ExprAt ts (i + 2)) :
    Refused ts i ⟨.expressionExpected, i + 2⟩
  | secondOperand {op : BinaryOp} {l : Expr} {j : Nat} (hopen : OpensForm ts i (.binary op))
    (hl : Derives ts (i + 2) l j) (h : ¬ExprAt ts j) : Refused ts i ⟨.expressionExpected, j⟩
  | neverClosed {op : Operator} {j : Nat} (h : OperandsEnd ts i op j) (hj : j = ts.length) :
    Refused ts i ⟨.unexpectedEndOfInput, j⟩
  | notClosed {op : Operator} {j : Nat} {t : Token} (h : OperandsEnd ts i op j)
    (ht : ts[j]? = some t) (hk : t.kind ≠ .rightParen) : Refused ts i ⟨.missingCloseParen op, j⟩

variable {ts : List Token} {i j : Nat} {t : Token} {e : Expr} {op : Operator}

theorem HasKind.lt_length {kind : TokenKind} (h : HasKind ts i kind) : i < ts.length := by
  obtain ⟨t, ht, -⟩ := h
  exact (List.getElem?_eq_some_iff.1 ht).1

theorem Derives.le_length (h : Derives ts i e j) : j ≤ ts.length := by
  cases h with
  | var ht | int ht | bool ht | str ht => exact (List.getElem?_eq_some_iff.1 ht).1
  | unary _ _ hclose | binary _ _ _ hclose => exact hclose.lt_length

theorem OperandsEnd.le_length (h : OperandsEnd ts i op j) : j ≤ ts.length := by
  cases h with
  | one _ he => exact he.le_length
  | two _ _ hr => exact hr.le_length

theorem OperandsEnd.lt (h : OperandsEnd ts i op j) : i + 2 < j := by
  cases h with
  | one _ he => exact he.lt
  | two _ hl hr => exact Nat.lt_trans hl.lt hr.lt

theorem OperandsEnd.derives (h : OperandsEnd ts i op j) (hclose : HasKind ts j .rightParen) :
    ∃ e, Derives ts i e (j + 1) := by
  cases h with
  | one hopen he => exact ⟨_, .unary hopen he hclose⟩
  | two hopen hl hr => exact ⟨_, .binary hopen hl hr hclose⟩

/-! ### An expression or a refusal -/

theorem OperandsEnd.exprAt_or_refused (h : OperandsEnd ts i op j) :
    ExprAt ts i ∨ ∃ error, Refused ts i error := by
  cases ht : ts[j]? with
  | none =>
    have hj : j = ts.length := Nat.le_antisymm h.le_length (List.getElem?_eq_none_iff.1 ht)
    exact .inr ⟨_, .neverClosed h hj⟩
  | some t =>
    by_cases hk : t.kind = .rightParen
    · obtain ⟨e, he⟩ := h.derives ⟨t, ht, hk⟩
      exact .inl ⟨e, _, he⟩
    · exact .inr ⟨_, .notClosed h ht hk⟩

theorem OpensForm.exprAt_or_refused (hopen : OpensForm ts i op) :
    ExprAt ts i ∨ ∃ error, Refused ts i error := by
  by_cases hfirst : ExprAt ts (i + 2)
  · obtain ⟨l, j, hl⟩ := hfirst
    cases op with
    | unary op => exact (OperandsEnd.one hopen hl).exprAt_or_refused
    | binary op =>
      by_cases hsecond : ExprAt ts j
      · obtain ⟨r, k, hr⟩ := hsecond
        exact (OperandsEnd.two hopen hl hr).exprAt_or_refused
      · exact .inr ⟨_, .secondOperand hopen hl hsecond⟩
  · exact .inr ⟨_, .firstOperand hopen hfirst⟩

theorem exprAt_or_refused_of_leftParen (hopen : HasKind ts i .leftParen) :
    ExprAt ts i ∨ ∃ error, Refused ts i error := by
  cases ht : ts[i + 1]? with
  | none => exact .inr ⟨_, .noOperator hopen ht⟩
  | some t =>
    by_cases hk : t.kind = .symbol
    · by_cases hop : ∃ op : Operator, t.text = op.keyword
      · obtain ⟨op, hop⟩ := hop
        exact OpensForm.exprAt_or_refused ⟨hopen, t, ht, hk, hop⟩
      · exact .inr ⟨_, .noKeyword hopen ht hk fun op htext => hop ⟨op, htext⟩⟩
    · exact .inr ⟨_, .noName hopen ht hk⟩

theorem exprAt_or_refused_of_leaf (ht : ts[i]? = some t) (hparen : t.kind ≠ .leftParen) :
    ExprAt ts i ∨ ∃ error, Refused ts i error := by
  cases hk : t.kind with
  | symbol => exact .inl ⟨_, _, .var ht hk⟩
  | stringLiteral => exact .inl ⟨_, _, .str ht hk⟩
  | intLiteral =>
    by_cases hn : ∃ n : Int64, Decimal.IsNumeral t.text.toList n.toInt
    · obtain ⟨n, hn⟩ := hn
      exact .inl ⟨_, _, .int ht hk hn⟩
    · exact .inr ⟨_, .noInteger ht hk fun n h => hn ⟨n, h⟩⟩
  | booleanLiteral =>
    by_cases htrue : t.text = "true"
    · exact .inl ⟨_, _, .bool (b := true) ht hk htrue⟩
    by_cases hfalse : t.text = "false"
    · exact .inl ⟨_, _, .bool (b := false) ht hk hfalse⟩
    · exact .inr ⟨_, .noBoolean ht hk htrue hfalse⟩
  | rightParen => exact .inr ⟨_, .closing ht hk⟩
  | endOfInput => exact .inr ⟨_, .ended ⟨t, ht, hk⟩⟩
  | leftParen => exact absurd hk hparen

theorem exprAt_or_refused (ts : List Token) (i : Nat) :
    ExprAt ts i ∨ ∃ error, Refused ts i error := by
  cases ht : ts[i]? with
  | none => exact .inr ⟨_, .missing ht⟩
  | some t =>
    by_cases hparen : t.kind = .leftParen
    · exact exprAt_or_refused_of_leftParen ⟨t, ht, hparen⟩
    · exact exprAt_or_refused_of_leaf ht hparen

end CondLang
