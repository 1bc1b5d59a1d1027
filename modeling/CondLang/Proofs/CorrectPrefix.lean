import CondLang.Proofs.Contents
import CondLang.Proofs.OutermostError
import CondLang.Proofs.Rejection

/-! The tokens before the index of a failure are the beginning of some condition, and the token at
the index, unless an operand begins there, is one that no condition has behind them. -/

namespace CondLang

variable {ts us : List Token} {t : Token} {e : Expr} {op : Operator} {error : ParseError}
  {i j k n : Nat}

/-! ### Lists that begin alike -/

theorem getElem?_of_take (hus : ts.take n <+: us) (hk : k < n) (ht : ts[k]? = some t) :
    us[k]? = some t := by
  rw [← List.getElem?_take_of_lt hk] at ht
  obtain ⟨rest, rfl⟩ := hus
  rw [List.getElem?_append_left (List.getElem?_eq_some_iff.1 ht).1, ht]

theorem HasKind.of_take {kind : TokenKind} (h : HasKind ts i kind) (hus : ts.take n <+: us)
    (hi : i < n) : HasKind us i kind := by
  obtain ⟨t, ht, hk⟩ := h
  exact ⟨t, getElem?_of_take hus hi ht, hk⟩

theorem OpensForm.of_take (h : OpensForm ts i op) (hus : ts.take n <+: us) (hi : i + 1 < n) :
    OpensForm us i op := by
  obtain ⟨hparen, t, ht, hop⟩ := h
  exact ⟨hparen.of_take hus (Nat.lt_of_succ_lt hi), t, getElem?_of_take hus hi ht, hop⟩

theorem Derives.of_take (h : Derives ts i e j) (hus : ts.take n <+: us) (hj : j ≤ n) :
    Derives us i e j := by
  have hsame : SameContents ts us 0 i j := by
    intro k _ hk
    have hlt : k < ts.length := Nat.lt_of_lt_of_le hk h.le_length
    have ht : ts[k]? = some ts[k] := List.getElem?_eq_getElem hlt
    rw [Nat.zero_add, ht, getElem?_of_take hus (Nat.lt_of_lt_of_le hk hj) ht]
  have hshift := h.shift hsame
  rwa [Nat.zero_add, Nat.zero_add] at hshift

theorem OperandsEnd.of_take (h : OperandsEnd ts i op j) (hus : ts.take n <+: us) (hj : j ≤ n) :
    OperandsEnd us i op j := by
  have hlt := h.lt
  cases h with
  | one hopen he => exact .one (hopen.of_take hus (by omega)) (he.of_take hus hj)
  | two hopen hl hr =>
    have hleft := hl.of_take hus (Nat.le_trans (Nat.le_of_lt hr.lt) hj)
    exact .two (hopen.of_take hus (by omega)) hleft (hr.of_take hus hj)

theorem take_prefix_append (us more : List Token) (n : Nat) : us.take n <+: us ++ more :=
  (List.take_prefix n us).trans (List.prefix_append us more)

/-! ### The tokens before the index

Each list below becomes the one before it by one more token, from a whole expression, which needs
only the end of the input, back to the empty list. -/

def Viable (us : List Token) : Prop :=
  ∃ more parsed, parse (us ++ more) = .ok parsed

theorem Viable.of_concat (h : Viable (us ++ [t])) : Viable us := by
  obtain ⟨more, parsed, hparse⟩ := h
  rw [List.append_assoc] at hparse
  exact ⟨_, parsed, hparse⟩

def Token.unplaced (kind : TokenKind) (text : String) : Token :=
  ⟨kind, 0, 0, text⟩

theorem hasKind_unplaced (us : List Token) (kind : TokenKind) (text : String) :
    HasKind (us ++ [.unplaced kind text]) us.length kind :=
  ⟨_, List.getElem?_concat_length, rfl⟩

theorem derives_unplaced (us : List Token) (name : String) :
    Derives (us ++ [.unplaced .symbol name]) us.length (.var name) (us.length + 1) :=
  .var List.getElem?_concat_length rfl

theorem viable_of_derives (h : Derives us 0 e j) (hj : j = us.length) : Viable us := by
  subst hj
  have hus := take_prefix_append us [.unplaced .endOfInput ""] us.length
  have hwhole := h.of_take hus (Nat.le_refl _)
  exact ⟨_, ⟨e, us.length⟩, parse_eq_ok.2 ⟨hwhole, hasKind_unplaced us .endOfInput ""⟩⟩

theorem viable_of_operandsEnd (h : OperandsEnd us 0 op j) (hj : j = us.length) : Viable us := by
  subst hj
  have hus := take_prefix_append us [.unplaced .rightParen ")"] us.length
  have hoperands := h.of_take hus (Nat.le_refl _)
  obtain ⟨e, he⟩ := hoperands.derives (hasKind_unplaced us .rightParen ")")
  exact (viable_of_derives he (by simp)).of_concat

theorem viable_of_left {op : BinaryOp} (hopen : OpensForm us 0 (.binary op))
    (hl : Derives us 2 e j) (hj : j = us.length) : Viable us := by
  subst hj
  have hlt := hl.lt
  have hus := take_prefix_append us [.unplaced .symbol "x"] us.length
  have hopen' := hopen.of_take hus (by omega)
  have hl' := hl.of_take hus (Nat.le_refl _)
  exact (viable_of_operandsEnd (.two hopen' hl' (derives_unplaced us "x")) (by simp)).of_concat

theorem viable_of_opensForm (hopen : OpensForm us 0 op) (hlen : us.length = 2) : Viable us := by
  have hus := take_prefix_append us [.unplaced .symbol "x"] us.length
  have hopen' := hopen.of_take hus (by omega)
  have hoperand := derives_unplaced us "x"
  rw [hlen] at hoperand
  have hend : 3 = (us ++ [Token.unplaced .symbol "x"]).length := by simp [hlen]
  cases op with
  | unary op => exact (viable_of_operandsEnd (.one hopen' hoperand) hend).of_concat
  | binary op => exact (viable_of_left hopen' hoperand hend).of_concat

theorem viable_of_leftParen (hparen : HasKind us 0 .leftParen) (hlen : us.length = 1) :
    Viable us := by
  let operator := Token.unplaced .symbol (Operator.keyword (.unary .not))
  have hparen' := hparen.of_take (take_prefix_append us [operator] us.length) (by omega)
  have hhead : (us ++ [operator])[1]? = some operator := by
    rw [← hlen]
    exact List.getElem?_concat_length
  have hopen : OpensForm (us ++ [operator]) 0 (.unary .not) := ⟨hparen', operator, hhead, rfl, rfl⟩
  exact (viable_of_opensForm hopen (by simp [hlen])).of_concat

theorem viable_nil : Viable [] :=
  (viable_of_derives (derives_unplaced [] "x") rfl).of_concat

theorem Refused.viable (h : Refused ts 0 error) : Viable (ts.take error.index) := by
  have hself : ∀ n, ts.take n <+: ts.take n := fun n => List.prefix_refl _
  cases h with
  | missing | ended | closing | noBoolean | noInteger => exact viable_nil
  | noOperator hopen | noName hopen | noKeyword hopen =>
    have hlen : (ts.take 1).length = 1 := List.length_take_of_le hopen.lt_length
    exact viable_of_leftParen (hopen.of_take (hself 1) Nat.zero_lt_one) hlen
  | firstOperand hopen =>
    obtain ⟨-, t, ht, -⟩ := id hopen
    have hlen : (ts.take 2).length = 2 :=
      List.length_take_of_le (List.getElem?_eq_some_iff.1 ht).1
    exact viable_of_opensForm (hopen.of_take (hself 2) Nat.one_lt_two) hlen
  | @secondOperand op l j hopen hl =>
    have hlen : (ts.take j).length = j := List.length_take_of_le hl.le_length
    have hlt := hl.lt
    exact viable_of_left (hopen.of_take (hself j) (by omega))
      (hl.of_take (hself j) (Nat.le_refl j)) hlen.symm
  | @neverClosed _ j h | @notClosed _ j _ h =>
    have hlen : (ts.take j).length = j := List.length_take_of_le h.le_length
    exact viable_of_operandsEnd (h.of_take (hself j) (Nat.le_refl j)) hlen.symm

theorem OutermostError.viable (h : OutermostError ts error) : Viable (ts.take error.index) := by
  cases h with
  | refused h => exact h.viable
  | @ranOut e j h | @trailing e j _ h =>
    have hlen : (ts.take j).length = j := List.length_take_of_le h.le_length
    exact viable_of_derives (h.of_take (List.prefix_refl _) (Nat.le_refl j)) hlen.symm

/-! ### The token at the index -/

theorem Refused.of_take (h : Refused ts i error) (hi : error.index < ts.length)
    (hcause : error.cause ≠ .expressionExpected) (hus : ts.take (error.index + 1) <+: us) :
    Refused us i error := by
  have hlast := Nat.lt_succ_self error.index
  cases h with
  | missing ht | noOperator _ ht => exact absurd hi (Nat.not_lt.2 (List.getElem?_eq_none_iff.1 ht))
  | neverClosed h hj => exact absurd hi (Nat.not_lt.2 (Nat.le_of_eq hj.symm))
  | firstOperand | secondOperand => exact absurd rfl hcause
  | ended h => exact .ended (h.of_take hus hlast)
  | closing ht hk => exact .closing (getElem?_of_take hus hlast ht) hk
  | noBoolean ht hk htrue hfalse =>
    exact .noBoolean (getElem?_of_take hus hlast ht) hk htrue hfalse
  | noInteger ht hk hn => exact .noInteger (getElem?_of_take hus hlast ht) hk hn
  | noName hopen ht hk =>
    have hopen' := hopen.of_take hus (Nat.lt_of_succ_lt hlast)
    exact .noName hopen' (getElem?_of_take hus hlast ht) hk
  | noKeyword hopen ht hk hop =>
    have hopen' := hopen.of_take hus (Nat.lt_of_succ_lt hlast)
    exact .noKeyword hopen' (getElem?_of_take hus hlast ht) hk hop
  | notClosed h ht hk =>
    exact .notClosed (h.of_take hus (Nat.le_of_lt hlast)) (getElem?_of_take hus hlast ht) hk

theorem OutermostError.of_take (h : OutermostError ts error) (hi : error.index < ts.length)
    (hcause : error.cause ≠ .expressionExpected) (hus : ts.take (error.index + 1) <+: us) :
    OutermostError us error := by
  have hlast := Nat.lt_succ_self error.index
  cases h with
  | refused h => exact .refused (h.of_take hi hcause hus)
  | ranOut h hj => exact absurd hi (Nat.not_lt.2 (Nat.le_of_eq hj.symm))
  | trailing h ht hk =>
    exact .trailing (h.of_take hus (Nat.le_of_lt hlast)) (getElem?_of_take hus hlast ht) hk

/-- The tokens before the index of a failure are the beginning of some condition. The token at the
index, unless an operand is missed there, fails in this way whatever stands behind it. -/
theorem error_index_marks_culprit (h : parse ts = .error error) :
    error.index ≤ ts.length ∧
      (∃ us parsed, ts.take error.index <+: us ∧ parse us = .ok parsed) ∧
      (error.index < ts.length → error.cause ≠ .expressionExpected →
        ∀ us, ts.take (error.index + 1) <+: us → parse us = .error error) := by
  have houter := outermostError_of_parse h
  refine ⟨?_, ?_, fun hi hcause us hus => (houter.of_take hi hcause hus).parse_eq⟩
  · have hends := endsBy_parse ts
    rw [h] at hends
    exact Nat.le_trans hends (lengthBeforeEnd_le_length ts)
  · obtain ⟨more, parsed, hparse⟩ := houter.viable
    exact ⟨_, parsed, List.prefix_append _ more, hparse⟩

theorem error_index_marks_culprit_second_operand :
    let ts := (lex "(not x y)").toList
    let error : ParseError := ⟨.missingCloseParen (.unary .not), 3⟩
    parse ts = .error error ∧ error.index < ts.length ∧ error.cause ≠ .expressionExpected ∧
      (∃ us parsed, ts.take 3 <+: us ∧ parse us = .ok parsed) ∧
      ts.take 4 <+: ts.take 4 ++ ts ∧ parse (ts.take 4 ++ ts) = .error error := by
  intro ts error
  have hparse : parse ts = .error error := by decide +kernel
  have hindex : error.index < ts.length := by decide +kernel
  have hcause : error.cause ≠ .expressionExpected := by decide
  obtain ⟨-, hviable, hculprit⟩ := error_index_marks_culprit hparse
  have hbegins := List.prefix_append (ts.take 4) ts
  exact ⟨hparse, hindex, hcause, hviable, hbegins, hculprit hindex hcause _ hbegins⟩

end CondLang
