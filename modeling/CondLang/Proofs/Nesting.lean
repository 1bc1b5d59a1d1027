import CondLang.Proofs.Composition
import CondLang.Proofs.OutermostError
import CondLang.Proofs.Rejection
import Mathlib.Logic.Function.Iterate

/-! Negations around a condition, with any number of parentheses behind them. If one parenthesis is
missing it is that of the outermost negation; if more are, that negation has no operand; and if
there are too many, the first one that closes no negation is refused. -/

namespace CondLang

section Contents

def openings : Nat → List Content → List Content
  | 0, ws => ws
  | n + 1, ws => (.leftParen, "(") :: (.symbol, UnaryOp.not.keyword) :: openings n ws

def closings (m : Nat) : List Content :=
  List.replicate m (.rightParen, ")")

variable {ts : List Token} {ws pre post : List Content} {e : Expr} {n m i j : Nat}

theorem length_openings (n : Nat) (ws : List Content) :
    (openings n ws).length = 2 * n + ws.length := by
  induction n with
  | zero => simp [openings]
  | succ n ih =>
    simp only [openings, List.length_cons, ih]
    omega

theorem openings_append (n : Nat) (ws more : List Content) :
    openings n (ws ++ more) = openings n ws ++ more := by
  induction n with
  | zero => rfl
  | succ n ih => simp only [openings, ih, List.cons_append]

theorem closings_add (m k : Nat) : closings (m + k) = closings m ++ closings k :=
  List.replicate_add ..

def balanced (n : Nat) (ws : List Content) : List Content :=
  openings n (ws ++ closings n)

theorem length_balanced (n : Nat) (ws : List Content) :
    (balanced n ws).length = 3 * n + ws.length := by
  rw [balanced, length_openings, List.length_append, closings, List.length_replicate]
  omega

theorem openings_closings_add (n k : Nat) (ws : List Content) :
    openings n (ws ++ closings (n + k)) = balanced n ws ++ closings k := by
  rw [closings_add, ← List.append_assoc, openings_append, balanced]

theorem balanced_succ (n : Nat) (ws : List Content) :
    balanced (n + 1) ws = formContents (.unary .not) (balanced n ws) := by
  rw [balanced, openings, openings_closings_add]
  rfl

theorem Forms.balanced (h : Forms ws e) (n : Nat) :
    Forms (balanced n ws) ((Expr.unary .not)^[n] e) := by
  induction n with
  | zero => simpa [CondLang.balanced, openings, closings] using h
  | succ n ih =>
    rw [balanced_succ, Function.iterate_succ_apply']
    exact ih.unary .not

theorem Derives.operand {op : UnaryOp} (h : Derives ts i e j) (hopen : OpensForm ts i (.unary op)) :
    ∃ x k, Derives ts (i + 2) x k ∧ HasKind ts k .rightParen := by
  have hparen : HasKind ts i e.firstKind := h.hasKind_first
  cases h with
  | var | int | bool | str => cases hparen.unique hopen.1
  | unary _ he hclose => exact ⟨_, _, he, hclose⟩
  | binary hopen' => cases hopen'.unique hopen

theorem not_exprAt_of_lt (he : Forms ws e) (h : m < n)
    (hts : ts.map Token.content =
      pre ++ (openings n (ws ++ closings m) ++ [(.endOfInput, "")])) : ¬ExprAt ts pre.length := by
  rintro ⟨x, j, hx⟩
  induction n generalizing pre x j with
  | zero => omega
  | succ n ih =>
    have hopen : OpensForm ts pre.length (.unary .not) := opensForm_of_contents hts
    obtain ⟨y, k, hy, hclose⟩ := hx.operand hopen
    let front : List Content := pre ++ [(.leftParen, "("), (.symbol, UnaryOp.not.keyword)]
    have hfront : front.length = pre.length + 2 := by simp [front]
    have hinside : ts.map Token.content =
        front ++ (openings n (ws ++ closings m) ++ [(.endOfInput, "")]) := by
      simpa [front, openings] using hts
    rw [← hfront] at hy
    rcases Nat.lt_or_eq_of_le (Nat.le_of_lt_succ h) with hlt | rfl
    · exact ih hlt hinside y k hy
    · -- The operand is complete, and the input ends where its negation should be closed.
      obtain ⟨rfl, rfl⟩ := hy.unique (he.balanced m ts _ _ hinside)
      rw [← List.append_assoc] at hinside
      obtain ⟨t, ht, hkind, -⟩ := exists_token_behind hinside
      rw [List.length_append] at ht
      cases HasKind.unique ⟨t, ht, hkind⟩ hclose

end Contents

namespace Expr

variable {ρ : Resolver} {e : Expr} {error : EvalError} {v : Value}

theorem eval_not_iterate_of_error (h : e.eval ρ = .error error) (n : Nat) :
    ((unary .not)^[n] e).eval ρ = .error error := by
  induction n with
  | zero => exact h
  | succ n ih =>
    rw [Function.iterate_succ_apply']
    exact eval_unary_eq_error_iff.2 (.inl ih)

theorem eval_not_iterate_of_bool {b : Bool} (h : e.eval ρ = .ok (.bool b)) (n : Nat) :
    ((unary .not)^[n] e).eval ρ = .ok (.bool (not^[n] b)) := by
  induction n with
  | zero => exact h
  | succ n ih =>
    rw [Function.iterate_succ_apply', Function.iterate_succ_apply']
    exact eval_unary_eq_ok_iff.2 ⟨_, ih, rfl⟩

theorem eval_not_iterate_succ (h : e.eval ρ = .ok v) (hv : v.bool? = none) (n : Nat) :
    ((unary .not)^[n + 1] e).eval ρ = .error (.unaryTypeMismatch .not v.type) := by
  have happly : UnaryOp.not.apply v = .error (.unaryTypeMismatch .not v.type) := by
    cases v with
    | int | str => rfl
    | bool => cases hv
  have hinner : (unary .not e).eval ρ = .error (.unaryTypeMismatch .not v.type) :=
    eval_unary_eq_error_iff.2 (.inr ⟨v, h, happly⟩)
  rw [Function.iterate_succ_apply]
  exact eval_not_iterate_of_error hinner n

theorem eval_not_iterate (ρ : Resolver) (e : Expr) {n : Nat} (hn : 1 ≤ n) :
    ((unary .not)^[n] e).eval ρ = match e.eval ρ with
      | .error error => .error error
      | .ok (.bool b) => .ok (.bool (not^[n] b))
      | .ok v => .error (.unaryTypeMismatch .not v.type) := by
  obtain ⟨n, rfl⟩ := Nat.exists_eq_succ_of_ne_zero (Nat.one_le_iff_ne_zero.1 hn)
  cases h : e.eval ρ with
  | error error => exact eval_not_iterate_of_error h _
  | ok v =>
    cases v with
    | bool b => exact eval_not_iterate_of_bool h _
    | int | str => exact eval_not_iterate_succ h rfl n

end Expr

namespace Condition

def negated (n m : Nat) (s : String) : String :=
  String.join (List.replicate n "(not ") ++ s ++ String.join (List.replicate m ")")

variable {s : String} {e : Expr} {ws : List Content} {n m : Nat}

theorem scans_closings (m : Nat) :
    Scans (String.join (List.replicate m ")")).toList (closings m) [] := by
  induction m with
  | zero => exact .done []
  | succ m ih =>
    rw [List.replicate_succ, String.join_cons, String.toList_append]
    exact .take (.rightParen _) (by decide) ih

theorem stops_closings (m : Nat) :
    Stops Char.isAlphanum (String.join (List.replicate m ")")).toList := by
  cases m with
  | zero => exact stops_nil _
  | succ m =>
    rw [List.replicate_succ, String.join_cons, String.toList_append]
    exact stops_cons.2 (by decide)

theorem scans_negated (h : Scans s.toList ws []) (n m : Nat) :
    Scans (negated n m s).toList (openings n (ws ++ closings m)) [] := by
  induction n with
  | zero =>
    have htail := h.append fun _ => stops_closings m
    rw [negated, List.replicate_zero, String.join_nil, String.empty_append, String.toList_append]
    exact htail.trans (scans_closings m)
  | succ n ih =>
    have htext : (negated (n + 1) m s).toList =
        '(' :: (Operator.unary .not).keyword.toList ++ ' ' :: (negated n m s).toList := by
      simp only [negated, List.replicate_succ, String.join_cons, String.append_assoc]
      rw [String.toList_append]
      rfl
    rw [htext]
    exact ih.opening (.unary .not)

theorem map_content_negated (h : Scans s.toList ws []) (n m : Nat) :
    (lex (negated n m s)).toList.map Token.content =
      [] ++ (openings n (ws ++ closings m) ++ [(.endOfInput, "")]) :=
  (scans_negated h n m).map_content_lex

theorem opensForm_negated (h : Scans s.toList ws []) (n m : Nat) :
    OpensForm (lex (negated (n + 1) m s)).toList 0 (.unary .not) :=
  @opensForm_of_contents _ _ [] _ (map_content_negated h (n + 1) m)

theorem map_content_negated_succ (h : Scans s.toList ws []) (n m : Nat) :
    (lex (negated (n + 1) m s)).toList.map Token.content =
      [(.leftParen, "("), (.symbol, UnaryOp.not.keyword)] ++
        (openings n (ws ++ closings m) ++ [(.endOfInput, "")]) :=
  map_content_negated h (n + 1) m

theorem compile_negated (h : compile s = .ok e) (n : Nat) :
    compile (negated n n s) = .ok ((Expr.unary .not)^[n] e) := by
  obtain ⟨ws, hscan, hforms⟩ := compile_eq_ok_iff.1 h
  exact compile_eq_ok_iff.2 ⟨_, scans_negated hscan n n, hforms.balanced n⟩

theorem compile_of_outermostError {error : ParseError}
    (h : OutermostError (lex s).toList error) : compile s = .error error :=
  compile_eq_error_iff.2 h.parse_eq

theorem compile_negated_missing_one (hscan : Scans s.toList ws []) (hforms : Forms ws e) (m : Nat) :
    compile (negated (m + 1) m s) =
      .error ⟨.missingCloseParen (.unary .not), 2 + (3 * m + ws.length)⟩ := by
  have hopen := opensForm_negated hscan m m
  have hinside := map_content_negated_succ hscan m m
  rw [← balanced] at hinside
  have hoperand := hforms.balanced m _ _ _ hinside
  rw [← List.append_assoc] at hinside
  obtain ⟨t, ht, hkind, -⟩ := exists_token_behind hinside
  rw [List.length_append, length_balanced] at ht
  rw [length_balanced] at hoperand
  have hopened : t.kind ≠ .rightParen := by
    rw [hkind]
    decide
  exact compile_of_outermostError (.refused (.notClosed (.one hopen hoperand) ht hopened))

theorem compile_negated_missing_more (hscan : Scans s.toList ws []) (hforms : Forms ws e)
    (h : m + 1 < n) : compile (negated n m s) = .error ⟨.expressionExpected, 2⟩ := by
  obtain ⟨n, rfl⟩ := Nat.exists_eq_add_of_lt (Nat.zero_lt_of_lt h)
  rw [Nat.zero_add] at h ⊢
  have hopen := opensForm_negated hscan n m
  have hinside := map_content_negated_succ hscan n m
  have hoperand := not_exprAt_of_lt hforms (Nat.lt_of_succ_lt_succ h) hinside
  exact compile_of_outermostError (.refused (.firstOperand hopen hoperand))

theorem compile_negated_extra (hscan : Scans s.toList ws []) (hforms : Forms ws e) (h : n < m) :
    compile (negated n m s) = .error ⟨.unexpectedToken ")", 3 * n + ws.length⟩ := by
  obtain ⟨k, rfl⟩ := Nat.exists_eq_add_of_lt h
  have hts := map_content_negated hscan n (n + k + 1)
  rw [Nat.add_assoc, openings_closings_add, List.append_assoc] at hts
  have hwhole := hforms.balanced n _ _ _ hts
  rw [← List.append_assoc] at hts
  obtain ⟨t, ht, hkind, htext⟩ := exists_token_behind hts
  rw [List.length_append, List.length_nil, length_balanced, Nat.zero_add] at ht
  rw [List.length_nil, length_balanced, Nat.zero_add] at hwhole
  have hmore : t.kind ≠ .endOfInput := by
    rw [hkind]
    decide
  have htrailing := OutermostError.trailing hwhole ht hmore
  rw [htext] at htrailing
  exact compile_of_outermostError htrailing

theorem lengthBeforeEnd_of_scans (h : Scans s.toList ws []) :
    Parse.lengthBeforeEnd (lex s).toList = ws.length :=
  Nat.succ.inj ((lengthBeforeEnd_lex h.isTerminated).trans h.length_lex)

/-- A condition behind `n` negations wants `n` parentheses behind it. With these it is the negated
condition; with fewer or more the failure tells whether one is missing, or several, or there are too
many. -/
theorem parentheses_match_negations (h : compile s = .ok e) (hn : 1 ≤ n) (m : Nat) :
    let k := Parse.lengthBeforeEnd (lex s).toList
    (m = n → compile (negated n m s) = .ok ((Expr.unary .not)^[n] e) ∧
      ∀ ρ, evaluate (negated n m s) ρ = match e.eval ρ with
        | .error error => .error (.eval error)
        | .ok (.bool b) => .ok (.bool (not^[n] b))
        | .ok v => .error (.eval (.unaryTypeMismatch .not v.type))) ∧
      (m + 1 = n → compile (negated n m s) =
        .error ⟨.missingCloseParen (.unary .not), 2 * n + k + m⟩) ∧
      (m + 1 < n → compile (negated n m s) = .error ⟨.expressionExpected, 2⟩) ∧
      (n < m → compile (negated n m s) = .error ⟨.unexpectedToken ")", 3 * n + k⟩) := by
  intro k
  obtain ⟨ws, hscan, hforms⟩ := compile_eq_ok_iff.1 h
  have hk : k = ws.length := lengthBeforeEnd_of_scans hscan
  refine ⟨?_, ?_, fun hmore => compile_negated_missing_more hscan hforms hmore,
    fun hextra => hk ▸ compile_negated_extra hscan hforms hextra⟩
  · rintro rfl
    have hcompile := compile_negated h m
    refine ⟨hcompile, fun ρ => ?_⟩
    rw [evaluate_of_compile hcompile, Expr.eval_not_iterate ρ e hn]
    cases e.eval ρ with
    | error error => rfl
    | ok v => cases v <;> rfl
  · rintro rfl
    have hindex : 2 * (m + 1) + k + m = 2 + (3 * m + ws.length) := by omega
    rw [hindex]
    exact compile_negated_missing_one hscan hforms m

theorem parentheses_match_negations_two_missing :
    compile " ( eq 1 2 )\t" = .ok (.binary .eq (.int 1) (.int 2)) ∧ 1 ≤ 3 ∧
      negated 3 1 " ( eq 1 2 )\t" = "(not (not (not  ( eq 1 2 )\t)" ∧
      compile "(not (not (not  ( eq 1 2 )\t)" = .error ⟨.expressionExpected, 2⟩ := by
  have hcompile : compile " ( eq 1 2 )\t" = .ok (.binary .eq (.int 1) (.int 2)) := by
    decide +kernel
  have htext : negated 3 1 " ( eq 1 2 )\t" = "(not (not (not  ( eq 1 2 )\t)" := by decide +kernel
  have hcount : 1 ≤ 3 := by decide
  obtain ⟨-, -, hmissing, -⟩ := parentheses_match_negations hcompile hcount 1
  exact ⟨hcompile, hcount, htext, htext ▸ hmissing (by decide)⟩

end Condition
end CondLang
