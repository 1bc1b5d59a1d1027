import CondLang.Expr.Parse
import CondLang.Proofs.Refusal

/-! Where the grammar derives an expression, a run of the parser passes over exactly its tokens,
whatever forms are open around it. Where it derives none, the run fails with what is wrong there,
and the failure leaves through the open forms. -/

namespace CondLang

namespace ParseRun

theorem after_result (run : ParseRun) (events : List ParseEvent) :
    (run.after events).result = run.result := rfl

theorem after_after (run : ParseRun) (events more : List ParseEvent) :
    (run.after more).after events = run.after (events ++ more) := by
  simp only [after, List.append_assoc]

end ParseRun

namespace Parse

variable {ts : List Token} {i j : Nat} {t : Token} {due due' : Due} {e l : Expr}

def runFrom (ts : List Token) (due : Due) (opens : List Open) (i : Nat) : ParseRun :=
  run due opens i (ts.drop i)

def goOn (ts : List Token) (e : Expr) (j : Nat) (opens : List Open) : ParseRun :=
  runFrom ts (resume e j opens).1 (resume e j opens).2 j

theorem runFrom_of_some (ht : ts[i]? = some t) (due : Due) (opens : List Open) :
    runFrom ts due opens i = match step i t due opens with
      | .take events (due, opens) => (runFrom ts due opens (i + 1)).after events
      | .finish parsed => ⟨[], .ok parsed⟩
      | .refuse events cause => (unwind ⟨cause, i⟩ opens).after events := by
  obtain ⟨hi, rfl⟩ := List.getElem?_eq_some_iff.1 ht
  rw [runFrom, List.drop_eq_getElem_cons hi]
  rfl

theorem runFrom_of_none (ht : ts[i]? = none) (due : Due) (opens : List Open) :
    runFrom ts due opens i = unwind ⟨.unexpectedEndOfInput, i⟩ opens := by
  rw [runFrom, List.drop_eq_nil_of_le (List.getElem?_eq_none_iff.1 ht)]
  rfl

theorem runFrom_of_take {opens opens' : List Open} {events : List ParseEvent}
    (ht : ts[i]? = some t) (hs : step i t due opens = .take events (due', opens')) :
    runFrom ts due opens i = (runFrom ts due' opens' (i + 1)).after events := by
  rw [runFrom_of_some ht, hs]

/-- The run passes over the tokens of an expression and goes on behind them. -/
def Passes (ts : List Token) (i : Nat) (e : Expr) (j : Nat) : Prop :=
  ∃ events, ∀ opens, runFrom ts .expression opens i = (goOn ts e j opens).after events

def Awaits (ts : List Token) (i : Nat) (o : Open) : Prop :=
  ∃ events, ∀ opens, runFrom ts .expression opens i =
    (runFrom ts .expression (o :: opens) o.start).after events

def Fails (ts : List Token) (due : Due) (i : Nat) (error : ParseError) : Prop :=
  ∃ events, ∀ opens, runFrom ts due opens i = (unwind error opens).after events

theorem passes_leaf (ht : ts[i]? = some t)
    (hs : ∀ opens, step i t .expression opens =
      .take [.expression i t] (resume e (i + 1) opens)) : Passes ts i e (i + 1) :=
  ⟨[.expression i t], fun opens => runFrom_of_take ht (hs opens)⟩

theorem step_of_leftParen (ht : t.kind = .leftParen) (i : Nat) (opens : List Open) :
    step i t .expression opens = .take [.expression i t] (.operator, opens) := by
  simp only [step, expressionStep, ht]

theorem runFrom_of_opensForm {op : Operator} (h : OpensForm ts i op) :
    ∃ events, ∀ opens, runFrom ts .expression opens i =
      (runFrom ts .expression (enter op (i + 2) opens).2 (i + 2)).after events := by
  obtain ⟨⟨o, ho, hok⟩, t, ht, hk, hop⟩ := h
  refine ⟨[.expression i o, .form op], fun opens => ?_⟩
  have hsecond : step (i + 1) t .operator opens =
      .take [.form op] (.expression, (enter op (i + 2) opens).2) := by
    simp only [step, operatorStep, hk, hop, Operator.ofKeyword?_keyword, ↓reduceIte]
    cases op <;> rfl
  rw [runFrom_of_take ho (step_of_leftParen hok i opens), runFrom_of_take ht hsecond,
    ParseRun.after_after]
  rfl

theorem awaits_operand {op : UnaryOp} (h : OpensForm ts i (.unary op)) :
    Awaits ts i (.operand op (i + 2)) :=
  runFrom_of_opensForm h

theorem awaits_left {op : BinaryOp} (h : OpensForm ts i (.binary op)) :
    Awaits ts i (.left op (i + 2)) :=
  runFrom_of_opensForm h

theorem Awaits.goOn {o : Open} (h : Awaits ts i o) (he : Passes ts o.start e j) :
    ∃ events, ∀ opens,
      runFrom ts .expression opens i = (goOn ts e j (o :: opens)).after events := by
  obtain ⟨before, hbefore⟩ := h
  obtain ⟨inside, hinside⟩ := he
  refine ⟨before ++ inside, fun opens => ?_⟩
  rw [hbefore, hinside, ParseRun.after_after]

theorem awaits_right {op : BinaryOp} (h : OpensForm ts i (.binary op))
    (hl : Passes ts (i + 2) l j) : Awaits ts i (.right op l j) :=
  (awaits_left h).goOn hl

theorem runFrom_close {op : Operator} (h : HasKind ts j .rightParen) (e : Expr)
    (opens : List Open) : runFrom ts (.close op e) opens j = goOn ts e (j + 1) opens := by
  obtain ⟨t, ht, hk⟩ := h
  have hs : step j t (.close op e) opens = .take [] (resume e (j + 1) opens) := by
    simp only [step, hk, ↓reduceIte]
  rw [runFrom_of_take ht hs]
  rfl

theorem Awaits.passes {o : Open} {op : Operator} {form : Expr} (h : Awaits ts i o)
    (he : Passes ts o.start e j) (hform : ∀ opens, resume e j (o :: opens) = (.close op form, opens))
    (hclose : HasKind ts j .rightParen) : Passes ts i form (j + 1) := by
  obtain ⟨events, hevents⟩ := h.goOn he
  refine ⟨events, fun opens => ?_⟩
  rw [hevents, Parse.goOn, hform, runFrom_close hclose]

theorem passes_of_derives (h : Derives ts i e j) : Passes ts i e j := by
  induction h with
  | var ht hk =>
    refine passes_leaf ht fun opens => ?_
    simp only [step, expressionStep, hk]
  | int ht hk hn =>
    refine passes_leaf ht fun opens => ?_
    have hread := Decimal.readInt64?_eq_some_iff.2 hn
    simp only [step, expressionStep, hk, Literal.readInt?, hread]
  | @bool i t b ht hk hb =>
    refine passes_leaf ht fun opens => ?_
    have hread : Literal.readBool? t.text = some b := by
      rw [hb]
      cases b <;> rfl
    simp only [step, expressionStep, hk, hread]
  | str ht hk =>
    refine passes_leaf ht fun opens => ?_
    simp only [step, expressionStep, hk, Literal.readStr]
  | unary hopen he hclose ih => exact (awaits_operand hopen).passes ih (fun _ => rfl) hclose
  | binary hopen hl hr hclose ihl ihr =>
    exact (awaits_right hopen ihl).passes ihr (fun _ => rfl) hclose

theorem Fails.of_none (ht : ts[i]? = none) (due : Due) :
    Fails ts due i ⟨.unexpectedEndOfInput, i⟩ :=
  ⟨[], fun opens => runFrom_of_none ht due opens⟩

theorem Fails.of_refuse {cause : ParseError.Cause} (events : List ParseEvent)
    (ht : ts[i]? = some t) (hs : ∀ opens, step i t due opens = .refuse events cause) :
    Fails ts due i ⟨cause, i⟩ := by
  refine ⟨events, fun opens => ?_⟩
  rw [runFrom_of_some ht, hs]

theorem Fails.of_take {events : List ParseEvent} {error : ParseError}
    (ht : ts[i]? = some t) (hs : ∀ opens, step i t due opens = .take events (due', opens))
    (h : Fails ts due' (i + 1) error) : Fails ts due i error := by
  obtain ⟨more, hmore⟩ := h
  refine ⟨events ++ more, fun opens => ?_⟩
  rw [runFrom_of_take ht (hs opens), hmore, ParseRun.after_after]

theorem Awaits.fails {o : Open} {error : ParseError} (h : Awaits ts i o)
    (he : Fails ts .expression o.start error) :
    Fails ts .expression i ⟨.expressionExpected, o.start⟩ := by
  obtain ⟨before, hbefore⟩ := h
  obtain ⟨inside, hinside⟩ := he
  refine ⟨before ++ inside ++ [.operandFailed o.start error], fun opens => ?_⟩
  have hunwind : unwind error (o :: opens) =
      (unwind ⟨.expressionExpected, o.start⟩ opens).after [.operandFailed o.start error] := rfl
  rw [hbefore, hinside, hunwind, ParseRun.after_after, ParseRun.after_after]

theorem Awaits.fails_close {o : Open} {op : Operator} {form : Expr} {error : ParseError}
    (h : Awaits ts i o) (he : Passes ts o.start e j)
    (hform : ∀ opens, resume e j (o :: opens) = (.close op form, opens))
    (hclose : Fails ts (.close op form) j error) : Fails ts .expression i error := by
  obtain ⟨before, hbefore⟩ := h.goOn he
  obtain ⟨events, hevents⟩ := hclose
  refine ⟨before ++ events, fun opens => ?_⟩
  rw [hbefore, Parse.goOn, hform, hevents, ParseRun.after_after]

theorem Fails.of_leftParen {error : ParseError} (hparen : HasKind ts i .leftParen)
    (h : Fails ts .operator (i + 1) error) : Fails ts .expression i error := by
  obtain ⟨o, ho, hok⟩ := hparen
  exact h.of_take ho (step_of_leftParen hok i)

theorem fails_of_operandsEnd {op : Operator} {error : ParseError} (h : OperandsEnd ts i op j)
    (hclose : ∀ form, Fails ts (.close op form) j error) : Fails ts .expression i error := by
  cases h with
  | one hopen he =>
    exact (awaits_operand hopen).fails_close (passes_of_derives he) (fun _ => rfl) (hclose _)
  | two hopen hl hr =>
    have hawaits := awaits_right hopen (passes_of_derives hl)
    exact hawaits.fails_close (passes_of_derives hr) (fun _ => rfl) (hclose _)

theorem fails_of_refused {error : ParseError} (h : Refused ts i error) :
    Fails ts .expression i error := by
  -- An operand begins behind its form, so the induction is on the tokens that are left.
  induction hm : ts.length - i using Nat.strongRecOn generalizing i error with
  | _ m ih =>
  subst hm
  have hoperand : ∀ {k}, i < ts.length → i < k → ¬ExprAt ts k →
      ∃ inner, Fails ts .expression k inner := by
    intro k hi hik hno
    rcases exprAt_or_refused ts k with hexpr | ⟨inner, hinner⟩
    · exact absurd hexpr hno
    · exact ⟨inner, ih _ (by omega) hinner rfl⟩
  cases h with
  | missing ht => exact .of_none ht _
  | ended h =>
    obtain ⟨t, ht, hk⟩ := h
    refine .of_refuse [.expression i t] ht fun opens => ?_
    simp only [step, expressionStep, hk]
  | @closing t ht hk =>
    refine .of_refuse [.expression i t] ht fun opens => ?_
    simp only [step, expressionStep, hk]
  | @noBoolean t ht hk htrue hfalse =>
    have hread := Literal.readBool?_eq_none_iff.2 ⟨htrue, hfalse⟩
    refine .of_refuse [.expression i t] ht fun opens => ?_
    simp only [step, expressionStep, hk, hread]
  | @noInteger t ht hk hn =>
    have hread := Literal.readInt?_eq_none_iff.2 hn
    refine .of_refuse [.expression i t] ht fun opens => ?_
    simp only [step, expressionStep, hk, hread]
  | noOperator hopen ht => exact .of_leftParen hopen (.of_none ht _)
  | noName hopen ht hk =>
    refine .of_leftParen hopen (.of_refuse [] ht fun opens => ?_)
    simp only [step, operatorStep, hk, ↓reduceIte]
  | @noKeyword t hopen ht hk hop =>
    have hread : Operator.ofKeyword? t.text = none :=
      Option.eq_none_iff_forall_ne_some.2 fun op h =>
        hop op (Operator.keyword_of_ofKeyword? h).symm
    refine .of_leftParen hopen (.of_refuse [] ht fun opens => ?_)
    simp only [step, operatorStep, hk, hread, ↓reduceIte]
  | @firstOperand op hopen hno =>
    obtain ⟨inner, hinner⟩ := hoperand hopen.1.lt_length (by omega) hno
    cases op with
    | unary op => exact (awaits_operand hopen).fails hinner
    | binary op => exact (awaits_left hopen).fails hinner
  | secondOperand hopen hl hno =>
    have hlt := hl.lt
    obtain ⟨inner, hinner⟩ := hoperand hopen.1.lt_length (by omega) hno
    exact (awaits_right hopen (passes_of_derives hl)).fails hinner
  | neverClosed h hj =>
    exact fails_of_operandsEnd h fun _ => .of_none (List.getElem?_eq_none (Nat.le_of_eq hj.symm)) _
  | notClosed h ht hk =>
    refine fails_of_operandsEnd h fun form => .of_refuse [] ht fun opens => ?_
    simp only [step, hk, ↓reduceIte]

theorem unwind_result (error : ParseError) (opens : List Open) :
    ∃ outer, (unwind error opens).result = .error outer := by
  induction opens generalizing error with
  | nil => exact ⟨error, rfl⟩
  | cons o opens ih => exact ih ⟨.expressionExpected, o.start⟩

theorem Fails.result_ne_ok {error : ParseError} (h : Fails ts due i error) (opens : List Open)
    (parsed : Parsed) : (runFrom ts due opens i).result ≠ .ok parsed := by
  obtain ⟨events, hevents⟩ := h
  obtain ⟨outer, houter⟩ := unwind_result error opens
  rw [hevents, ParseRun.after_result, houter]
  exact fun h => nomatch h

theorem goOn_result_eq_ok_iff {parsed : Parsed} :
    (goOn ts e j []).result = .ok parsed ↔ parsed = ⟨e, j⟩ ∧ HasKind ts j .endOfInput := by
  rw [goOn, resume]
  cases ht : ts[j]? with
  | none => simp [runFrom_of_none ht, unwind, HasKind, ht]
  | some t =>
    rw [runFrom_of_some ht]
    by_cases hk : t.kind = .endOfInput
    · simp [step, hk, HasKind, ht, eq_comm]
    · simp [step, hk, HasKind, ht, unwind, ParseRun.after]

end Parse

theorem parse_result_of_derives {ts : List Token} {e : Expr} {j : Nat} (h : Derives ts 0 e j) :
    parse ts = (Parse.goOn ts e j []).result := by
  obtain ⟨events, hevents⟩ := Parse.passes_of_derives h
  rw [← ParseRun.after_result (Parse.goOn ts e j []) events, ← hevents []]
  rfl

theorem parse_eq_ok {ts : List Token} {e : Expr} {n : Nat} :
    parse ts = .ok ⟨e, n⟩ ↔ Derives ts 0 e n ∧ HasKind ts n .endOfInput := by
  constructor
  · intro h
    rcases exprAt_or_refused ts 0 with ⟨e', j, he⟩ | ⟨error, herror⟩
    · rw [parse_result_of_derives he, Parse.goOn_result_eq_ok_iff] at h
      obtain ⟨hparsed, hend⟩ := h
      cases hparsed
      exact ⟨he, hend⟩
    · have hfails := Parse.fails_of_refused herror
      exact absurd h (hfails.result_ne_ok [] _)
  · rintro ⟨he, hend⟩
    rw [parse_result_of_derives he]
    exact Parse.goOn_result_eq_ok_iff.2 ⟨rfl, hend⟩

/-- The parser accepts exactly what the grammar derives, and the grammar is unambiguous. -/
theorem parse_accepts_iff_derives (ts : List Token) :
    (∀ e n, parse ts = .ok ⟨e, n⟩ ↔ Derives ts 0 e n ∧ HasKind ts n .endOfInput) ∧
      ∀ i e j e' j', Derives ts i e j → Derives ts i e' j' → e = e' ∧ j = j' :=
  ⟨fun _ _ => parse_eq_ok, fun _ _ _ _ _ h h' => h.unique h'⟩

end CondLang
