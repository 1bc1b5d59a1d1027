import CondLang.Proofs.Operands
import CondLang.Proofs.Preorder

/-! The states through which a parse goes, and what has been read and told up to each of them.
Around the expression that begins next, or is being read, there are open forms, and the operands
that these have already are derived by the tokens before it. -/

namespace CondLang.Parse

variable {ts : List Token} {i j : Nat} {t : Token} {due : Due} {opens : List Open}
  {next : Due × List Open} {events visited : List ParseEvent} {cause : ParseError.Cause}
  {e : Expr} {op : Operator}

/-! ### What a token does -/

inductive Reads (ts : List Token) (i : Nat) (t : Token) (opens : List Open) : Due → Step → Prop
  | leaf {e : Expr} (h : Derives ts i e (i + 1)) :
    Reads ts i t opens .expression (.take [.expression i t] (resume e (i + 1) opens))
  | paren (hk : t.kind = .leftParen) :
    Reads ts i t opens .expression (.take [.expression i t] (.operator, opens))
  | noExpression {cause : ParseError.Cause} (h : Refused ts i ⟨cause, i⟩)
    (hcause : cause ≠ .expressionExpected) :
    Reads ts i t opens .expression (.refuse [.expression i t] cause)
  | operator {op : Operator} (hk : t.kind = .symbol) (htext : t.text = op.keyword) :
    Reads ts i t opens .operator (.take [.form op] (enter op (i + 1) opens))
  | noOperator {cause : ParseError.Cause}
    (h : ∀ k, i = k + 1 → HasKind ts k .leftParen → Refused ts k ⟨cause, i⟩)
    (hcause : cause ≠ .expressionExpected) : Reads ts i t opens .operator (.refuse [] cause)
  | close {op : Operator} {e : Expr} (hk : t.kind = .rightParen) :
    Reads ts i t opens (.close op e) (.take [] (resume e (i + 1) opens))
  | notClosed {op : Operator} {e : Expr} (hk : t.kind ≠ .rightParen) :
    Reads ts i t opens (.close op e) (.refuse [] (.missingCloseParen op))
  | finish {e : Expr} (hk : t.kind = .endOfInput) : Reads ts i t opens (.done e) (.finish ⟨e, i⟩)
  | trailing {e : Expr} (hk : t.kind ≠ .endOfInput) :
    Reads ts i t opens (.done e) (.refuse [] (.unexpectedToken t.text))

theorem reads_expressionStep (ht : ts[i]? = some t) (opens : List Open) :
    Reads ts i t opens .expression (expressionStep i t opens) := by
  unfold expressionStep
  cases hk : t.kind with
  | symbol => exact .leaf (.var ht hk)
  | stringLiteral => exact .leaf (.str ht hk)
  | intLiteral =>
    cases hread : Literal.readInt? t.text with
    | none => exact .noExpression (.noInteger ht hk (Literal.readInt?_eq_none_iff.1 hread)) nofun
    | some n => exact .leaf (.int ht hk (Decimal.readInt64?_eq_some_iff.1 hread))
  | booleanLiteral =>
    cases hread : Literal.readBool? t.text with
    | none =>
      obtain ⟨htrue, hfalse⟩ := Literal.readBool?_eq_none_iff.1 hread
      exact .noExpression (.noBoolean ht hk htrue hfalse) nofun
    | some b => exact .leaf (.bool ht hk (Literal.readBool?_eq_some_iff.1 hread))
  | leftParen => exact .paren hk
  | rightParen => exact .noExpression (.closing ht hk) nofun
  | endOfInput => exact .noExpression (.ended ⟨t, ht, hk⟩) nofun

theorem reads_operatorStep (ht : ts[i]? = some t) (opens : List Open) :
    Reads ts i t opens .operator (operatorStep i t opens) := by
  unfold operatorStep
  split
  · next hk =>
    cases hop : Operator.ofKeyword? t.text with
    | some op => exact .operator hk (Operator.keyword_of_ofKeyword? hop).symm
    | none =>
      refine .noOperator (fun k hi hparen => ?_) nofun
      subst hi
      refine .noKeyword hparen ht hk fun op htext => ?_
      rw [htext, Operator.ofKeyword?_keyword] at hop
      cases hop
  · next hk =>
    refine .noOperator (fun k hi hparen => ?_) nofun
    subst hi
    exact .noName hparen ht hk

theorem reads_step (ht : ts[i]? = some t) (due : Due) (opens : List Open) :
    Reads ts i t opens due (step i t due opens) := by
  cases due with
  | expression => exact reads_expressionStep ht opens
  | operator => exact reads_operatorStep ht opens
  | close op e =>
    rw [step]
    split
    · next hk => exact .close hk
    · next hk => exact .notClosed hk
  | done e =>
    rw [step]
    split
    · next hk => exact .finish hk
    · next hk => exact .trailing hk

/-! ### The states of a parse -/

/-- The parse comes to token `i` in this state, having told these events. -/
inductive Reaches (ts : List Token) : List ParseEvent → Due → List Open → Nat → Prop
  | start : Reaches ts [] .expression [] 0
  | take {visited events : List ParseEvent} {due : Due} {opens : List Open}
    {next : Due × List Open} {i : Nat} {t : Token} (h : Reaches ts visited due opens i)
    (ht : ts[i]? = some t) (hs : step i t due opens = .take events next) :
    Reaches ts (visited ++ events) next.1 next.2 (i + 1)

theorem Reaches.parseRun_eq (h : Reaches ts visited due opens i) :
    parseRun ts = (runFrom ts due opens i).after visited := by
  induction h with
  | start => rfl
  | take _ ht hs ih => rw [ih, runFrom_of_take ht hs, ParseRun.after_after]

inductive Halts (ts : List Token) (i : Nat) (due : Due) (opens : List Open) :
    List ParseEvent → ParseError.Cause → Prop
  | refuse {t : Token} {events : List ParseEvent} {cause : ParseError.Cause} (ht : ts[i]? = some t)
    (hs : step i t due opens = .refuse events cause) : Halts ts i due opens events cause
  | runOut (ht : ts[i]? = none) : Halts ts i due opens [] .unexpectedEndOfInput

inductive Ended (ts : List Token) : ParseRun → Prop
  | finish {visited : List ParseEvent} {due : Due} {opens : List Open} {i : Nat} {t : Token}
    {parsed : Parsed} (h : Reaches ts visited due opens i) (ht : ts[i]? = some t)
    (hs : step i t due opens = .finish parsed) : Ended ts ⟨visited, .ok parsed⟩
  | fail {visited events : List ParseEvent} {due : Due} {opens : List Open} {i : Nat}
    {cause : ParseError.Cause} (h : Reaches ts visited due opens i)
    (hs : Halts ts i due opens events cause) :
    Ended ts ((unwind ⟨cause, i⟩ opens).after (visited ++ events))

theorem Reaches.ended (h : Reaches ts visited due opens i) : Ended ts (parseRun ts) := by
  -- Each token that is taken leaves one token less.
  induction hm : ts.length - i generalizing visited due opens i with
  | zero =>
    have ht : ts[i]? = none := List.getElem?_eq_none (Nat.le_of_sub_eq_zero hm)
    rw [h.parseRun_eq, runFrom_of_none ht, ← List.append_nil visited]
    exact .fail h (.runOut ht)
  | succ m ih =>
    have hi : i < ts.length := Nat.lt_of_sub_eq_succ hm
    have ht : ts[i]? = some ts[i] := List.getElem?_eq_getElem hi
    cases hs : step i ts[i] due opens with
    | take events next => exact ih (h.take ht hs) (by omega)
    | finish parsed =>
      rw [h.parseRun_eq, runFrom_of_some ht, hs, ParseRun.after, List.append_nil]
      exact .finish h ht hs
    | refuse events cause =>
      rw [h.parseRun_eq, runFrom_of_some ht, hs]
      simp only [ParseRun.after_after]
      exact .fail h (.refuse ht hs)

theorem Halts.events_eq (h : Halts ts i due opens events cause) :
    events = [] ∨ ∃ t, events = [.expression i t] := by
  cases h with
  | runOut => exact .inl rfl
  | @refuse t _ _ ht hs =>
    have hreads := hs ▸ reads_step ht due opens
    cases hreads with
    | noExpression => exact .inr ⟨t, rfl⟩
    | noOperator | notClosed | trailing => exact .inl rfl

theorem Halts.cause_ne (h : Halts ts i due opens events cause) :
    cause ≠ .expressionExpected := by
  cases h with
  | runOut => nofun
  | refuse ht hs =>
    have hreads := hs ▸ reads_step ht due opens
    cases hreads with
    | noExpression _ hcause | noOperator _ hcause => exact hcause
    | notClosed | trailing => nofun

theorem ended_parseRun (ts : List Token) : Ended ts (parseRun ts) :=
  Reaches.start.ended

/-! ### What has been read -/

def opened (ts : List Token) (i : Nat) (op : Operator) : List ParseEvent :=
  (ts[i]?).toList.map (.expression i) ++ [.form op]

theorem opened_eq (ht : ts[i]? = some t) (op : Operator) :
    opened ts i op = [.expression i t] ++ [.form op] := by
  rw [opened, ht]
  rfl

theorem visits_unary (ts : List Token) (i : Nat) (op : UnaryOp) (e : Expr) :
    visits ts i (.unary op e) = opened ts i (.unary op) ++ visits ts (i + 2) e := rfl

theorem visits_binary (op : BinaryOp) {l : Expr} (h : Derives ts (i + 2) l j) (r : Expr) :
    visits ts i (.binary op l r) =
      opened ts i (.binary op) ++ visits ts (i + 2) l ++ visits ts j r := by
  rw [h.eq_width, List.append_assoc, visits, visits, visits, ← List.flatMap_append]
  rfl

/-- These forms are open around the expression that begins at index `i`, and these events have been
told of them and of the operands that they have. -/
inductive Within (ts : List Token) : List ParseEvent → List Open → Nat → Prop
  | whole : Within ts [] [] 0
  | operand {visited : List ParseEvent} {opens : List Open} {i : Nat} {op : UnaryOp}
    (h : Within ts visited opens i) (hopen : OpensForm ts i (.unary op)) :
    Within ts (visited ++ opened ts i (.unary op)) (.operand op (i + 2) :: opens) (i + 2)
  | left {visited : List ParseEvent} {opens : List Open} {i : Nat} {op : BinaryOp}
    (h : Within ts visited opens i) (hopen : OpensForm ts i (.binary op)) :
    Within ts (visited ++ opened ts i (.binary op)) (.left op (i + 2) :: opens) (i + 2)
  | right {visited : List ParseEvent} {opens : List Open} {i j : Nat} {op : BinaryOp} {l : Expr}
    (h : Within ts visited opens i) (hopen : OpensForm ts i (.binary op))
    (hl : Derives ts (i + 2) l j) :
    Within ts (visited ++ (opened ts i (.binary op) ++ visits ts (i + 2) l))
      (.right op l j :: opens) j

theorem Within.nested (h : Within ts visited opens i) : Nested ts (opens.map Open.start) i := by
  induction h with
  | whole => exact .whole
  | operand _ hopen ih | left _ hopen ih => exact ih.operand (.first hopen)
  | right _ hopen hl ih => exact ih.operand (.second hopen hl)

theorem Within.start_le (h : Within ts visited opens i) : ∀ o ∈ opens, o.start ≤ i :=
  fun _ ho => h.nested.le _ (List.mem_map_of_mem ho)

/-- What the tokens before index `i` are where this is due. -/
inductive Standing (ts : List Token) : List ParseEvent → Due → List Open → Nat → Prop
  | expression {visited : List ParseEvent} {opens : List Open} {i : Nat}
    (h : Within ts visited opens i) : Standing ts visited .expression opens i
  | operator {visited : List ParseEvent} {opens : List Open} {i : Nat} {t : Token}
    (h : Within ts visited opens i) (ht : ts[i]? = some t) (hk : t.kind = .leftParen) :
    Standing ts (visited ++ [.expression i t]) .operator opens (i + 1)
  | close {visited : List ParseEvent} {opens : List Open} {i j : Nat} {op : Operator} {e : Expr}
    (h : Within ts visited opens i) (hend : OperandsEnd ts i op j)
    (hform : HasKind ts j .rightParen → Derives ts i e (j + 1)) :
    Standing ts (visited ++ visits ts i e) (.close op e) opens j
  | done {e : Expr} {j : Nat} (h : Derives ts 0 e j) : Standing ts (visits ts 0 e) (.done e) [] j

theorem Within.resume (h : Within ts visited opens i) (he : Derives ts i e j) :
    Standing ts (visited ++ visits ts i e) (resume e j opens).1 (resume e j opens).2 j := by
  cases h with
  | whole => exact .done he
  | @operand visited opens i op h hopen =>
    rw [List.append_assoc, ← visits_unary]
    exact .close h (.one hopen he) (.unary hopen he)
  | left h hopen =>
    rw [List.append_assoc]
    exact .expression (.right h hopen he)
  | @right visited opens i _ op l h hopen hl =>
    rw [List.append_assoc, ← visits_binary op hl]
    exact .close h (.two hopen hl he) (.binary hopen hl he)

theorem Within.enter (h : Within ts visited opens i) (hopen : OpensForm ts i op) :
    Standing ts (visited ++ opened ts i op) (enter op (i + 2) opens).1 (enter op (i + 2) opens).2
      (i + 2) := by
  cases op with
  | unary op => exact .expression (.operand h hopen)
  | binary op => exact .expression (.left h hopen)

theorem visits_leaf (h : Derives ts i e (i + 1)) (ht : ts[i]? = some t) :
    visits ts i e = [.expression i t] := by
  cases h with
  | var | int | bool | str => simp [visits, Expr.preorder, visit_eq ht, Expr.operator?]
  | unary _ he _ =>
    have hlt := he.lt
    omega
  | binary _ hl hr _ =>
    have hllt := hl.lt
    have hrlt := hr.lt
    omega

theorem Standing.take (h : Standing ts visited due opens i) (ht : ts[i]? = some t)
    (hs : step i t due opens = .take events next) :
    Standing ts (visited ++ events) next.1 next.2 (i + 1) := by
  have hreads := hs ▸ reads_step ht due opens
  cases hreads with
  | leaf he =>
    cases h with
    | expression h =>
      rw [← visits_leaf he ht]
      exact h.resume he
  | paren hk =>
    cases h with
    | expression h => exact .operator h ht hk
  | operator hk htext =>
    cases h with
    | operator h ho hparen =>
      rw [List.append_assoc, ← opened_eq ho]
      exact h.enter ⟨⟨_, ho, hparen⟩, t, ht, hk, htext⟩
  | close hk =>
    cases h with
    | close h hend hform =>
      rw [List.append_nil]
      exact h.resume (hform ⟨t, ht, hk⟩)

theorem Standing.refused (h : Standing ts visited due opens i)
    (hs : Halts ts i due opens events cause) :
    opens = [] ∨ ∃ told k, Within ts told opens k ∧ Refused ts k ⟨cause, i⟩ := by
  cases h with
  | done => exact .inl rfl
  | expression h =>
    refine .inr ⟨_, i, h, ?_⟩
    cases hs with
    | runOut ht => exact .missing ht
    | refuse ht hs =>
      have hreads := hs ▸ reads_step ht .expression opens
      cases hreads with
      | noExpression hrefused => exact hrefused
  | @operator _ _ k o h ho hparen =>
    refine .inr ⟨_, k, h, ?_⟩
    cases hs with
    | runOut ht => exact .noOperator ⟨o, ho, hparen⟩ ht
    | refuse ht hs =>
      have hreads := hs ▸ reads_step ht .operator opens
      cases hreads with
      | noOperator hrefused => exact hrefused k rfl ⟨o, ho, hparen⟩
  | @close _ _ k _ op e h hend hform =>
    refine .inr ⟨_, k, h, ?_⟩
    cases hs with
    | runOut ht =>
      exact .neverClosed hend (Nat.le_antisymm hend.le_length (List.getElem?_eq_none_iff.1 ht))
    | refuse ht hs =>
      have hreads := hs ▸ reads_step ht (.close op e) opens
      cases hreads with
      | notClosed hk => exact .notClosed hend ht hk

theorem Reaches.standing (h : Reaches ts visited due opens i) :
    Standing ts visited due opens i := by
  induction h with
  | start => exact .expression .whole
  | take _ ht hs ih => exact ih.take ht hs

end CondLang.Parse
