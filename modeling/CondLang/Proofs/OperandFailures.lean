import CondLang.Proofs.ParserStates
import CondLang.Proofs.Rejection

/-! How a failure leaves a parse: the operands that are open where it stops are the only ones that
could not be read, and each is told to have failed, from the innermost to the outermost. -/

namespace CondLang

structure OperandFailure where
  start : Nat
  error : ParseError

def OperandFailure.event (f : OperandFailure) : ParseEvent :=
  .operandFailed f.start f.error

/-- The operands that fail when the parse of these tokens ends with a missing expression at this
index. -/
structure Unwinding (ts : List Token) (innermost : OperandFailure) (outer : List OperandFailure)
    (index : Nat) : Prop where
  descending : ((innermost :: outer).map OperandFailure.start).Pairwise (· > ·)
  outermost : ((innermost :: outer).map OperandFailure.start).getLast? = some index
  root : Refused ts innermost.start innermost.error
  root_cause : innermost.error.cause ≠ .expressionExpected
  replaced : ∀ f ∈ outer, f.error.message = "Expression expected."
  nested : Nested ts ((innermost :: outer).map OperandFailure.start) innermost.start
  unread : ∀ k, k ∈ (innermost :: outer).map OperandFailure.start ↔
    (∃ around, Nested ts (k :: around) k) ∧ ¬ExprAt ts k
  stack : ∃ told events due opens,
    Parse.Reaches ts told due opens innermost.error.index ∧
    Parse.Halts ts innermost.error.index due opens events innermost.error.cause ∧
    opens.map Open.start = (innermost :: outer).map OperandFailure.start

namespace Parse

variable {ts : List Token} {i : Nat} {t : Token} {due : Due} {opens : List Open}
  {next : Due × List Open} {events visited : List ParseEvent} {cause : ParseError.Cause}

theorem event_notMem_of_take (ht : ts[i]? = some t) (hs : step i t due opens = .take events next)
    (f : OperandFailure) : f.event ∉ events := by
  have hreads := hs ▸ reads_step ht due opens
  cases hreads <;> simp [OperandFailure.event]

theorem Reaches.event_notMem (h : Reaches ts visited due opens i) (f : OperandFailure) :
    f.event ∉ visited := by
  induction h with
  | start => nofun
  | take _ ht hs ih => exact fun hf => (List.mem_append.1 hf).elim ih (event_notMem_of_take ht hs f)

theorem Halts.event_notMem (h : Halts ts i due opens events cause) (f : OperandFailure) :
    f.event ∉ events := by
  obtain rfl | ⟨t, rfl⟩ := h.events_eq <;> simp [OperandFailure.event]

theorem unwind_cons (error : ParseError) (o : Open) (opens : List Open) :
    ∃ outer index, (unwind error (o :: opens)).events =
        (⟨o.start, error⟩ :: outer).map OperandFailure.event ∧
      (unwind error (o :: opens)).result = .error ⟨.expressionExpected, index⟩ ∧
      outer.map OperandFailure.start = opens.map Open.start ∧
      (o.start :: opens.map Open.start).getLast? = some index ∧
      ∀ f ∈ outer, f.error.message = "Expression expected." := by
  induction opens generalizing error o with
  | nil => exact ⟨[], o.start, rfl, rfl, rfl, rfl, nofun⟩
  | cons o' opens ih =>
    obtain ⟨outer, index, hevents, hresult, hstarts, hlast, hreplaced⟩ :=
      ih ⟨.expressionExpected, o.start⟩ o'
    refine ⟨⟨o'.start, ⟨.expressionExpected, o.start⟩⟩ :: outer, index, ?_, hresult, ?_, ?_, ?_⟩
    · rw [unwind, hevents]
      rfl
    · rw [List.map_cons, hstarts, List.map_cons]
    · rw [List.map_cons, List.getLast?_cons_cons, hlast]
    · exact List.forall_mem_cons.2 ⟨rfl, hreplaced⟩

theorem Reaches.unwinding {o : Open} (h : Reaches ts visited due (o :: opens) i)
    (hs : Halts ts i due (o :: opens) events cause) :
    ∃ outer index, (unwind ⟨cause, i⟩ (o :: opens)).events =
        (⟨o.start, ⟨cause, i⟩⟩ :: outer).map OperandFailure.event ∧
      (unwind ⟨cause, i⟩ (o :: opens)).result = .error ⟨.expressionExpected, index⟩ ∧
      Unwinding ts ⟨o.start, ⟨cause, i⟩⟩ outer index := by
  obtain ⟨outer, index, hevents, hresult, hstarts, hlast, hreplaced⟩ :=
    unwind_cons ⟨cause, i⟩ o opens
  have hall : ((⟨o.start, ⟨cause, i⟩⟩ : OperandFailure) :: outer).map OperandFailure.start =
      (o :: opens).map Open.start := by
    rw [List.map_cons, hstarts, List.map_cons]
  obtain hnil | ⟨told, k, hwithin, hrefused⟩ := h.standing.refused hs
  · cases hnil
  have hnested := hwithin.nested
  have hk : k = o.start := by
    cases hnested
    rfl
  subst hk
  refine ⟨outer, index, hevents, hresult, ?_⟩
  exact {
    descending := hall ▸ hnested.descending
    outermost := hall ▸ hlast
    root := hrefused
    root_cause := hs.cause_ne
    replaced := hreplaced
    nested := hall ▸ hnested
    unread := hall ▸ hnested.mem_iff hrefused hs.cause_ne
    stack := ⟨visited, events, due, o :: opens, h, hs, hall.symm⟩
  }

theorem Ended.unwinding {run : ParseRun} (h : Ended ts run) :
    ((∀ f : OperandFailure, f.event ∉ run.events) ∧
        ∀ index, run.result ≠ .error ⟨.expressionExpected, index⟩) ∨
      ∃ visited innermost outer index,
        run.events = visited ++ (innermost :: outer).map OperandFailure.event ∧
        run.result = .error ⟨.expressionExpected, index⟩ ∧
        (∀ f : OperandFailure, f.event ∉ visited) ∧ Unwinding ts innermost outer index := by
  cases h with
  | finish h => exact .inl ⟨h.event_notMem, nofun⟩
  | @fail visited events due opens i cause h hs =>
    have hquiet : ∀ f : OperandFailure, f.event ∉ visited ++ events := fun f hf =>
      (List.mem_append.1 hf).elim (h.event_notMem f) (hs.event_notMem f)
    cases opens with
    | nil =>
      refine .inl ⟨?_, fun index hresult => hs.cause_ne ?_⟩
      · simpa [unwind, ParseRun.after] using hquiet
      · exact congrArg ParseError.cause (Except.error.inj hresult)
    | cons o opens =>
      obtain ⟨outer, index, hevents, hresult, hunwinding⟩ := h.unwinding hs
      exact .inr ⟨_, _, outer, index, congrArg (visited ++ events ++ ·) hevents, hresult, hquiet,
        hunwinding⟩

end Parse

namespace Condition

/-- Operands fail exactly in a parse that ends with a missing expression, and then they are those
that are open where it stops. -/
theorem operand_failures_unwind (s : String) :
    ((∃ f : OperandFailure, f.event ∈ (parseRun s).events) ↔
        ∃ index, compile s = .error ⟨.expressionExpected, index⟩) ∧
      ∀ index, compile s = .error ⟨.expressionExpected, index⟩ →
        ∃ visited innermost outer,
          (parseRun s).events = visited ++ (innermost :: outer).map OperandFailure.event ∧
          (∀ f : OperandFailure, f.event ∉ visited) ∧
          Unwinding (lex s).toList innermost outer index := by
  have hended := Parse.ended_parseRun (lex s).toList
  obtain ⟨hquiet, hresult⟩ | ⟨visited, innermost, outer, index, hevents, hresult, hvisited, h⟩ :=
    hended.unwinding
  · have hcompile : ∀ index, compile s ≠ .error ⟨.expressionExpected, index⟩ :=
      fun index herror => hresult index (compile_eq_error_iff.1 herror)
    refine ⟨⟨fun ⟨f, hf⟩ => absurd hf (hquiet f), fun ⟨index, herror⟩ => ?_⟩, ?_⟩
    · exact absurd herror (hcompile index)
    · exact fun index herror => absurd herror (hcompile index)
  · refine ⟨⟨fun _ => ⟨index, compile_eq_error_iff.2 hresult⟩, fun _ => ⟨innermost, ?_⟩⟩, ?_⟩
    · rw [parseRun, hevents]
      exact List.mem_append_right _ List.mem_cons_self
    · intro index' herror
      cases hresult.symm.trans (compile_eq_error_iff.1 herror)
      exact ⟨visited, innermost, outer, hevents, hvisited, h⟩

example : (parseRun "(not (and a (b)))").events.drop 6 =
    [.operandFailed 5 ⟨.unknownOperation "b", 6⟩, .operandFailed 2 ⟨.expressionExpected, 5⟩] := by
  decide +kernel

end Condition

end CondLang
