import CondLang.Proofs.ParserStates
import CondLang.Proofs.Tiling
import Mathlib.Control.Monad.Basic

/-! Where a parse ends. The end of the input is never taken, so no parse gets behind the first token
of that kind; and a text that was not read to its end has no such token. -/

namespace CondLang

namespace Parse

variable {ts : List Token} {i : Nat} {t : Token} {due : Due} {opens : List Open}
  {next : Due × List Open} {events visited : List ParseEvent}

/-- A parse that ends at this index if it succeeds, and fails there or before it otherwise. -/
def EndsBy (n : Nat) : Except ParseError Parsed → Prop
  | .ok parsed => parsed.next = n
  | .error error => error.index ≤ n

theorem endsBy_unwind {n : Nat} {error : ParseError} (herror : error.index ≤ n)
    (hopens : ∀ o ∈ opens, o.start ≤ n) : EndsBy n (unwind error opens).result := by
  induction opens generalizing error with
  | nil => exact herror
  | cons o opens ih =>
    obtain ⟨ho, hopens⟩ := List.forall_mem_cons.1 hopens
    exact ih ho hopens

def lengthBeforeEnd (ts : List Token) : Nat :=
  (ts.takeWhile fun t => t.kind ≠ .endOfInput).length

theorem lengthBeforeEnd_cons_of_end (h : t.kind = .endOfInput) (ts : List Token) :
    lengthBeforeEnd (t :: ts) = 0 := by
  simp [lengthBeforeEnd, h]

theorem lengthBeforeEnd_cons (h : t.kind ≠ .endOfInput) (ts : List Token) :
    lengthBeforeEnd (t :: ts) = lengthBeforeEnd ts + 1 := by
  simp [lengthBeforeEnd, h]

theorem lengthBeforeEnd_le (ht : ts[i]? = some t) (hkind : t.kind = .endOfInput) :
    lengthBeforeEnd ts ≤ i := by
  induction ts generalizing i with
  | nil => cases ht
  | cons u ts ih =>
    by_cases hu : u.kind = .endOfInput
    · rw [lengthBeforeEnd_cons_of_end hu]
      exact Nat.zero_le i
    · cases i with
      | zero =>
        cases ht
        exact absurd hkind hu
      | succ i =>
        rw [lengthBeforeEnd_cons hu]
        exact Nat.succ_le_succ (ih ht)

theorem lt_lengthBeforeEnd (hi : i ≤ lengthBeforeEnd ts) (ht : ts[i]? = some t)
    (hkind : t.kind ≠ .endOfInput) : i < lengthBeforeEnd ts := by
  induction ts generalizing i with
  | nil => cases ht
  | cons u ts ih =>
    by_cases hu : u.kind = .endOfInput
    · rw [lengthBeforeEnd_cons_of_end hu, Nat.le_zero] at hi
      subst hi
      cases ht
      exact absurd hu hkind
    · rw [lengthBeforeEnd_cons hu] at hi ⊢
      cases i with
      | zero => exact Nat.succ_pos _
      | succ i => exact Nat.succ_lt_succ (ih (Nat.le_of_succ_le_succ hi) ht)

theorem kind_ne_of_take (ht : ts[i]? = some t) (hs : step i t due opens = .take events next) :
    t.kind ≠ .endOfInput := by
  have hreads := hs ▸ reads_step ht due opens
  cases hreads with
  | @leaf e he =>
    obtain ⟨u, hu, hkind⟩ := he.hasKind_first
    cases ht.symm.trans hu
    rw [hkind]
    cases e <;> nofun
  | paren hk | operator hk | close hk =>
    rw [hk]
    nofun

theorem Reaches.le_lengthBeforeEnd (h : Reaches ts visited due opens i) :
    i ≤ lengthBeforeEnd ts := by
  induction h with
  | start => exact Nat.zero_le _
  | take _ ht hs ih => exact lt_lengthBeforeEnd ih ht (kind_ne_of_take ht hs)

theorem Standing.start_le (h : Standing ts visited due opens i) : ∀ o ∈ opens, o.start ≤ i := by
  cases h with
  | expression h => exact h.start_le
  | operator h => exact fun o ho => Nat.le_succ_of_le (h.start_le o ho)
  | close h hend =>
    have hlt := hend.lt
    exact fun o ho => Nat.le_trans (h.start_le o ho) (by omega)
  | done => nofun

theorem Ended.endsBy {run : ParseRun} (h : Ended ts run) :
    EndsBy (lengthBeforeEnd ts) run.result := by
  cases h with
  | finish h ht hs =>
    have hreads := hs ▸ reads_step ht _ _
    cases hreads with
    | finish hk => exact Nat.le_antisymm h.le_lengthBeforeEnd (lengthBeforeEnd_le ht hk)
  | fail h =>
    have hi := h.le_lengthBeforeEnd
    exact endsBy_unwind hi fun o ho => Nat.le_trans (h.standing.start_le o ho) hi

end Parse

open Parse

theorem endsBy_parse (ts : List Token) : EndsBy (lengthBeforeEnd ts) (parse ts) :=
  (ended_parseRun ts).endsBy

theorem lengthBeforeEnd_le_length (ts : List Token) : lengthBeforeEnd ts ≤ ts.length :=
  (List.takeWhile_prefix _).length_le

theorem lengthBeforeEnd_lex {s : String} (h : (lex s).isTerminated = true) :
    lengthBeforeEnd (lex s).toList + 1 = (lex s).length := by
  rw [TokenList.isTerminated, Option.any_eq_true] at h
  obtain ⟨t, ht, hkind⟩ := h
  obtain ⟨before, hsplit⟩ := List.getLast?_eq_some_iff.1 ht
  have hbefore : ∀ u ∈ before, decide (u.kind ≠ .endOfInput) = true := by
    intro u hu
    rw [decide_eq_true_eq]
    apply kind_ne_of_mem_dropLast s
    rwa [hsplit, List.dropLast_concat]
  rw [TokenList.length, hsplit, lengthBeforeEnd, List.takeWhile_append_of_pos hbefore]
  simpa using of_decide_eq_true hkind

namespace Condition

variable {s : String} {error : ParseError}

theorem compile_eq_error_iff : compile s = .error error ↔ parse (lex s).toList = .error error := by
  have hcompile : compile s = (parse (lex s).toList).map Parsed.expr := rfl
  rw [hcompile]
  cases parse (lex s).toList <;> simp [Except.map]

theorem exists_compile_error (h : (lex s).isTerminated = false) :
    ∃ error, compile s = .error error := by
  cases hcompile : compile s with
  | error error => exact ⟨error, rfl⟩
  | ok e =>
    obtain ⟨ws, hscan, -⟩ := compile_eq_ok_iff.1 hcompile
    rw [hscan.isTerminated] at h
    cases h

theorem evaluate_of_compile_error (h : compile s = .error error) (ρ : Resolver) :
    evaluate s ρ = .error (.parse error) := by
  rw [evaluate, h]

theorem isVisible_of_compile_error (h : compile s = .error error) (ρ : Resolver) :
    isVisible s ρ = .error (.parse error) := by
  rw [isVisible, evaluate_of_compile_error h]

theorem steps_of_compile_error (h : compile s = .error error) (ρ : Resolver) : steps s ρ = [] := by
  rw [steps, h]

/-- A text that is not read to its end is refused, and nothing of it is evaluated. Failures point to
a token, or behind the last one if the input does not end there, and a condition takes up all tokens
but the end of the input. -/
theorem malformed_never_evaluated (s : String) :
    ((lex s).isTerminated = false → ∃ error, compile s = .error error ∧
      error.index ≤ (lex s).length ∧
      ∀ ρ, evaluate s ρ = .error (.parse error) ∧ isVisible s ρ = .error (.parse error) ∧
        steps s ρ = [] ∧ lookups s ρ = []) ∧
      ((lex s).isTerminated = true →
        (∀ error, parse (lex s).toList = .error error → error.index < (lex s).length) ∧
        ∀ parsed, parse (lex s).toList = .ok parsed → parsed.next + 1 = (lex s).length) := by
  have hends := endsBy_parse (lex s).toList
  constructor
  · intro h
    obtain ⟨error, herror⟩ := exists_compile_error h
    rw [compile_eq_error_iff.1 herror] at hends
    refine ⟨error, herror, Nat.le_trans hends (lengthBeforeEnd_le_length _), fun ρ => ?_⟩
    have hsteps := steps_of_compile_error herror ρ
    refine ⟨evaluate_of_compile_error herror ρ, isVisible_of_compile_error herror ρ, hsteps, ?_⟩
    rw [lookups, hsteps, List.filterMap_nil]
  · intro h
    rw [← lengthBeforeEnd_lex h]
    constructor
    · intro error herror
      rw [herror] at hends
      exact Nat.lt_succ_of_le hends
    · intro parsed hparsed
      rw [hparsed] at hends
      exact congrArg (· + 1) hends

theorem malformed_never_evaluated_complete :
    (lex "(gt age 18) #").isTerminated = false ∧
      parse ((lex "(gt age 18) #").toList ++ [⟨.endOfInput, 11, 1, ""⟩]) =
        .ok ⟨.binary .gt (.var "age") (.int 18), 5⟩ ∧
      compile "(gt age 18) #" = .error ⟨.unexpectedEndOfInput, 5⟩ ∧
      ∀ ρ, evaluate "(gt age 18) #" ρ = .error (.parse ⟨.unexpectedEndOfInput, 5⟩) ∧
        lookups "(gt age 18) #" ρ = [] := by
  have hstop : (lex "(gt age 18) #").isTerminated = false := by decide +kernel
  have hcompile : compile "(gt age 18) #" = .error ⟨.unexpectedEndOfInput, 5⟩ := by decide +kernel
  obtain ⟨error, herror, -, hnone⟩ := (malformed_never_evaluated "(gt age 18) #").1 hstop
  cases hcompile.symm.trans herror
  exact ⟨hstop, by decide +kernel, hcompile, fun ρ => ⟨(hnone ρ).1, (hnone ρ).2.2.2⟩⟩

end Condition

end CondLang
