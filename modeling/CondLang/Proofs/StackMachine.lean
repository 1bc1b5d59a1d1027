import CondLang.Condition
import CondLang.Proofs.Evaluation

/-! Evaluation on a stack. A tree is written out as instructions, the operands of an operator in
front of it. Executing them comes to the same as evaluating the tree, in the result and in what is
told about it. -/

namespace CondLang

namespace StackMachine

inductive Instruction where
  | push (v : Value)
  | load (name : String)
  | unary (op : UnaryOp)
  | binary (op : BinaryOp)
  deriving DecidableEq, Repr

inductive Action where
  | push (v : Value)
  | load (name : String)
  | unary (op : UnaryOp) (operand : Value)
  | binary (op : BinaryOp) (left right : Value)
  deriving DecidableEq, Repr

def Action.instruction : Action → Instruction
  | push v => .push v
  | load name => .load name
  | unary op _ => .unary op
  | binary op _ _ => .binary op

def Instruction.fetch? : Instruction → List Value → Option (Action × List Value)
  | push v, stack => some (.push v, stack)
  | load name, stack => some (.load name, stack)
  | unary op, v :: stack => some (.unary op v, stack)
  -- The right operand lies on top, for it was pushed last.
  | binary op, w :: v :: stack => some (.binary op v w, stack)
  | unary _, [] | binary _, [] | binary _, [_] => none

def Action.perform (ρ : Resolver) : Action → Except EvalError Value
  | push v => .ok v
  | load name =>
    match ρ name with
    | some v => .ok v
    | none => .error (.undefinedVariable name)
  | unary op v => op.apply v
  | binary op v w => op.apply v w

inductive Ending where
  | finished (stack : List Value)
  | failed (error : EvalError)
  | stuck
  deriving DecidableEq, Repr

structure Run where
  actions : List Action
  ending : Ending

def Run.after (run : Run) (actions : List Action) : Run :=
  ⟨actions ++ run.actions, run.ending⟩

def run (ρ : Resolver) (stack : List Value) : List Instruction → Run
  | [] => ⟨[], .finished stack⟩
  | i :: code =>
    match i.fetch? stack with
    | none => ⟨[], .stuck⟩
    | some (action, stack) =>
      match action.perform ρ with
      | .ok v => (run ρ (v :: stack) code).after [action]
      | .error error => ⟨[action], .failed error⟩

def Action.event? : Action → Option Event
  | unary op v => some (.unary op v)
  | binary op v w => some (.binary op v w)
  | push _ | load _ => none

def Ending.events : Ending → List Event
  | failed (.undefinedVariable name) => [.undefined name]
  | _ => []

def Run.events (run : Run) : List Event :=
  run.actions.filterMap Action.event? ++ run.ending.events

end StackMachine

open StackMachine

def Expr.code : Expr → List Instruction
  | var name => [.load name]
  | int n => [.push (.int n)]
  | str s => [.push (.str s)]
  | bool b => [.push (.bool b)]
  | unary op e => e.code ++ [.unary op]
  | binary op l r => l.code ++ (r.code ++ [.binary op])

def Evaluation.events (evaluation : Evaluation) : List Event :=
  evaluation.steps.filterMap Step.event?

namespace StackMachine

variable {ρ : Resolver} {stack rest : List Value} {i : Instruction} {action : Action}

theorem instruction_of_fetch? (h : i.fetch? stack = some (action, rest)) :
    action.instruction = i := by
  unfold Instruction.fetch? at h
  split at h <;> cases h <;> rfl

theorem run_cons_of_ok {v : Value} (hfetch : i.fetch? stack = some (action, rest))
    (h : action.perform ρ = .ok v) (code : List Instruction) :
    run ρ stack (i :: code) = (run ρ (v :: rest) code).after [action] := by
  simp only [run, hfetch, h]

theorem run_cons_of_error {error : EvalError} (hfetch : i.fetch? stack = some (action, rest))
    (h : action.perform ρ = .error error) (code : List Instruction) :
    run ρ stack (i :: code) = ⟨[action], .failed error⟩ := by
  simp only [run, hfetch, h]

theorem run_cons_of_none (hfetch : i.fetch? stack = none) (code : List Instruction) :
    run ρ stack (i :: code) = ⟨[], .stuck⟩ := by
  simp only [run, hfetch]

theorem run_cases (ρ : Resolver) (stack : List Value) (i : Instruction) :
    (∀ code, run ρ stack (i :: code) = ⟨[], .stuck⟩) ∨
      ∃ action, action.instruction = i ∧
        ((∃ error, action.perform ρ = .error error ∧
            ∀ code, run ρ stack (i :: code) = ⟨[action], .failed error⟩) ∨
          ∃ v rest, action.perform ρ = .ok v ∧
            ∀ code, run ρ stack (i :: code) = (run ρ (v :: rest) code).after [action]) := by
  cases hfetch : i.fetch? stack with
  | none => exact .inl (run_cons_of_none hfetch)
  | some taken =>
    obtain ⟨action, rest⟩ := taken
    refine .inr ⟨action, instruction_of_fetch? hfetch, ?_⟩
    cases hperform : action.perform ρ with
    | error error => exact .inl ⟨error, rfl, run_cons_of_error hfetch hperform⟩
    | ok v => exact .inr ⟨v, rest, rfl, run_cons_of_ok hfetch hperform⟩

theorem instructions_prefix_code (ρ : Resolver) (stack : List Value) (code : List Instruction) :
    (run ρ stack code).actions.map Action.instruction <+: code := by
  induction code generalizing stack with
  | nil => exact List.prefix_rfl
  | cons i code ih =>
    rcases run_cases ρ stack i with hrun | ⟨action, rfl, ⟨_, _, hrun⟩ | ⟨v, rest, _, hrun⟩⟩
    · rw [hrun]
      exact List.nil_prefix
    · rw [hrun]
      exact List.prefix_cons_inj _ |>.2 List.nil_prefix
    · rw [hrun]
      exact List.prefix_cons_inj _ |>.2 (ih _)

theorem run_append_of_finished {stack' : List Value} {code more : List Instruction}
    (h : (run ρ stack code).ending = .finished stack') :
    run ρ stack (code ++ more) = (run ρ stack' more).after (run ρ stack code).actions := by
  induction code generalizing stack with
  | nil =>
    cases h
    rfl
  | cons i code ih =>
    rw [List.cons_append]
    rcases run_cases ρ stack i with hrun | ⟨action, _, ⟨_, _, hrun⟩ | ⟨v, rest, _, hrun⟩⟩
    · rw [hrun] at h
      cases h
    · rw [hrun] at h
      cases h
    · rw [hrun] at h ⊢
      rw [hrun, ih h]
      rfl

theorem run_append_of_failed {error : EvalError} {code : List Instruction}
    (h : (run ρ stack code).ending = .failed error) (more : List Instruction) :
    run ρ stack (code ++ more) = run ρ stack code := by
  induction code generalizing stack with
  | nil => cases h
  | cons i code ih =>
    rw [List.cons_append]
    rcases run_cases ρ stack i with hrun | ⟨action, _, ⟨_, _, hrun⟩ | ⟨v, rest, _, hrun⟩⟩
    · rw [hrun, hrun]
    · rw [hrun, hrun]
    · rw [hrun] at h
      rw [hrun, hrun, ih h]

theorem filterMap_single {α β : Type} (f : α → Option β) (a : α) :
    [a].filterMap f = (f a).toList := by
  rw [List.filterMap_cons]
  cases f a <;> rfl

theorem events_after (run : Run) (actions : List Action) :
    (run.after actions).events = actions.filterMap Action.event? ++ run.events := by
  rw [Run.events, Run.after, List.filterMap_append, List.append_assoc]
  rfl

def Action.step? (ρ : Resolver) : Action → Option Step
  | push _ => none
  | load name => some (.lookup name (ρ name))
  | unary op v => some (.unary op v)
  | binary op v w => some (.binary op v w)

/-- A run takes the steps of an evaluation, and ends with its value on top of these or with its
error. -/
structure Simulates (ρ : Resolver) (base : List Value) (evaluation : Evaluation) (run : Run) :
    Prop where
  steps : run.actions.filterMap (Action.step? ρ) = evaluation.steps
  ending : run.ending = match evaluation.result with
    | .ok v => .finished (v :: base)
    | .error error => .failed error

theorem Simulates.single (action : Action)
    (hfetch : action.instruction.fetch? stack = some (action, rest)) :
    Simulates ρ rest ⟨(action.step? ρ).toList, action.perform ρ⟩
      (run ρ stack [action.instruction]) := by
  have hsteps := filterMap_single (Action.step? ρ) action
  cases hperform : action.perform ρ with
  | ok v =>
    rw [run_cons_of_ok hfetch hperform]
    exact ⟨hsteps, rfl⟩
  | error error =>
    rw [run_cons_of_error hfetch hperform]
    exact ⟨hsteps, rfl⟩

theorem Simulates.append {base base' : List Value} {code more : List Instruction}
    {evaluation : Evaluation} {next : Value → Evaluation}
    (h : Simulates ρ base evaluation (run ρ stack code))
    (hnext : ∀ v, Simulates ρ base' (next v) (run ρ (v :: base) more)) :
    Simulates ρ base' (evaluation.andThen next) (run ρ stack (code ++ more)) := by
  obtain ⟨hsteps, hending⟩ := h
  cases hresult : evaluation.result with
  | error error =>
    rw [hresult] at hending
    rw [Evaluation.andThen_of_error hresult, run_append_of_failed hending]
    exact ⟨hsteps, hending⟩
  | ok v =>
    rw [hresult] at hending
    rw [Evaluation.andThen_of_ok hresult, run_append_of_finished hending]
    refine ⟨?_, (hnext v).ending⟩
    rw [Run.after, List.filterMap_append, hsteps, (hnext v).steps]

theorem simulates_code (ρ : Resolver) (stack : List Value) (e : Expr) :
    Simulates ρ stack (e.evaluation ρ) (run ρ stack e.code) := by
  induction e generalizing stack with
  | var name => exact .single (.load name) rfl
  | int n => exact .single (.push (.int n)) rfl
  | str s => exact .single (.push (.str s)) rfl
  | bool b => exact .single (.push (.bool b)) rfl
  | unary op e ih =>
    rw [Expr.evaluation_unary, Expr.code]
    exact (ih stack).append fun v => .single (.unary op v) rfl
  | binary op l r ihl ihr =>
    rw [Expr.evaluation_binary, Expr.code]
    -- The left value waits on the stack while the right operand is evaluated.
    exact (ihl stack).append fun v =>
      (ihr (v :: stack)).append fun w => .single (.binary op v w) rfl

theorem event?_of_perform_ok {v : Value} (h : action.perform ρ = .ok v) :
    (action.step? ρ).bind Step.event? = action.event? := by
  cases action with
  | push | unary | binary => rfl
  | load name =>
    cases hname : ρ name with
    | some w =>
      rw [Action.step?, hname]
      rfl
    | none =>
      rw [Action.perform, hname] at h
      cases h

theorem event?_of_perform_error {error : EvalError} (h : action.perform ρ = .error error) :
    ((action.step? ρ).bind Step.event?).toList =
      action.event?.toList ++ (Ending.failed error).events := by
  cases action with
  | push => cases h
  | unary op v =>
    rw [UnaryOp.eq_of_apply_error h]
    rfl
  | binary op v w =>
    rw [BinaryOp.eq_of_apply_error h]
    rfl
  | load name =>
    cases hname : ρ name with
    | some w =>
      rw [Action.perform, hname] at h
      cases h
    | none =>
      rw [Action.perform, hname] at h
      cases h
      rw [Action.step?, hname]
      rfl

theorem events_run (ρ : Resolver) (stack : List Value) (code : List Instruction) :
    ((run ρ stack code).actions.filterMap (Action.step? ρ)).filterMap Step.event? =
      (run ρ stack code).events := by
  rw [List.filterMap_filterMap]
  induction code generalizing stack with
  | nil => rfl
  | cons i code ih =>
    rcases run_cases ρ stack i with hrun | ⟨action, _, ⟨_, herror, hrun⟩ | ⟨v, rest, hok, hrun⟩⟩
    · rw [hrun]
      rfl
    · rw [hrun, Run.events, filterMap_single, filterMap_single]
      exact event?_of_perform_error herror
    · rw [hrun, events_after, Run.after, List.filterMap_append, ih, filterMap_single,
        filterMap_single, event?_of_perform_ok hok]

end StackMachine

theorem stage_lexEvents {source : String} {event : Event}
    (h : event ∈ Condition.lexEvents source) : event.stage ≠ .evaluating := by
  rw [Condition.lexEvents, List.mem_append] at h
  rcases h with h | h
  · obtain ⟨t, _, rfl⟩ := List.mem_map.1 h
    nofun
  · split at h
    · cases h
    · simp only [List.mem_cons, List.not_mem_nil, or_false] at h
      rcases h with rfl | rfl <;> nofun

theorem stage_of_event? {step : Step} {event : Event} (h : step.event? = some event) :
    event.stage = .evaluating := by
  unfold Step.event? at h
  split at h <;> cases h <;> rfl

theorem stage_events {evaluation : Evaluation} {event : Event} (h : event ∈ evaluation.events) :
    event.stage = .evaluating := by
  obtain ⟨step, _, hstep⟩ := List.mem_filterMap.1 h
  exact stage_of_event? hstep

theorem filter_stage_events {source : String} {e : Expr}
    (h : Condition.compile source = .ok e) (ρ : Resolver) :
    (Condition.events source ρ).filter (fun event => event.stage = .evaluating) =
      .evaluating :: (e.evaluation ρ).events := by
  have hlex : (Condition.lexEvents source).filter (fun event => event.stage = .evaluating) = [] := by
    rw [List.filter_eq_nil_iff]
    intro event hevent
    rw [decide_eq_true_eq]
    exact stage_lexEvents hevent
  have hparse : ((Condition.parseRun source).events.map Event.parsing).filter
      (fun event => event.stage = .evaluating) = [] := by
    rw [List.filter_eq_nil_iff]
    intro event hevent
    obtain ⟨_, _, rfl⟩ := List.mem_map.1 hevent
    rw [decide_eq_true_eq]
    nofun
  have heval : (e.evaluation ρ).events.filter (fun event => event.stage = .evaluating) =
      (e.evaluation ρ).events := by
    rw [List.filter_eq_self]
    intro event hevent
    rw [decide_eq_true_eq]
    exact stage_events hevent
  rw [Condition.events, h, List.filter_append, List.filter_append, hlex, hparse]
  exact congrArg (Event.evaluating :: ·) heval

/-- Evaluating a tree comes to the same as running its code from an empty stack: the run ends with
the value alone on the stack or with the error, and the log tells what is executed. -/
theorem evaluation_runs_code (e : Expr) (ρ : Resolver) :
    ((run ρ [] e.code).ending = match e.eval ρ with
      | .ok v => .finished [v]
      | .error error => .failed error) ∧
      (run ρ [] e.code).actions.map Action.instruction <+: e.code ∧
      (e.evaluation ρ).events =
        (run ρ [] e.code).actions.filterMap Action.event? ++ (run ρ [] e.code).ending.events ∧
      ∀ source, Condition.compile source = .ok e →
        (Condition.events source ρ).filter (fun event => event.stage = .evaluating) =
          .evaluating :: (e.evaluation ρ).events := by
  have hcode := simulates_code ρ [] e
  have hevents : (e.evaluation ρ).events = (run ρ [] e.code).events := by
    rw [Evaluation.events, ← hcode.steps, events_run]
  exact ⟨hcode.ending, instructions_prefix_code ρ [] e.code, hevents,
    fun _ hsource => filter_stage_events hsource ρ⟩

end CondLang
