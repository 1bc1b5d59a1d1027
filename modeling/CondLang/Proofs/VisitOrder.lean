import CondLang.Proofs.ParserStates
import CondLang.Proofs.Scanning
import Mathlib.Data.List.Basic

/-! The order in which a parse visits the tokens: from left to right, whether it succeeds or not.
What has been told of a parse that succeeds is the walk over the finished tree in pre-order. -/

namespace CondLang

variable {ts : List Token} {i j k : Nat} {t : Token} {e : Expr} {op : Operator} {due : Due}
  {opens : List Open} {next : Due × List Open} {event : ParseEvent}
  {events visited : List ParseEvent}

def FormsFollow (ts : List Token) (events : List ParseEvent) : Prop :=
  ∀ n op, events[n]? = some (.form op) → ∃ m i t,
    n = m + 1 ∧ events[m]? = some (.expression i t) ∧ ts[i]? = some t ∧ OpensForm ts i op

/-- These events have been told when the parse comes to token `i`. -/
structure InOrder (ts : List Token) (events : List ParseEvent) (i : Nat) : Prop where
  increasing : (events.filterMap ParseEvent.position?).Pairwise (· < ·)
  before : ∀ k ∈ events.filterMap ParseEvent.position?, k < i
  follow : FormsFollow ts events

/-! ### One more event -/

theorem FormsFollow.concat (h : FormsFollow ts events)
    (hform : ∀ op, event = .form op → ∃ visited i t,
      events = visited ++ [.expression i t] ∧ ts[i]? = some t ∧ OpensForm ts i op) :
    FormsFollow ts (events ++ [event]) := by
  intro n op hn
  rcases Nat.lt_trichotomy n events.length with hlt | heq | hgt
  · rw [List.getElem?_append_left hlt] at hn
    obtain ⟨m, i, t, hm, htold, ht, hopen⟩ := h n op hn
    refine ⟨m, i, t, hm, ?_, ht, hopen⟩
    rw [List.getElem?_append_left (by omega), htold]
  · rw [heq, List.getElem?_concat_length] at hn
    obtain ⟨visited, i, t, rfl, ht, hopen⟩ := hform op (Option.some.inj hn)
    exact ⟨visited.length, i, t, by simpa using heq, by simp, ht, hopen⟩
  · have hnone : (events ++ [event])[n]? = none := List.getElem?_eq_none (by
      rw [List.length_append, List.length_singleton]
      exact hgt)
    rw [hnone] at hn
    cases hn

theorem InOrder.nil (ts : List Token) : InOrder ts [] 0 :=
  ⟨.nil, nofun, nofun⟩

theorem InOrder.mono (h : InOrder ts events i) (hij : i ≤ j) : InOrder ts events j :=
  ⟨h.increasing, fun k hk => Nat.lt_of_lt_of_le (h.before k hk) hij, h.follow⟩

theorem InOrder.expression (h : InOrder ts events i) (t : Token) :
    InOrder ts (events ++ [.expression i t]) (i + 1) := by
  have hpositions : (events ++ [ParseEvent.expression i t]).filterMap ParseEvent.position? =
      events.filterMap ParseEvent.position? ++ [i] := List.filterMap_append
  refine ⟨?_, ?_, h.follow.concat nofun⟩
  · rw [hpositions, List.pairwise_append]
    exact ⟨h.increasing, List.pairwise_singleton .., by simpa using h.before⟩
  · rw [hpositions, List.forall_mem_append, List.forall_mem_singleton]
    exact ⟨(h.mono (Nat.le_succ i)).before, Nat.lt_succ_self i⟩

theorem InOrder.silent (h : InOrder ts events i) (hevent : event.position? = none)
    (hfollow : FormsFollow ts (events ++ [event])) : InOrder ts (events ++ [event]) i := by
  have hpositions : (events ++ [event]).filterMap ParseEvent.position? =
      events.filterMap ParseEvent.position? := by
    rw [List.filterMap_append, List.filterMap_cons_none hevent, List.filterMap_nil, List.append_nil]
  refine ⟨?_, ?_, hfollow⟩
  · rw [hpositions]
    exact h.increasing
  · rw [hpositions]
    exact h.before

theorem InOrder.form (h : InOrder ts (visited ++ [.expression k t]) i) (ht : ts[k]? = some t)
    (hopen : OpensForm ts k op) :
    InOrder ts (visited ++ [.expression k t] ++ [.form op]) i := by
  refine h.silent rfl (h.follow.concat fun op' hop => ?_)
  cases hop
  exact ⟨visited, k, t, rfl, ht, hopen⟩

theorem InOrder.unwind (h : InOrder ts events i) (error : ParseError) (opens : List Open) :
    InOrder ts (events ++ (Parse.unwind error opens).events) i := by
  induction opens generalizing events error with
  | nil => rwa [Parse.unwind, List.append_nil]
  | cons o opens ih =>
    rw [Parse.unwind, List.append_cons]
    have hfollow : FormsFollow ts (events ++ [.operandFailed o.start error]) := by
      refine h.follow.concat fun op hop => ?_
      cases hop
    exact ih (h.silent rfl hfollow) _

/-! ### One token, and a whole parse -/

namespace Parse

theorem Reaches.inOrder_take (h : Reaches ts visited due opens i) (hvisited : InOrder ts visited i)
    (ht : ts[i]? = some t) (hs : step i t due opens = .take events next) :
    InOrder ts (visited ++ events) (i + 1) := by
  have hpassed := hvisited.mono (Nat.le_succ i)
  have hreads := hs ▸ reads_step ht due opens
  cases hreads with
  | leaf | paren => exact hvisited.expression t
  | operator hk htext =>
    cases h.standing with
    | operator _ ho hparen => exact hpassed.form ho ⟨⟨_, ho, hparen⟩, t, ht, hk, htext⟩
  | close =>
    rw [List.append_nil]
    exact hpassed

theorem Reaches.inOrder (h : Reaches ts visited due opens i) : InOrder ts visited i := by
  induction h with
  | start => exact .nil ts
  | take h ht hs ih => exact h.inOrder_take ih ht hs

theorem Ended.inOrder {run : ParseRun} (h : Ended ts run) : ∃ j, InOrder ts run.events j := by
  cases h with
  | finish h => exact ⟨_, h.inOrder⟩
  | fail h hs =>
    obtain rfl | ⟨t, rfl⟩ := hs.events_eq
    · rw [List.append_nil]
      exact ⟨_, h.inOrder.unwind _ _⟩
    · exact ⟨_, (h.inOrder.expression t).unwind _ _⟩

theorem Ended.visits {run : ParseRun} {parsed : Parsed} (h : Ended ts run)
    (hok : run.result = .ok parsed) :
    Derives ts 0 parsed.expr parsed.next ∧ run.events = CondLang.visits ts 0 parsed.expr := by
  cases h with
  | finish h ht hs =>
    cases hok
    have hreads := hs ▸ reads_step ht _ _
    cases hreads with
    | finish =>
      cases h.standing with
      | done he => exact ⟨he, rfl⟩
  | fail =>
    obtain ⟨outer, houter⟩ := unwind_result _ _
    cases houter.symm.trans hok

end Parse

theorem Derives.positions_visits (h : Derives ts i e j) :
    (visits ts i e).filterMap ParseEvent.position? = (e.preorder i).map Prod.fst := by
  rw [visits, List.filterMap_flatMap, List.map_eq_flatMap]
  refine List.flatMap_congr fun node hnode => ?_
  obtain ⟨t, ht, -⟩ := (h.of_mem_preorder node hnode).hasKind_first
  rw [visit_eq ht]
  cases node.2.operator? <;> rfl

namespace Condition

/-- A parse visits the tokens from left to right, and the nodes of its tree in pre-order. -/
theorem visits_in_preorder (s : String) :
    ((parseRun s).events.filterMap ParseEvent.position?).Pairwise (· < ·) ∧
      FormsFollow (lex s).toList (parseRun s).events ∧
      ∀ e, compile s = .ok e →
        (parseRun s).events = visits (lex s).toList 0 e ∧
        (∀ node ∈ e.preorder 0, ∃ t, (lex s).toList[node.1]? = some t ∧
          Derives (lex s).toList node.1 node.2 (node.1 + node.2.width)) ∧
        ((parseRun s).events.filterMap ParseEvent.position?).length = e.nodeCount := by
  have hended := Parse.ended_parseRun (lex s).toList
  obtain ⟨_, horder⟩ := hended.inOrder
  refine ⟨horder.increasing, horder.follow, fun e hcompile => ?_⟩
  obtain ⟨n, hok⟩ := compile_eq_ok_iff_parse.1 hcompile
  obtain ⟨he, hevents⟩ := hended.visits hok
  refine ⟨hevents, fun node hnode => ?_, ?_⟩
  · have hself := he.of_mem_preorder node hnode
    obtain ⟨t, ht, -⟩ := hself.hasKind_first
    exact ⟨t, ht, hself⟩
  · rw [parseRun, hevents, he.positions_visits, List.length_map, Expr.length_preorder,
      Expr.nodeCount_eq_size]

end Condition

end CondLang
