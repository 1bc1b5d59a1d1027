import CondLang.Proofs.Preorder
import CondLang.Proofs.Scanning
import Mathlib.Logic.Function.Iterate
import Mathlib.Order.MinMax

/-! Counting the nodes of a tree over a list of pending trees: the nodes counted so far and those of
the pending trees are always all the nodes. A leaf is one token and a form adds three to those of
its operands, so nodes and leaves settle how many tokens an expression takes. -/

namespace CondLang

namespace Expr

def operands : Expr → List Expr
  | unary _ e => [e]
  | binary _ l r => [l, r]
  | _ => []

def leafCount : Expr → Nat
  | unary _ e => e.leafCount
  | binary _ l r => l.leafCount + r.leafCount
  | _ => 1

/-! ### The passes of a count -/

structure Count where
  counted : Nat
  pending : List Expr

def Count.outcome (c : Count) : Nat :=
  countPending c.counted c.pending

/-- One pass: the pending tree on top is taken off and counted, and its operands are put onto the
others one by one, so that the last of them is on top. Nothing changes when no tree is pending. -/
def Count.pass : Count → Count
  | ⟨counted, []⟩ => ⟨counted, []⟩
  | ⟨counted, e :: pending⟩ => ⟨counted + 1, e.operands.reverse ++ pending⟩

def countAfter (e : Expr) (k : Nat) : Count :=
  Count.pass^[k] ⟨0, [e]⟩

theorem countAfter_succ (e : Expr) (k : Nat) : e.countAfter (k + 1) = (e.countAfter k).pass :=
  Function.iterate_succ_apply' Count.pass k _

theorem Count.outcome_pass (c : Count) : c.pass.outcome = c.outcome := by
  obtain ⟨counted, _ | ⟨e, pending⟩⟩ := c
  · rfl
  · show countPending (counted + 1) (e.operands.reverse ++ pending) =
      countPending counted (e :: pending)
    cases e <;> rw [countPending] <;> rfl

theorem outcome_countAfter (e : Expr) (k : Nat) : (e.countAfter k).outcome = e.nodeCount := by
  induction k with
  | zero => rfl
  | succ k ih => rw [countAfter_succ, Count.outcome_pass, ih]

theorem size_pos (e : Expr) : 0 < e.size := by
  cases e <;> exact Nat.succ_pos _

theorem Count.pending_eq_nil_iff (c : Count) : c.pending = [] ↔ c.counted = c.outcome := by
  have houtcome : c.outcome = c.counted + c.pending.foldr (fun e n => e.size + n) 0 :=
    countPending_eq c.counted c.pending
  rw [houtcome]
  cases c.pending with
  | nil => exact iff_of_true rfl rfl
  | cons e pending =>
    have hpos := e.size_pos
    rw [List.foldr_cons]
    exact iff_of_false nofun (by omega)

theorem Count.counted_pass {c : Count} (h : c.counted ≠ c.outcome) :
    c.pass.counted = c.counted + 1 := by
  have hpending : c.pending ≠ [] := mt c.pending_eq_nil_iff.1 h
  obtain ⟨counted, _ | ⟨e, pending⟩⟩ := c
  · exact absurd rfl hpending
  · rfl

theorem Count.pass_eq_self {c : Count} (h : c.counted = c.outcome) : c.pass = c := by
  have hpending : c.pending = [] := c.pending_eq_nil_iff.2 h
  obtain ⟨counted, pending⟩ := c
  cases hpending
  rfl

theorem counted_countAfter (e : Expr) (k : Nat) :
    (e.countAfter k).counted = min k e.nodeCount := by
  induction k with
  | zero => exact (Nat.zero_min _).symm
  | succ k ih =>
    have houtcome := e.outcome_countAfter k
    rw [countAfter_succ]
    -- Nothing is pending once the count is what it comes to, and then a pass stands still.
    by_cases hall : (e.countAfter k).counted = (e.countAfter k).outcome
    · rw [Count.pass_eq_self hall]
      omega
    · rw [Count.counted_pass hall]
      omega

theorem pending_countAfter_eq_nil_iff (e : Expr) (k : Nat) :
    (e.countAfter k).pending = [] ↔ e.nodeCount ≤ k := by
  rw [Count.pending_eq_nil_iff, counted_countAfter, outcome_countAfter]
  exact min_eq_right_iff

/-! ### The tokens of a tree -/

theorem width_add_leafCount (e : Expr) : e.width + 2 * e.leafCount = 3 * e.size := by
  induction e with
  | var | int | str | bool => rfl
  | unary op e ih =>
    rw [width, leafCount, size]
    omega
  | binary op l r ihl ihr =>
    rw [width, leafCount, size]
    omega

end Expr

variable {ts : List Token} {e : Expr} {next : Nat} {s : String}

theorem next_eq_of_parse (h : parse ts = .ok ⟨e, next⟩) :
    (next : Int) = 3 * e.nodeCount - 2 * e.leafCount := by
  obtain ⟨hderives, -⟩ := parse_eq_ok.1 h
  have hnext : next = 0 + e.width := hderives.eq_width
  have htokens := e.width_add_leafCount
  rw [Expr.nodeCount_eq_size]
  omega

theorem exists_next_of_compile (h : Condition.compile s = .ok e) :
    ∃ next, parse (lex s).toList = .ok ⟨e, next⟩ ∧ (lex s).length = next + 1 := by
  obtain ⟨ws, hscan, hforms⟩ := compile_eq_ok_iff.1 h
  exact ⟨ws.length, parse_lex hscan hforms, hscan.length_lex⟩

/-- The count of a tree goes on for one pass for each node, and then all are counted. Nodes and leaves
settle where a parse that succeeds ends, and of a condition only the end of the input is left there. -/
theorem nodes_and_leaves_settle_tokens :
    (∀ e : Expr, e.nodeCount = e.size ∧ ∀ k,
      (e.countAfter k).counted = min k e.size ∧
      ((e.countAfter k).pending = [] ↔ e.size ≤ k) ∧
      (e.countAfter k).outcome = e.nodeCount) ∧
      (∀ ts e next, parse ts = .ok ⟨e, next⟩ →
        (next : Int) = 3 * e.nodeCount - 2 * e.leafCount) ∧
      ∀ s e, Condition.compile s = .ok e →
        ∃ next, parse (lex s).toList = .ok ⟨e, next⟩ ∧ (lex s).length = next + 1 := by
  refine ⟨fun e => ⟨e.nodeCount_eq_size, fun k => ?_⟩, fun ts e next h => next_eq_of_parse h,
    fun s e h => exists_next_of_compile h⟩
  rw [← e.nodeCount_eq_size]
  exact ⟨e.counted_countAfter k, e.pending_countAfter_eq_nil_iff k, e.outcome_countAfter k⟩

theorem nodes_and_leaves_settle_tokens_twice_over :
    let s := "(or (not a) 007)"
    let e : Expr := .binary .or (.unary .not (.var "a")) (.int 7)
    Condition.compile s = .ok e ∧
      (∃ next, parse (lex s).toList = .ok ⟨e, next⟩ ∧ (lex s).length = next + 1) ∧
      parse ((lex s).toList ++ (lex s).toList) = .ok ⟨e, 8⟩ ∧
      ((8 : Nat) : Int) = 3 * e.nodeCount - 2 * e.leafCount := by
  intro s e
  have hcompile : Condition.compile s = .ok e := by decide +kernel
  have hparse : parse ((lex s).toList ++ (lex s).toList) = .ok ⟨e, 8⟩ := by decide +kernel
  obtain ⟨-, hnext, hlength⟩ := nodes_and_leaves_settle_tokens
  exact ⟨hcompile, hlength s e hcompile, hparse, hnext _ e 8 hparse⟩

end CondLang
