import CondLang.Expr.Parse
import CondLang.Proofs.Derivation

/-! The nodes of a tree in pre-order, each with the index of its first token, which the shape of the
tree settles. -/

namespace CondLang

namespace Expr

def width : Expr → Nat
  | unary _ e => e.width + 3
  | binary _ l r => l.width + r.width + 3
  | _ => 1

def preorder (i : Nat) : Expr → List (Nat × Expr)
  | unary op e => (i, unary op e) :: preorder (i + 2) e
  | binary op l r =>
    (i, binary op l r) :: (preorder (i + 2) l ++ preorder (i + 2 + l.width) r)
  | e => [(i, e)]

def operator? : Expr → Option Operator
  | unary op _ => some (.unary op)
  | binary op _ _ => some (.binary op)
  | _ => none

theorem length_preorder (i : Nat) (e : Expr) : (e.preorder i).length = e.size := by
  induction e generalizing i with
  | var | int | str | bool => rfl
  | unary op e ih => rw [preorder, List.length_cons, ih, size]
  | binary op l r ihl ihr => rw [preorder, List.length_cons, List.length_append, ihl, ihr, size]

theorem countPending_eq (count : Nat) (pending : List Expr) :
    countPending count pending = count + pending.foldr (fun e n => e.size + n) 0 := by
  fun_induction countPending count pending with
  | case1 => rfl
  | case2 _ _ _ _ ih | case3 _ _ _ _ _ ih | case4 _ _ _ ih | case5 _ _ _ ih | case6 _ _ _ ih
  | case7 _ _ _ ih =>
    rw [ih]
    simp only [List.foldr_cons, size]
    omega

theorem nodeCount_eq_size (e : Expr) : e.nodeCount = e.size := by
  rw [nodeCount, countPending_eq]
  simp

end Expr

def visit (ts : List Token) (node : Nat × Expr) : List ParseEvent :=
  (ts[node.1]?).toList.map (.expression node.1) ++ node.2.operator?.toList.map .form

def visits (ts : List Token) (i : Nat) (e : Expr) : List ParseEvent :=
  (e.preorder i).flatMap (visit ts)

def ParseEvent.position? : ParseEvent → Option Nat
  | expression i _ => some i
  | form _ | operandFailed .. => none

variable {ts : List Token} {i j : Nat} {t : Token} {e : Expr}

theorem visit_eq (ht : ts[i]? = some t) (e : Expr) :
    visit ts (i, e) = .expression i t :: e.operator?.toList.map .form := by
  rw [visit, ht]
  rfl

theorem Derives.eq_width (h : Derives ts i e j) : j = i + e.width := by
  induction h with
  | var | int | bool | str => rfl
  | unary _ _ _ ih =>
    rw [ih, Expr.width]
    omega
  | binary _ _ _ _ ihl ihr =>
    rw [ihr, ihl, Expr.width]
    omega

theorem Derives.of_mem_preorder (h : Derives ts i e j) :
    ∀ node ∈ e.preorder i, Derives ts node.1 node.2 (node.1 + node.2.width) := by
  have hself := h.eq_width ▸ h
  induction h with
  | var | int | bool | str =>
    intro node hnode
    rw [List.mem_singleton.1 hnode]
    exact hself
  | unary hopen he hclose ih =>
    refine List.forall_mem_cons.2 ⟨hself, ?_⟩
    exact ih (he.eq_width ▸ he)
  | binary hopen hl hr hclose ihl ihr =>
    refine List.forall_mem_cons.2 ⟨hself, List.forall_mem_append.2 ⟨?_, ?_⟩⟩
    · exact ihl (hl.eq_width ▸ hl)
    · rw [← hl.eq_width]
      exact ihr (hr.eq_width ▸ hr)

end CondLang
