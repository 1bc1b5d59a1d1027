import CondLang.Operator

/-!
Conditions as trees, and what walks all of a tree: equality, copies, the sequence of items from
which a hash is computed, and the number of nodes, by recursion (`size`) and from a list of pending
trees (`nodeCount`).
-/

namespace CondLang

inductive Expr where
  | var (name : String)
  | int (n : Int64)
  /-- A string constant, without its quotes. -/
  | str (s : String)
  | bool (b : Bool)
  | unary (op : UnaryOp) (operand : Expr)
  | binary (op : BinaryOp) (left right : Expr)
  deriving Repr

namespace Expr

def same : Expr → Expr → Bool
  | var a, var b => a == b
  | int a, int b => a == b
  | str a, str b => a == b
  | bool a, bool b => a == b
  | unary op a, unary op' b => op == op' && same a b
  | binary op a c, binary op' b d => op == op' && same a b && same c d
  | _, _ => false

theorem eq_of_same {a b : Expr} (h : a.same b = true) : a = b := by
  fun_induction same a b <;> simp_all

theorem same_self (a : Expr) : a.same a = true := by
  induction a <;> simp_all [same]

theorem same_iff (a b : Expr) : a.same b = true ↔ a = b :=
  ⟨eq_of_same, fun h => h ▸ same_self a⟩

instance : DecidableEq Expr := fun a b => decidable_of_iff _ (same_iff a b)

def copy : Expr → Expr
  | var name => var name
  | int n => int n
  | str s => str s
  | bool b => bool b
  | unary op e => unary op e.copy
  | binary op l r => binary op l.copy r.copy

theorem copy_eq (e : Expr) : e.copy = e := by
  induction e <;> simp_all [copy]

inductive Shape where
  | var
  | int
  | str
  | bool
  | unary
  | binary
  deriving DecidableEq, Repr

inductive DigestItem where
  | shape (s : Shape)
  | text (s : String)
  | int (n : Int64)
  | bool (b : Bool)
  | unaryOp (op : UnaryOp)
  | binaryOp (op : BinaryOp)
  deriving DecidableEq, Repr

def digestOnto (tail : List DigestItem) : Expr → List DigestItem
  | var name => .shape .var :: .text name :: tail
  | int n => .shape .int :: .int n :: tail
  | str s => .shape .str :: .text s :: tail
  | bool b => .shape .bool :: .bool b :: tail
  | unary op e => .shape .unary :: .unaryOp op :: digestOnto tail e
  | binary op l r => .shape .binary :: .binaryOp op :: digestOnto (digestOnto tail r) l

def digest (e : Expr) : List DigestItem :=
  e.digestOnto []

def size : Expr → Nat
  | unary _ e => e.size + 1
  | binary _ l r => l.size + r.size + 1
  | _ => 1

def countPending (count : Nat) : List Expr → Nat
  | [] => count
  | unary _ e :: pending => countPending (count + 1) (e :: pending)
  | binary _ l r :: pending => countPending (count + 1) (r :: l :: pending)
  | var _ :: pending | int _ :: pending | str _ :: pending | bool _ :: pending =>
    countPending (count + 1) pending
termination_by pending => pending.foldr (fun e n => e.size + n) 0
decreasing_by all_goals simp [size]; try omega

def nodeCount (e : Expr) : Nat :=
  countPending 0 [e]

end Expr

end CondLang
