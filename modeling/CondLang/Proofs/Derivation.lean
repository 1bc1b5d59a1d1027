import CondLang.Expr
import CondLang.Proofs.Literal
import CondLang.Token

/-! The grammar of conditions, as a relation between the tokens of a list and the tree that they
form. A token may have a text that its kind does not allow. -/

namespace CondLang

def Token.content (t : Token) : TokenKind × String :=
  (t.kind, t.text)

def HasKind (ts : List Token) (i : Nat) (kind : TokenKind) : Prop :=
  ∃ t, ts[i]? = some t ∧ t.kind = kind

def OpensForm (ts : List Token) (i : Nat) (op : Operator) : Prop :=
  HasKind ts i .leftParen ∧ ∃ t, ts[i + 1]? = some t ∧ t.kind = .symbol ∧ t.text = op.keyword

/-- The tokens from index `i` up to `j` form this expression. -/
inductive Derives (ts : List Token) : Nat → Expr → Nat → Prop
  | var {i : Nat} {t : Token} (ht : ts[i]? = some t) (hk : t.kind = .symbol) :
    Derives ts i (.var t.text) (i + 1)
  | int {i : Nat} {t : Token} {n : Int64} (ht : ts[i]? = some t) (hk : t.kind = .intLiteral)
    (hn : Decimal.IsNumeral t.text.toList n.toInt) : Derives ts i (.int n) (i + 1)
  | bool {i : Nat} {t : Token} {b : Bool} (ht : ts[i]? = some t) (hk : t.kind = .booleanLiteral)
    (hb : t.text = if b then "true" else "false") : Derives ts i (.bool b) (i + 1)
  | str {i : Nat} {t : Token} (ht : ts[i]? = some t) (hk : t.kind = .stringLiteral) :
    Derives ts i (.str (String.ofList (t.text.toList.drop 1).dropLast)) (i + 1)
  | unary {i j : Nat} {op : UnaryOp} {e : Expr} (hopen : OpensForm ts i (.unary op))
    (he : Derives ts (i + 2) e j) (hclose : HasKind ts j .rightParen) :
    Derives ts i (.unary op e) (j + 1)
  | binary {i j k : Nat} {op : BinaryOp} {l r : Expr} (hopen : OpensForm ts i (.binary op))
    (hl : Derives ts (i + 2) l j) (hr : Derives ts j r k) (hclose : HasKind ts k .rightParen) :
    Derives ts i (.binary op l r) (k + 1)

variable {ts us : List Token} {i j : Nat} {e : Expr}

theorem Derives.lt (h : Derives ts i e j) : i < j := by
  induction h with
  | var | int | bool | str => exact Nat.lt_succ_self _
  | unary _ _ _ ih => omega
  | binary _ _ _ _ ihl ihr => omega

theorem HasKind.unique {k k' : TokenKind} (h : HasKind ts i k) (h' : HasKind ts i k') : k = k' := by
  obtain ⟨t, ht, rfl⟩ := h
  obtain ⟨t', ht', rfl⟩ := h'
  rw [Option.some.inj (ht.symm.trans ht')]

theorem OpensForm.unique {op op' : Operator} (h : OpensForm ts i op) (h' : OpensForm ts i op') :
    op = op' := by
  obtain ⟨-, t, ht, -, hop⟩ := h
  obtain ⟨-, t', ht', -, hop'⟩ := h'
  have hkey : op.keyword = op'.keyword := by
    rw [← hop, ← hop', Option.some.inj (ht.symm.trans ht')]
  have hfind := Operator.ofKeyword?_keyword op
  rw [hkey, Operator.ofKeyword?_keyword] at hfind
  exact (Option.some.inj hfind).symm

def Expr.firstKind : Expr → TokenKind
  | .var _ => .symbol
  | .int _ => .intLiteral
  | .str _ => .stringLiteral
  | .bool _ => .booleanLiteral
  | .unary .. | .binary .. => .leftParen

theorem Derives.hasKind_first (h : Derives ts i e j) : HasKind ts i e.firstKind := by
  cases h with
  | var ht hk | int ht hk | bool ht hk | str ht hk => exact ⟨_, ht, hk⟩
  | unary hopen | binary hopen => exact hopen.1

theorem Derives.unique {e' : Expr} {j' : Nat} (h : Derives ts i e j) (h' : Derives ts i e' j') :
    e = e' ∧ j = j' := by
  -- The first token leaves no choice but between the two sorts of form, and the keyword that one.
  have hfirst : e.firstKind = e'.firstKind := h.hasKind_first.unique h'.hasKind_first
  induction h generalizing e' j' with
  | var ht hk =>
    cases h' with
    | var ht' hk' => rw [Option.some.inj (ht.symm.trans ht')]; exact ⟨rfl, rfl⟩
    | _ => cases hfirst
  | int ht hk hn =>
    cases h' with
    | int ht' hk' hn' =>
      rw [Option.some.inj (ht.symm.trans ht'), ← Decimal.readInt64?_eq_some_iff] at hn
      rw [← Decimal.readInt64?_eq_some_iff, hn] at hn'
      rw [Option.some.inj hn']
      exact ⟨rfl, rfl⟩
    | _ => cases hfirst
  | @bool i t b ht hk hb =>
    cases h' with
    | @bool _ _ b' ht' hk' hb' =>
      rw [Option.some.inj (ht.symm.trans ht'), hb'] at hb
      have hbb : b = b' := by cases b <;> cases b' <;> first | rfl | exact absurd hb (by decide)
      exact ⟨congrArg Expr.bool hbb, rfl⟩
    | _ => cases hfirst
  | str ht hk =>
    cases h' with
    | str ht' hk' => rw [Option.some.inj (ht.symm.trans ht')]; exact ⟨rfl, rfl⟩
    | _ => cases hfirst
  | unary hopen he hclose ih =>
    cases h' with
    | unary hopen' he' hclose' =>
      obtain ⟨rfl, rfl⟩ := ih he' (he.hasKind_first.unique he'.hasKind_first)
      cases hopen.unique hopen'
      exact ⟨rfl, rfl⟩
    | binary hopen' => cases hopen.unique hopen'
    | _ => cases hfirst
  | binary hopen hl hr hclose ihl ihr =>
    cases h' with
    | unary hopen' => cases hopen.unique hopen'
    | binary hopen' hl' hr' hclose' =>
      obtain ⟨rfl, rfl⟩ := ihl hl' (hl.hasKind_first.unique hl'.hasKind_first)
      obtain ⟨rfl, rfl⟩ := ihr hr' (hr.hasKind_first.unique hr'.hasKind_first)
      cases hopen.unique hopen'
      exact ⟨rfl, rfl⟩
    | _ => cases hfirst

end CondLang
