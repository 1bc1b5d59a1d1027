import CondLang.Proofs.Lookups
import CondLang.Proofs.SelfDelimiting
import Mathlib.Data.List.Forall2

/-! When two trees are the same. The items from which a tree is hashed can be told apart wherever
they begin: each node says its shape first, and so how many trees stand behind it. -/

namespace CondLang.Expr

def shape : Expr → Shape
  | var _ => .var
  | int _ => .int
  | str _ => .str
  | bool _ => .bool
  | unary .. => .unary
  | binary .. => .binary

theorem pair_induction {motive : Expr → Expr → Prop}
    (differ : ∀ a b, a.shape ≠ b.shape → motive a b)
    (var : ∀ name name', motive (.var name) (.var name'))
    (int : ∀ n n', motive (.int n) (.int n'))
    (str : ∀ s s', motive (.str s) (.str s'))
    (bool : ∀ c c', motive (.bool c) (.bool c'))
    (unary : ∀ op op' e e', motive e e' → motive (.unary op e) (.unary op' e'))
    (binary : ∀ op op' l l' r r', motive l l' → motive r r' →
      motive (.binary op l r) (.binary op' l' r')) (a b : Expr) : motive a b := by
  induction a generalizing b with
  | var name =>
    cases b with
    | var name' => exact var name name'
    | _ => exact differ _ _ nofun
  | int n =>
    cases b with
    | int n' => exact int n n'
    | _ => exact differ _ _ nofun
  | str s =>
    cases b with
    | str s' => exact str s s'
    | _ => exact differ _ _ nofun
  | bool c =>
    cases b with
    | bool c' => exact bool c c'
    | _ => exact differ _ _ nofun
  | unary op e ih =>
    cases b with
    | unary op' e' => exact unary op op' e e' (ih e')
    | _ => exact differ _ _ nofun
  | binary op l r ihl ihr =>
    cases b with
    | binary op' l' r' => exact binary op op' l l' r r' (ihl l') (ihr r')
    | _ => exact differ _ _ nofun

inductive Label where
  | var (name : String)
  | int (n : Int64)
  | str (s : String)
  | bool (b : Bool)
  | unary (op : UnaryOp)
  | binary (op : BinaryOp)
  deriving DecidableEq, Repr

def label : Expr → Label
  | var name => .var name
  | int n => .int n
  | str s => .str s
  | bool b => .bool b
  | unary op _ => .unary op
  | binary op _ _ => .binary op

def labelAt? : Expr → List Turn → Option Label
  | unary _ e, .operand :: path => e.labelAt? path
  | binary _ l _, .left :: path => l.labelAt? path
  | binary _ _ r, .right :: path => r.labelAt? path
  | e, [] => some e.label
  | _, _ :: _ => none

theorem labelAt?_nil (e : Expr) : e.labelAt? [] = some e.label := by
  cases e <;> rfl

theorem shape_eq_of_label_eq {a b : Expr} (h : a.label = b.label) : a.shape = b.shape := by
  cases a <;> cases b <;> first | rfl | cases h

theorem label_eq_of_labelAt?_eq {a b : Expr} (h : ∀ path, a.labelAt? path = b.labelAt? path) :
    a.label = b.label := by
  simpa only [labelAt?_nil, Option.some.injEq] using h []

theorem eq_of_labelAt?_eq {a b : Expr} (h : ∀ path, a.labelAt? path = b.labelAt? path) :
    a = b := by
  have hlabel := label_eq_of_labelAt?_eq h
  induction a, b using pair_induction with
  | differ a b hne => exact absurd (shape_eq_of_label_eq hlabel) hne
  | var | int | str | bool => cases hlabel; rfl
  | unary op op' e e' ih =>
    cases hlabel
    have he : ∀ path, e.labelAt? path = e'.labelAt? path := fun path => h (.operand :: path)
    rw [ih he (label_eq_of_labelAt?_eq he)]
  | binary op op' l l' r r' ihl ihr =>
    cases hlabel
    have hl : ∀ path, l.labelAt? path = l'.labelAt? path := fun path => h (.left :: path)
    have hr : ∀ path, r.labelAt? path = r'.labelAt? path := fun path => h (.right :: path)
    rw [ihl hl (label_eq_of_labelAt?_eq hl), ihr hr (label_eq_of_labelAt?_eq hr)]

theorem same_iff_labelAt?_eq (a b : Expr) :
    a.same b = true ↔ ∀ path, a.labelAt? path = b.labelAt? path := by
  rw [same_iff]
  constructor
  · rintro rfl path
    rfl
  · exact eq_of_labelAt?_eq

theorem same_equivalence : Equivalence fun a b : Expr => a.same b = true := by
  simpa only [same_iff] using eq_equivalence

/-! ### Digests -/

theorem digestOnto_eq (tail : List DigestItem) (e : Expr) :
    e.digestOnto tail = e.digest ++ tail := by
  induction e generalizing tail with
  | var | int | str | bool => rfl
  | unary op e ih =>
    rw [digest, digestOnto, digestOnto, ih, ih [], List.append_nil]
    rfl
  | binary op l r ihl ihr =>
    rw [digest, digestOnto, digestOnto, ihl, ihr, ihl (digestOnto [] r), ihr [], List.append_nil]
    simp

theorem digest_var (name : String) : (var name).digest = [.shape .var, .text name] := rfl

theorem digest_int (n : Int64) : (int n).digest = [.shape .int, .int n] := rfl

theorem digest_str (s : String) : (str s).digest = [.shape .str, .text s] := rfl

theorem digest_bool (b : Bool) : (bool b).digest = [.shape .bool, .bool b] := rfl

theorem digest_unary (op : UnaryOp) (e : Expr) :
    (unary op e).digest = .shape .unary :: .unaryOp op :: e.digest :=
  rfl

theorem digest_binary (op : BinaryOp) (l r : Expr) :
    (binary op l r).digest = .shape .binary :: .binaryOp op :: (l.digest ++ r.digest) := by
  rw [← digestOnto_eq r.digest l]
  rfl

theorem exists_digest_eq (e : Expr) : ∃ items, e.digest = .shape e.shape :: items := by
  cases e <;> exact ⟨_, rfl⟩

variable {β : Type} {write : DigestItem → List β}

/-- A way to write items for a hasher, which may take them apart as it likes. Two items of one sort
can be told from what is written; whether items of different sorts can does not matter. -/
structure Writes (write : DigestItem → List β) : Prop where
  shape : SelfDelimiting fun s => write (.shape s)
  text : SelfDelimiting fun s => write (.text s)
  int : SelfDelimiting fun n => write (.int n)
  bool : SelfDelimiting fun b => write (.bool b)
  unaryOp : SelfDelimiting fun op => write (.unaryOp op)
  binaryOp : SelfDelimiting fun op => write (.binaryOp op)

theorem writes_singleton : Writes fun item => [item] := by
  constructor
  all_goals
    intro a b u v heq
    cases heq
    rfl

theorem Writes.selfDelimiting (hw : Writes write) :
    SelfDelimiting fun e : Expr => e.digest.flatMap write := by
  intro a b u v heq
  dsimp only at heq
  induction a, b using pair_induction generalizing u v with
  | differ a b hne =>
    obtain ⟨items, ha⟩ := a.exists_digest_eq
    obtain ⟨items', hb⟩ := b.exists_digest_eq
    rw [ha, hb, List.flatMap_cons, List.flatMap_cons, List.append_assoc, List.append_assoc] at heq
    exact absurd (hw.shape heq) hne
  | var name name' =>
    simp only [digest_var, List.flatMap_cons, List.append_assoc] at heq
    rw [hw.text (hw.shape.eq_and_eq heq).2]
  | int n n' =>
    simp only [digest_int, List.flatMap_cons, List.append_assoc] at heq
    rw [hw.int (hw.shape.eq_and_eq heq).2]
  | str s s' =>
    simp only [digest_str, List.flatMap_cons, List.append_assoc] at heq
    rw [hw.text (hw.shape.eq_and_eq heq).2]
  | bool b b' =>
    simp only [digest_bool, List.flatMap_cons, List.append_assoc] at heq
    rw [hw.bool (hw.shape.eq_and_eq heq).2]
  | unary op op' e e' ih =>
    simp only [digest_unary, List.flatMap_cons, List.append_assoc] at heq
    obtain ⟨-, hop⟩ := hw.shape.eq_and_eq heq
    obtain ⟨rfl, hoperand⟩ := hw.unaryOp.eq_and_eq hop
    rw [ih hoperand]
  | binary op op' l l' r r' ihl ihr =>
    simp only [digest_binary, List.flatMap_cons, List.flatMap_append, List.append_assoc] at heq
    obtain ⟨-, hop⟩ := hw.shape.eq_and_eq heq
    obtain ⟨rfl, hleft⟩ := hw.binaryOp.eq_and_eq hop
    obtain rfl := ihl hleft
    rw [ihr (List.append_cancel_left hleft)]

instance : Nontrivial Expr :=
  ⟨.bool true, .bool false, nofun⟩

/-- What is encoded for a tree tells which tree it is. It does not begin what is encoded for another
one, and several trees can be told when they are encoded one after another. -/
structure Identifies (encode : Expr → List β) : Prop where
  eq_iff : ∀ a b, encode a = encode b ↔ a.same b = true
  eq_of_prefix : ∀ a b, encode a <+: encode b → encode a = encode b
  flatMap_eq_iff : ∀ as bs : List Expr,
    as.flatMap encode = bs.flatMap encode ↔ List.Forall₂ (fun a b => a.same b = true) as bs

theorem identifies_of_selfDelimiting {encode : Expr → List β} (h : SelfDelimiting encode) :
    Identifies encode where
  eq_iff a b := by rw [h.encode_eq_iff, same_iff]
  eq_of_prefix _ _ hab := congrArg encode (h.eq_of_prefix hab)
  flatMap_eq_iff as bs := by simp only [h.flatMap_eq_iff, same_iff, List.forall₂_eq_eq_eq]

/-- Equality is that of all nodes at all places, a copy is equal to its tree, and the items that are
hashed are those of equal trees only, however a hasher writes them. -/
theorem equality_copies_and_digests_agree :
    (∀ a b : Expr, a.same b = true ↔ ∀ path, a.labelAt? path = b.labelAt? path) ∧
      (Equivalence fun a b : Expr => a.same b = true) ∧
      (∀ a : Expr, a.copy.same a = true) ∧
      Identifies digest ∧
      ∀ (β : Type) (write : DigestItem → List β), Writes write →
        Identifies fun e => e.digest.flatMap write := by
  refine ⟨same_iff_labelAt?_eq, same_equivalence, fun a => ?_, ?_, fun β write hw => ?_⟩
  · rw [copy_eq]
    exact same_self a
  · have hitems := identifies_of_selfDelimiting writes_singleton.selfDelimiting
    simpa only [List.flatMap_singleton'] using hitems
  · exact identifies_of_selfDelimiting hw.selfDelimiting

def DigestItem.withoutUnaryOp : DigestItem → List DigestItem
  | unaryOp _ => []
  | item => [item]

theorem equality_copies_and_digests_agree_unwritten :
    (unary .not (var "x")).digest.flatMap DigestItem.withoutUnaryOp =
        [.shape .unary, .shape .var, .text "x"] ∧
      Writes DigestItem.withoutUnaryOp ∧
      Identifies fun e => e.digest.flatMap DigestItem.withoutUnaryOp := by
  have hwrites : Writes DigestItem.withoutUnaryOp := by
    constructor
    case unaryOp => exact fun .not .not _ _ _ => rfl
    all_goals exact fun _ _ _ _ heq => by cases heq; rfl
  exact ⟨rfl, hwrites, equality_copies_and_digests_agree.2.2.2.2 _ _ hwrites⟩

end CondLang.Expr
