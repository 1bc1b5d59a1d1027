import Mathlib.Data.List.Basic
import Mathlib.Logic.Nontrivial.Basic

/-! Encodings that say themselves where they end, so that none is the beginning of another one and
values may be encoded one after another. -/

namespace CondLang

variable {α β γ : Type}

/-- A value can be told from its encoding and whatever follows it. -/
def SelfDelimiting (encode : α → List β) : Prop :=
  ∀ ⦃a b : α⦄ ⦃u v : List β⦄, encode a ++ u = encode b ++ v → a = b

theorem eq_of_append_cons {c : β} {xs ys u v : List β} (hx : c ∉ xs) (hy : c ∉ ys)
    (h : xs ++ c :: u = ys ++ c :: v) : xs = ys := by
  induction xs generalizing ys with
  | nil =>
    cases ys with
    | nil => rfl
    | cons y ys => exact absurd ((List.cons.inj h).1 ▸ List.mem_cons_self) hy
  | cons x xs ih =>
    cases ys with
    | nil => exact absurd ((List.cons.inj h).1 ▸ List.mem_cons_self) hx
    | cons y ys =>
      rw [List.mem_cons, not_or] at hx hy
      rw [List.cons_append, List.cons_append, List.cons.injEq] at h
      rw [h.1, ih hx.2 hy.2 h.2]

namespace SelfDelimiting

variable {encode : α → List β}

theorem eq_and_eq (h : SelfDelimiting encode) {a b : α} {u v : List β}
    (heq : encode a ++ u = encode b ++ v) : a = b ∧ u = v := by
  obtain rfl := h heq
  exact ⟨rfl, List.append_cancel_left heq⟩

theorem encode_eq_iff (h : SelfDelimiting encode) {a b : α} : encode a = encode b ↔ a = b :=
  ⟨fun heq => h (congrArg (· ++ []) heq), congrArg encode⟩

theorem eq_of_prefix (h : SelfDelimiting encode) {a b : α} (hab : encode a <+: encode b) :
    a = b := by
  obtain ⟨u, hu⟩ := hab
  exact h (hu.trans (List.append_nil _).symm)

theorem encode_ne_nil [Nontrivial α] (h : SelfDelimiting encode) (a : α) : encode a ≠ [] := by
  intro hnil
  obtain ⟨b, hne⟩ := exists_ne a
  have heq : encode a ++ encode b = encode b ++ [] := by
    rw [hnil, List.nil_append, List.append_nil]
  exact hne (h heq).symm

theorem flatMap_eq_iff [Nontrivial α] (h : SelfDelimiting encode) {as bs : List α} :
    as.flatMap encode = bs.flatMap encode ↔ as = bs := by
  refine ⟨fun heq => ?_, congrArg _⟩
  induction as generalizing bs with
  | nil =>
    cases bs with
    | nil => rfl
    | cons b bs => exact absurd (List.append_eq_nil_iff.1 heq.symm).1 (h.encode_ne_nil b)
  | cons a as ih =>
    cases bs with
    | nil => exact absurd (List.append_eq_nil_iff.1 heq).1 (h.encode_ne_nil a)
    | cons b bs =>
      obtain ⟨rfl, hrest⟩ := h.eq_and_eq heq
      rw [ih hrest]

theorem comp (h : SelfDelimiting encode) {f : γ → α} (hf : Function.Injective f) :
    SelfDelimiting fun c => encode (f c) :=
  fun _ _ _ _ heq => hf (h heq)

theorem const_append (h : SelfDelimiting encode) (z : List β) :
    SelfDelimiting fun a => z ++ encode a := by
  intro a b u v heq
  rw [List.append_assoc, List.append_assoc] at heq
  exact h (List.append_cancel_left heq)

theorem append_const (h : SelfDelimiting encode) (z : List β) :
    SelfDelimiting fun a => encode a ++ z := by
  intro a b u v heq
  rw [List.append_assoc, List.append_assoc] at heq
  exact h heq

theorem of_notMem {c : β} {z : List β} (hinj : Function.Injective encode)
    (hc : ∀ a, c ∉ encode a) (hz : c ∈ z) : SelfDelimiting fun a => encode a ++ z := by
  intro a b u v heq
  obtain ⟨front, back, rfl, hfront⟩ := List.eq_append_cons_of_mem hz
  have hsplit : (encode a ++ front) ++ c :: (back ++ u) =
      (encode b ++ front) ++ c :: (back ++ v) := by
    simpa using heq
  have hne : ∀ a, c ∉ encode a ++ front := by simp [hc, hfront]
  exact hinj (List.append_cancel_right (eq_of_append_cons (hne a) (hne b) hsplit))

theorem flatMap_mark (h : SelfDelimiting encode) {z : β}
    (hz : ∀ a u v, encode a ++ u ≠ z :: v) :
    SelfDelimiting fun as : List α => as.flatMap encode ++ [z] := by
  intro as bs u v heq
  rw [List.append_assoc, List.append_assoc] at heq
  induction as generalizing bs with
  | nil =>
    cases bs with
    | nil => rfl
    | cons b bs =>
      rw [List.flatMap_cons, List.append_assoc] at heq
      exact absurd heq.symm (hz b _ _)
  | cons a as ih =>
    rw [List.flatMap_cons, List.append_assoc] at heq
    cases bs with
    | nil => exact absurd heq (hz a _ _)
    | cons b bs =>
      rw [List.flatMap_cons, List.append_assoc] at heq
      obtain ⟨rfl, hrest⟩ := h.eq_and_eq heq
      rw [ih hrest]

end SelfDelimiting

end CondLang
