import CondLang.Text.Blank
import Mathlib.Data.List.TakeWhile

/-! Runs of characters of one class, and the classes that the lexer tells apart. -/

namespace CondLang

def Stops (p : Char → Bool) (cs : List Char) : Prop :=
  ∀ c ∈ cs.head?, p c = false

section Span
variable {p q : Char → Bool} {text rest more : List Char}

theorem stops_nil (p : Char → Bool) : Stops p [] :=
  fun _ h => nomatch h

theorem stops_cons {c : Char} : Stops p (c :: rest) ↔ p c = false := by
  simp [Stops]

theorem stops_dropWhile (p : Char → Bool) (cs : List Char) : Stops p (cs.dropWhile p) := by
  intro c hc
  have h := List.head?_dropWhile_not p cs
  rw [Option.mem_def.1 hc] at h
  exact h

theorem Stops.append (h : Stops p rest) (hmore : rest = [] → Stops p more) :
    Stops p (rest ++ more) := by
  cases rest with
  | nil => exact hmore rfl
  | cons c rest => exact h

theorem Stops.mono (h : Stops q rest) (hpq : ∀ c, p c = true → q c = true) : Stops p rest := by
  intro c hc
  rw [← Bool.not_eq_true]
  intro hp
  have hq := hpq c hp
  rw [h c hc] at hq
  exact Bool.false_ne_true hq

theorem takeWhile_eq_nil_of_stops (h : Stops p rest) : rest.takeWhile p = [] := by
  cases rest with
  | nil => rfl
  | cons c rest => exact List.takeWhile_cons_of_neg (by rw [stops_cons.1 h]; decide)

theorem dropWhile_eq_self_of_stops (h : Stops p rest) : rest.dropWhile p = rest := by
  cases rest with
  | nil => rfl
  | cons c rest => exact List.dropWhile_cons_of_neg (by rw [stops_cons.1 h]; decide)

theorem takeWhile_append_of_stops (h : ∀ c ∈ text, p c = true) (hrest : Stops p rest) :
    (text ++ rest).takeWhile p = text := by
  rw [List.takeWhile_append_of_pos h, takeWhile_eq_nil_of_stops hrest, List.append_nil]

theorem dropWhile_append_of_stops (h : ∀ c ∈ text, p c = true) (hrest : Stops p rest) :
    (text ++ rest).dropWhile p = rest := by
  rw [List.dropWhile_append_of_pos h, dropWhile_eq_self_of_stops hrest]

theorem takeWhile_append_of_dropWhile_ne_nil {cs : List Char} (h : cs.dropWhile p ≠ [])
    (more : List Char) : (cs ++ more).takeWhile p = cs.takeWhile p := by
  have hstop : Stops p (cs.dropWhile p ++ more) :=
    (stops_dropWhile p cs).append fun hnil => absurd hnil h
  have hwhole : cs ++ more = cs.takeWhile p ++ (cs.dropWhile p ++ more) := by
    rw [← List.append_assoc, List.takeWhile_append_dropWhile]
  rw [hwhole, takeWhile_append_of_stops (fun _ => List.mem_takeWhile_imp) hstop]

theorem dropWhile_append_of_dropWhile_ne_nil {cs : List Char} (h : cs.dropWhile p ≠ [])
    (more : List Char) : (cs ++ more).dropWhile p = cs.dropWhile p ++ more := by
  rw [List.dropWhile_append, if_neg (by rwa [List.isEmpty_iff])]

end Span

theorem isDigit_iff {c : Char} : c.isDigit = true ↔ 48 ≤ c.toNat ∧ c.toNat ≤ 57 := by
  show (decide (c.val ≥ 48) && decide (c.val ≤ 57)) = true ↔ _
  simp only [Bool.and_eq_true, decide_eq_true_eq, ge_iff_le, UInt32.le_iff_toNat_le]
  rfl

theorem isAlpha_iff {c : Char} :
    c.isAlpha = true ↔ 65 ≤ c.toNat ∧ c.toNat ≤ 90 ∨ 97 ≤ c.toNat ∧ c.toNat ≤ 122 := by
  show (decide (c.val ≥ 65 ∧ c.val ≤ 90) || (c.val ≥ 97 && c.val ≤ 122)) = true ↔ _
  simp only [Bool.or_eq_true, Bool.and_eq_true, decide_eq_true_eq, ge_iff_le,
    UInt32.le_iff_toNat_le]
  rfl

theorem isAlphanum_of_isAlpha {c : Char} (h : c.isAlpha = true) : c.isAlphanum = true := by
  rw [Char.isAlphanum, h, Bool.true_or]

theorem isAlphanum_of_isDigit {c : Char} (h : c.isDigit = true) : c.isAlphanum = true := by
  rw [Char.isAlphanum, h, Bool.or_true]

theorem isAlpha_eq_false_of_isDigit {c : Char} (h : c.isDigit = true) : c.isAlpha = false := by
  rw [← Bool.not_eq_true, isAlpha_iff]
  rw [isDigit_iff] at h
  omega

theorem isBlank_eq_false_of_isAlphanum {c : Char} (h : c.isAlphanum = true) :
    isBlank c = false := by
  rw [Char.isAlphanum, Bool.or_eq_true, isAlpha_iff, isDigit_iff] at h
  rw [← Bool.not_eq_true]
  simp only [isBlank, blankRanges, List.any_cons, List.any_nil, Bool.or_eq_true, Bool.and_eq_true,
    decide_eq_true_eq, Bool.false_eq_true, or_false]
  omega

end CondLang
