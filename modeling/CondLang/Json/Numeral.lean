import CondLang.Text.Decimal

/-!
The numerals of JSON in the strict form. One without point and exponent is an integer, save for
minus zero.
-/

namespace CondLang.Json

/-- The parts of a numeral as they were written, the point and the letter of the exponent with the
digits behind them. -/
structure Numeral where
  negative : Bool
  whole : List Char
  fraction : List Char
  exponent : List Char

namespace Numeral

def literal (n : Numeral) : List Char :=
  (if n.negative then ['-'] else []) ++ n.whole ++ n.fraction ++ n.exponent

def int? (n : Numeral) : Option Int :=
  if n.fraction ++ n.exponent ≠ [] ∨ (n.negative ∧ Decimal.value n.whole = 0) then none
  else if n.negative then some (-(Decimal.value n.whole : Int))
  else some (Decimal.value n.whole)

end Numeral

def readDigits? (cs : List Char) : Option (List Char × List Char) :=
  match cs.takeWhile Char.isDigit with
  | [] => none
  | digits => some (digits, cs.dropWhile Char.isDigit)

def readWhole? (cs : List Char) : Option (List Char × List Char) :=
  match readDigits? cs with
  | some ('0' :: _ :: _, _) => none
  | read => read

def readFraction? : List Char → Option (List Char × List Char)
  | '.' :: cs => (readDigits? cs).map fun (digits, rest) => ('.' :: digits, rest)
  | cs => some ([], cs)

def readExponent? : List Char → Option (List Char × List Char)
  | c :: cs =>
    if c = 'e' ∨ c = 'E' then
      match cs with
      | s :: cs' =>
        if s = '+' ∨ s = '-' then
          (readDigits? cs').map fun (digits, rest) => (c :: s :: digits, rest)
        else (readDigits? cs).map fun (digits, rest) => (c :: digits, rest)
      | [] => none
    else some ([], c :: cs)
  | [] => some ([], [])

def readNumeral? (negative : Bool) (cs : List Char) : Option (Numeral × List Char) := do
  let (whole, cs) ← readWhole? cs
  let (fraction, cs) ← readFraction? cs
  let (exponent, rest) ← readExponent? cs
  some (⟨negative, whole, fraction, exponent⟩, rest)

theorem readDigits?_append {cs digits rest : List Char} (h : readDigits? cs = some (digits, rest)) :
    digits ≠ [] ∧ digits ++ rest = cs := by
  unfold readDigits? at h
  split at h
  · cases h
  · next hne =>
    cases h
    exact ⟨hne, List.takeWhile_append_dropWhile⟩

theorem length_readDigits_lt {cs digits rest : List Char}
    (h : readDigits? cs = some (digits, rest)) : rest.length < cs.length := by
  obtain ⟨hne, rfl⟩ := readDigits?_append h
  have := List.length_pos_iff.2 hne
  rw [List.length_append]
  omega

theorem length_readWhole_lt {cs digits rest : List Char}
    (h : readWhole? cs = some (digits, rest)) : rest.length < cs.length := by
  unfold readWhole? at h
  split at h
  · cases h
  · exact length_readDigits_lt h

theorem length_readFraction_le {cs digits rest : List Char}
    (h : readFraction? cs = some (digits, rest)) : rest.length ≤ cs.length := by
  unfold readFraction? at h
  split at h
  · obtain ⟨⟨d, r⟩, hd, he⟩ := Option.map_eq_some_iff.1 h
    cases he
    have := length_readDigits_lt hd
    simp only [List.length_cons]
    omega
  · cases h
    exact Nat.le_refl _

theorem length_readExponent_le {cs digits rest : List Char}
    (h : readExponent? cs = some (digits, rest)) : rest.length ≤ cs.length := by
  unfold readExponent? at h
  split at h
  · split at h
    · split at h
      · split at h <;>
        · obtain ⟨⟨d, r⟩, hd, he⟩ := Option.map_eq_some_iff.1 h
          cases he
          have := length_readDigits_lt hd
          simp only [List.length_cons] at this ⊢
          omega
      · cases h
    · cases h
      exact Nat.le_refl _
  · cases h
    exact Nat.le_refl _

theorem length_readNumeral_lt {negative : Bool} {cs rest : List Char} {n : Numeral}
    (h : readNumeral? negative cs = some (n, rest)) : rest.length < cs.length := by
  simp only [readNumeral?, bind, Option.bind_eq_some_iff] at h
  obtain ⟨⟨whole, cs₁⟩, h₁, ⟨fraction, cs₂⟩, h₂, ⟨exponent, cs₃⟩, h₃, h⟩ := h
  cases h
  have := length_readWhole_lt h₁
  have := length_readFraction_le h₂
  have := length_readExponent_le h₃
  simp only at *
  omega

end CondLang.Json
