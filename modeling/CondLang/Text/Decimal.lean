/-!
Decimal integers. Leading zeros are allowed, and a numeral of any length is read exactly before its
range is looked at.
-/

namespace CondLang.Decimal

def value (digits : List Char) : Nat :=
  Nat.ofDigitChars 10 digits 0

def magnitude? (cs : List Char) : Option Nat :=
  if cs ≠ [] ∧ cs.all Char.isDigit then some (value cs) else none

def read? : List Char → Option Int
  | '-' :: cs => (magnitude? cs).map fun n : Nat => -(n : Int)
  | '+' :: cs => (magnitude? cs).map Int.ofNat
  | cs => (magnitude? cs).map Int.ofNat

def toInt64? (n : Int) : Option Int64 :=
  if Int64.minValue.toInt ≤ n ∧ n ≤ Int64.maxValue.toInt then some (Int64.ofInt n) else none

def readInt64? (cs : List Char) : Option Int64 :=
  (read? cs).bind toInt64?

def digits (n : Nat) : List Char :=
  Nat.toDigits 10 n

def numeral (n : Int) : List Char :=
  if n < 0 then '-' :: digits n.natAbs else digits n.natAbs

theorem value_digits (n : Nat) : value (digits n) = n :=
  Nat.ofDigitChars_toDigits (by decide) (by decide)

theorem digits_ne_nil (n : Nat) : digits n ≠ [] :=
  Nat.toDigits_ne_nil

theorem isDigit_of_mem_digits {n : Nat} {c : Char} (h : c ∈ digits n) : c.isDigit = true :=
  Nat.isDigit_of_mem_toDigits (by decide) (by decide) h

theorem magnitude?_digits (n : Nat) : magnitude? (digits n) = some n := by
  have hall : (digits n).all Char.isDigit = true :=
    List.all_eq_true.2 fun _ h => isDigit_of_mem_digits h
  simp [magnitude?, hall, digits_ne_nil, value_digits]

theorem read?_digits (n : Nat) : read? (digits n) = some (n : Int) := by
  have hsign : ∀ c cs, digits n = c :: cs → c ≠ '-' ∧ c ≠ '+' := by
    intro c cs h
    have hc : c.isDigit = true := isDigit_of_mem_digits (h ▸ List.mem_cons_self)
    constructor <;> rintro rfl <;> revert hc <;> decide
  unfold read?
  split
  · next cs h => exact absurd rfl (hsign _ _ h).1
  · next cs h => exact absurd rfl (hsign _ _ h).2
  · rw [magnitude?_digits]
    rfl

theorem read?_numeral (n : Int) : read? (numeral n) = some n := by
  unfold numeral
  split
  · rw [read?, magnitude?_digits, Option.map_some, Option.some.injEq]
    omega
  · rw [read?_digits, Option.some.injEq]
    omega

theorem toInt64?_toInt (n : Int64) : toInt64? n.toInt = some n := by
  rw [toInt64?, if_pos ⟨n.minValue_le_toInt, n.toInt_le⟩, Int64.ofInt_toInt]

theorem readInt64?_numeral (n : Int64) : readInt64? (numeral n.toInt) = some n := by
  rw [readInt64?, read?_numeral]
  exact toInt64?_toInt n

end CondLang.Decimal
