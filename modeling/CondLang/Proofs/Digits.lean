import CondLang.Proofs.Literal
import CondLang.Proofs.Span

/-! How numbers are written. Digits stand for the number whose own digits they are, apart from the
zeros in front of them, and no number has such zeros. -/

namespace CondLang.Decimal

variable {c : Char} {ds : List Char} {n : Nat}

def trimZeros (ds : List Char) : List Char :=
  match ds.dropWhile (· = '0') with
  | [] => ['0']
  | d :: ds => d :: ds

theorem trimZeros_cons_of_ne (h : c ≠ '0') (ds : List Char) : trimZeros (c :: ds) = c :: ds := by
  simp [trimZeros, h]

theorem toNat_sub_lt_ten (h : c.isDigit = true) : c.toNat - '0'.toNat < 10 := by
  have hzero : '0'.toNat = 48 := rfl
  have hhigh := (isDigit_iff.1 h).2
  omega

theorem digits_toNat_sub (h : c.isDigit = true) : digits (c.toNat - '0'.toNat) = [c] := by
  have hzero : '0'.toNat = 48 := rfl
  have hlow := (isDigit_iff.1 h).1
  rw [digits, Nat.toDigits_of_lt_base (toNat_sub_lt_ten h), List.singleton_inj, ← Char.toNat_inj,
    Nat.toNat_digitChar_of_lt_ten (toNat_sub_lt_ten h)]
  omega

theorem digits_ofDigitChars (hn : 0 < n) (hds : ∀ c ∈ ds, c.isDigit = true) :
    digits (Nat.ofDigitChars 10 ds n) = digits n ++ ds := by
  induction ds generalizing n with
  | nil => rw [Nat.ofDigitChars_nil, List.append_nil]
  | cons c ds ih =>
    obtain ⟨hc, hds⟩ := List.forall_mem_cons.1 hds
    have happend : digits n ++ digits (c.toNat - '0'.toNat) =
        digits (10 * n + (c.toNat - '0'.toNat)) :=
      Nat.toDigits_append_toDigits (by decide) hn (toNat_sub_lt_ten hc)
    rw [Nat.ofDigitChars_cons, ih (by omega) hds, ← happend, digits_toNat_sub hc,
      List.append_assoc, List.singleton_append]

theorem digits_value (hds : ∀ c ∈ ds, c.isDigit = true) : digits (value ds) = trimZeros ds := by
  induction ds with
  | nil => rfl
  | cons c ds ih =>
    obtain ⟨hc, hds⟩ := List.forall_mem_cons.1 hds
    by_cases hzero : c = '0'
    · rw [hzero]
      exact ih hds
    · have hpos : 0 < 10 * 0 + (c.toNat - '0'.toNat) := by
        have hne : c.toNat ≠ '0'.toNat := fun h => hzero (Char.toNat_inj.1 h)
        have hlow : '0'.toNat ≤ c.toNat := (isDigit_iff.1 hc).1
        omega
      rw [value, Nat.ofDigitChars_cons, digits_ofDigitChars hpos hds, Nat.mul_zero, Nat.zero_add,
        digits_toNat_sub hc, trimZeros_cons_of_ne hzero, List.singleton_append]

theorem length_trimZeros_cons_le (c : Char) (ds : List Char) :
    (trimZeros (c :: ds)).length ≤ ds.length + 1 := by
  have hdrop := (List.dropWhile_suffix (l := c :: ds) (· = '0')).length_le
  unfold trimZeros
  split
  · exact Nat.le_add_left 1 ds.length
  · next heq =>
    rw [heq] at hdrop
    exact hdrop

theorem digits_ne_zero_cons (n : Nat) (c : Char) (ds : List Char) : digits n ≠ '0' :: c :: ds := by
  intro h
  have htrim : trimZeros (digits n) = digits n := by
    rw [← digits_value fun _ => isDigit_of_mem_digits, value_digits]
  rw [h] at htrim
  have hshorter : (trimZeros ('0' :: c :: ds)).length ≤ ds.length + 1 :=
    length_trimZeros_cons_le c ds
  rw [htrim] at hshorter
  exact Nat.not_succ_le_self _ hshorter

theorem numeral_of_isNumeral {i : Int} (h : IsNumeral ds i) (hds : IsDigits ds) :
    numeral i = trimZeros ds := by
  rw [h.eq_value hds, numeral, if_neg (by omega), Int.natAbs_natCast, digits_value hds.2]

end CondLang.Decimal
