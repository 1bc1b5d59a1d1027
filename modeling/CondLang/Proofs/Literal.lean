import CondLang.Text.Literal

/-! Which texts are numerals, and of which integers. -/

namespace CondLang.Decimal

def IsDigits (cs : List Char) : Prop :=
  cs ≠ [] ∧ ∀ c ∈ cs, c.isDigit = true

/-- At most one sign, then one or more digits, and what they stand for. -/
inductive IsNumeral : List Char → Int → Prop
  | plain {ds : List Char} (h : IsDigits ds) : IsNumeral ds (value ds)
  | plus {ds : List Char} (h : IsDigits ds) : IsNumeral ('+' :: ds) (value ds)
  | minus {ds : List Char} (h : IsDigits ds) : IsNumeral ('-' :: ds) (-(value ds : Int))

theorem isDigits_digits (n : Nat) : IsDigits (digits n) :=
  ⟨digits_ne_nil n, fun _ h => isDigit_of_mem_digits h⟩

theorem magnitude?_eq_some_iff {cs : List Char} {n : Nat} :
    magnitude? cs = some n ↔ IsDigits cs ∧ value cs = n := by
  simp only [magnitude?, IsDigits, List.all_eq_true, Option.ite_none_right_eq_some,
    Option.some.injEq]

theorem IsDigits.read? {ds : List Char} (h : IsDigits ds) : read? ds = some (value ds : Int) := by
  obtain ⟨c, cs, rfl⟩ := List.exists_cons_of_ne_nil h.1
  have hc : c.isDigit = true := h.2 c List.mem_cons_self
  have hm : magnitude? (c :: cs) = some (value (c :: cs)) := magnitude?_eq_some_iff.2 ⟨h, rfl⟩
  have hminus : c ≠ '-' := by
    rintro rfl
    exact absurd hc (by decide)
  have hplus : c ≠ '+' := by
    rintro rfl
    exact absurd hc (by decide)
  unfold Decimal.read?
  split
  · next heq => exact absurd (List.cons.inj heq).1 hminus
  · next heq => exact absurd (List.cons.inj heq).1 hplus
  · rw [hm]
    rfl

theorem read?_eq_some_iff {cs : List Char} {n : Int} : read? cs = some n ↔ IsNumeral cs n := by
  constructor
  · intro h
    unfold Decimal.read? at h
    split at h
    all_goals
      obtain ⟨m, hm, rfl⟩ := Option.map_eq_some_iff.1 h
      obtain ⟨hd, rfl⟩ := magnitude?_eq_some_iff.1 hm
    · exact .minus hd
    · exact .plus hd
    · exact .plain hd
  · intro h
    cases h with
    | plain h => exact h.read?
    | plus h | minus h =>
      rw [Decimal.read?, magnitude?_eq_some_iff.2 ⟨h, rfl⟩]
      rfl

theorem toInt64?_eq_some_iff {n : Int} {k : Int64} : toInt64? n = some k ↔ k.toInt = n := by
  constructor
  · intro h
    rw [toInt64?, Option.ite_none_right_eq_some, Option.some.injEq] at h
    obtain ⟨⟨hlow, hhigh⟩, rfl⟩ := h
    rw [Int64.toInt_minValue] at hlow
    rw [Int64.toInt_maxValue] at hhigh
    exact Int64.toInt_ofInt_of_le hlow (Int.lt_of_le_sub_one hhigh)
  · rintro rfl
    exact toInt64?_toInt k

theorem readInt64?_eq_some_iff {cs : List Char} {k : Int64} :
    readInt64? cs = some k ↔ IsNumeral cs k.toInt := by
  rw [readInt64?, Option.bind_eq_some_iff]
  constructor
  · rintro ⟨n, hn, hk⟩
    rw [toInt64?_eq_some_iff.1 hk]
    exact read?_eq_some_iff.1 hn
  · intro h
    exact ⟨k.toInt, read?_eq_some_iff.2 h, toInt64?_toInt k⟩

theorem IsNumeral.eq_value {cs : List Char} {n : Int} (h : IsNumeral cs n) (hcs : IsDigits cs) :
    n = value cs := by
  cases h with
  | plain => rfl
  | plus => exact absurd (hcs.2 _ List.mem_cons_self) (by decide)
  | minus => exact absurd (hcs.2 _ List.mem_cons_self) (by decide)

theorem isNumeral_numeral (n : Int) : IsNumeral (numeral n) n :=
  read?_eq_some_iff.1 (read?_numeral n)

end CondLang.Decimal

namespace CondLang.Literal

theorem readBool?_eq_some_iff {text : String} {b : Bool} :
    readBool? text = some b ↔ text = if b then "true" else "false" := by
  constructor
  · intro h
    unfold readBool? at h
    split at h
    · next ht => cases h; exact ht
    split at h
    · next hf => cases h; exact hf
    · cases h
  · rintro rfl
    cases b <;> rfl

theorem readBool?_eq_none_iff {text : String} :
    readBool? text = none ↔ text ≠ "true" ∧ text ≠ "false" := by
  simp only [Option.eq_none_iff_forall_ne_some, ne_eq, readBool?_eq_some_iff, Bool.forall_bool,
    Bool.false_eq_true, ↓reduceIte]
  exact and_comm

theorem readInt?_eq_none_iff {text : String} :
    readInt? text = none ↔ ∀ n : Int64, ¬Decimal.IsNumeral text.toList n.toInt := by
  simp only [readInt?, Option.eq_none_iff_forall_ne_some, ne_eq, Decimal.readInt64?_eq_some_iff]

end CondLang.Literal
