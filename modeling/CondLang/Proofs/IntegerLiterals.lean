import CondLang.Expr.Text
import CondLang.Proofs.OutermostError
import CondLang.Proofs.Rejection
import Mathlib.Data.Nat.Digits.Defs

/-! A numeral is refused just when no machine integer has its exact value. So leading zeros never
make it too long, and the least integer can be written, though its negative cannot. -/

namespace CondLang

namespace Decimal

def placeValue (ds : List Char) : Nat :=
  Nat.ofDigits 10 (ds.reverse.map fun c => c.toNat - '0'.toNat)

def Denotes (text : List Char) (n : Int) : Prop :=
  ∃ ds, IsDigits ds ∧ ((text = ds ∨ text = '+' :: ds) ∧ n = placeValue ds ∨
    text = '-' :: ds ∧ n = -(placeValue ds : Int))

def InRange (n : Int) : Prop :=
  -2 ^ 63 ≤ n ∧ n ≤ 2 ^ 63 - 1

variable {text : List Char} {n : Int}

theorem value_eq_placeValue (ds : List Char) : value ds = placeValue ds := by
  induction ds using List.reverseRecOn with
  | nil => rfl
  | append_singleton ds c ih =>
    have hvalue : value (ds ++ [c]) = 10 * value ds + (c.toNat - '0'.toNat) :=
      Nat.ofDigitChars_append 0
    have hplace : placeValue (ds ++ [c]) = (c.toNat - '0'.toNat) + 10 * placeValue ds := by
      rw [placeValue, List.reverse_append, List.reverse_singleton, List.singleton_append,
        List.map_cons, Nat.ofDigits_cons]
      rfl
    rw [hvalue, hplace, ih, Nat.add_comm]

theorem isNumeral_iff_denotes : IsNumeral text n ↔ Denotes text n := by
  constructor
  · intro h
    cases h with
    | plain h => exact ⟨_, h, .inl ⟨.inl rfl, by rw [value_eq_placeValue]⟩⟩
    | plus h => exact ⟨_, h, .inl ⟨.inr rfl, by rw [value_eq_placeValue]⟩⟩
    | minus h => exact ⟨_, h, .inr ⟨rfl, by rw [value_eq_placeValue]⟩⟩
  · rintro ⟨ds, h, ⟨rfl | rfl, rfl⟩ | ⟨rfl, rfl⟩⟩
    all_goals rw [← value_eq_placeValue]
    · exact .plain h
    · exact .plus h
    · exact .minus h

theorem inRange_iff_exists : InRange n ↔ ∃ k : Int64, k.toInt = n := by
  constructor
  · rintro ⟨hlow, hhigh⟩
    exact ⟨Int64.ofInt n, Int64.toInt_ofInt_of_le hlow (Int.lt_of_le_sub_one hhigh)⟩
  · rintro ⟨k, rfl⟩
    have hlow := k.minValue_le_toInt
    have hhigh := k.toInt_le
    rw [Int64.toInt_minValue] at hlow
    rw [Int64.toInt_maxValue] at hhigh
    exact ⟨hlow, hhigh⟩

end Decimal

open Decimal

section Parse
variable {t last : Token} {n : Int64}

theorem parse_of_isNumeral (ht : t.kind = .intLiteral) (hlast : last.kind = .endOfInput)
    (hn : IsNumeral t.text.toList n.toInt) : parse [t, last] = .ok ⟨.int n, 1⟩ := by
  have hderives : Derives [t, last] 0 (.int n) 1 := .int rfl ht hn
  exact parse_eq_ok.2 ⟨hderives, last, rfl, hlast⟩

theorem parse_of_not_isNumeral (ht : t.kind = .intLiteral)
    (hn : ∀ n : Int64, ¬IsNumeral t.text.toList n.toInt) (ts : List Token) :
    parse (t :: ts) = .error ⟨.integerOutOfRange t.text, 0⟩ := by
  have hrefused : Refused (t :: ts) 0 ⟨.integerOutOfRange t.text, 0⟩ := .noInteger rfl ht hn
  exact parse_of_refused hrefused

theorem parse_eq_ok_iff_denotes (ht : t.kind = .intLiteral) (hlast : last.kind = .endOfInput)
    {e : Expr} {next : Nat} : parse [t, last] = .ok ⟨e, next⟩ ↔
      next = 1 ∧ ∃ n : Int64, e = .int n ∧ Denotes t.text.toList n.toInt := by
  simp only [← isNumeral_iff_denotes]
  constructor
  · intro h
    by_cases hn : ∃ n : Int64, IsNumeral t.text.toList n.toInt
    · obtain ⟨n, hn⟩ := hn
      cases (parse_of_isNumeral ht hlast hn).symm.trans h
      exact ⟨rfl, n, rfl, hn⟩
    · cases (parse_of_not_isNumeral ht (not_exists.1 hn) [last]).symm.trans h
  · rintro ⟨rfl, n, rfl, hn⟩
    exact parse_of_isNumeral ht hlast hn

end Parse

theorem exists_tokens_of_isDigits {d : String} (hd : IsDigits d.toList) :
    ∃ t last, (lex d).toList = [t, last] ∧ t.kind = .intLiteral ∧ t.text = d ∧
      last.kind = .endOfInput := by
  have hscan : Scans d.toList [(.intLiteral, d)] [] := by
    have hsingle := Scans.single (.int hd (stops_nil _)) (by decide)
    rwa [List.append_nil, String.ofList_toList] at hsingle
  have hcontents := hscan.map_content_lex
  rw [List.singleton_append, List.map_eq_cons_iff] at hcontents
  obtain ⟨t, ts, hts, ht, hrest⟩ := hcontents
  rw [List.map_eq_singleton_iff] at hrest
  obtain ⟨last, rfl, hlast⟩ := hrest
  exact ⟨t, last, hts, congrArg Prod.fst ht, congrArg Prod.snd ht, congrArg Prod.fst hlast⟩

theorem compile_of_isDigits {d : String} (hd : IsDigits d.toList) {n : Int64}
    (hn : n.toInt = placeValue d.toList) : Condition.compile d = .ok (.int n) := by
  obtain ⟨t, last, hts, ht, htext, hlast⟩ := exists_tokens_of_isDigits hd
  have hnumeral : IsNumeral t.text.toList n.toInt := by
    rw [htext, hn, ← value_eq_placeValue]
    exact .plain hd
  refine compile_eq_ok_iff_parse.2 ⟨1, ?_⟩
  rw [hts, parse_of_isNumeral ht hlast hnumeral]

theorem compile_of_isDigits_of_lt {d : String} (hd : IsDigits d.toList)
    (hlarge : 2 ^ 63 - 1 < placeValue d.toList) :
    Condition.compile d = .error ⟨.integerOutOfRange d, 0⟩ := by
  obtain ⟨t, last, hts, ht, htext, -⟩ := exists_tokens_of_isDigits hd
  have hnone : ∀ n : Int64, ¬IsNumeral t.text.toList n.toInt := by
    intro n hn
    rw [htext] at hn
    have hvalue := hn.eq_value hd
    obtain ⟨-, hhigh⟩ := inRange_iff_exists.2 ⟨n, rfl⟩
    rw [hvalue, value_eq_placeValue] at hhigh
    omega
  rw [Condition.compile_eq_error_iff, hts, parse_of_not_isNumeral ht hnone, htext]

theorem toList_text_int (n : Int64) : (Expr.int n).text.toList = numeral n.toInt := by
  rw [Expr.text, Expr.textOnto, List.append_nil, String.toList_ofList]
  rfl

/-- Digits make a condition, which is their value, unless this is above all machine integers. A
token for an integer is read if its text has a value within the limits, and else refused; and an
integer that is printed reads back. -/
theorem integer_literals_exact :
    (∀ d : String, IsDigits d.toList →
      (placeValue d.toList ≤ 2 ^ 63 - 1 →
        ∃ n : Int64, n.toInt = placeValue d.toList ∧ Condition.compile d = .ok (.int n)) ∧
      (¬placeValue d.toList ≤ 2 ^ 63 - 1 →
        Condition.compile d = .error ⟨.integerOutOfRange d, 0⟩)) ∧
    ∀ t last : Token, t.kind = .intLiteral → last.kind = .endOfInput →
      (∀ e next, parse [t, last] = .ok ⟨e, next⟩ ↔ next = 1 ∧ ∃ n : Int64, e = .int n ∧
        ∃ v, Denotes t.text.toList v ∧ InRange v ∧ n.toInt = v) ∧
      ((¬∃ v, Denotes t.text.toList v ∧ InRange v) →
        parse [t, last] = .error ⟨.integerOutOfRange t.text, 0⟩) ∧
      ∀ n : Int64, t.text = (Expr.int n).text → parse [t, last] = .ok ⟨.int n, 1⟩ := by
  refine ⟨fun d hd => ?_, fun t last ht hlast => ⟨fun e next => ?_, fun hnone => ?_, ?_⟩⟩
  · constructor
    · intro hle
      have hrange : InRange (placeValue d.toList) := ⟨by omega, by omega⟩
      obtain ⟨n, hn⟩ := inRange_iff_exists.1 hrange
      exact ⟨n, hn, compile_of_isDigits hd hn⟩
    · exact fun hlarge => compile_of_isDigits_of_lt hd (Nat.lt_of_not_le hlarge)
  · rw [parse_eq_ok_iff_denotes ht hlast]
    refine and_congr_right fun _ => exists_congr fun n => and_congr_right fun _ => ?_
    constructor
    · exact fun hn => ⟨n.toInt, hn, inRange_iff_exists.2 ⟨n, rfl⟩, rfl⟩
    · rintro ⟨v, hv, -, rfl⟩
      exact hv
  · refine parse_of_not_isNumeral ht (fun n hn => hnone ?_) [last]
    exact ⟨n.toInt, isNumeral_iff_denotes.1 hn, inRange_iff_exists.2 ⟨n, rfl⟩⟩
  · intro n htext
    refine parse_of_isNumeral ht hlast ?_
    rw [htext, toList_text_int]
    exact isNumeral_numeral n.toInt

example :
    parse [⟨.intLiteral, 0, 0, "-009223372036854775808"⟩, ⟨.endOfInput, 22, 0, ""⟩] =
        .ok ⟨.int Int64.minValue, 1⟩ ∧
      parse [⟨.intLiteral, 0, 0, "9223372036854775808"⟩, ⟨.endOfInput, 19, 0, ""⟩] =
        .error ⟨.integerOutOfRange "9223372036854775808", 0⟩ ∧
      parse [⟨.intLiteral, 0, 0, "-"⟩, ⟨.endOfInput, 1, 0, ""⟩] =
        .error ⟨.integerOutOfRange "-", 0⟩ := by
  decide +kernel

end CondLang
