import CondLang.Expr.Text
import CondLang.Proofs.Scanning
import Mathlib.Tactic.TFAE

/-! The canonical text of a tree and the trees that have one. Every text that compiles gives a tree
whose leaves can be written down, and the canonical text of such a tree compiles to it again. -/

namespace CondLang.Expr

def Printable : Expr → Prop
  | var name => IsName name.toList
  | int n => 0 ≤ n.toInt
  | str s => '"' ∉ s.toList
  | bool _ => True
  | unary _ e => e.Printable
  | binary _ l r => l.Printable ∧ r.Printable

def contents : Expr → List Content
  | var name => [(.symbol, name)]
  | int n => [(.intLiteral, String.ofList (Literal.int n))]
  | str s => [(.stringLiteral, String.ofList (Literal.str s))]
  | bool b => [(.booleanLiteral, String.ofList (Literal.bool b))]
  | unary op e => formContents (.unary op) e.contents
  | binary op l r => formContents (.binary op) (l.contents ++ r.contents)

theorem forms_contents (e : Expr) : Forms e.contents e := by
  induction e with
  | var name => exact forms_var name
  | int n =>
    apply forms_int
    rw [String.toList_ofList]
    exact Decimal.isNumeral_numeral n.toInt
  | str s =>
    have hread : String.ofList ((String.ofList (Literal.str s)).toList.drop 1).dropLast = s :=
      Literal.readStr_str s
    have hforms := forms_str (String.ofList (Literal.str s))
    rwa [hread] at hforms
  | bool b =>
    have htext : String.ofList (Literal.bool b) = if b then "true" else "false" := by
      cases b <;> decide
    rw [contents, htext]
    exact forms_bool b
  | unary op e ih => exact ih.unary op
  | binary op l r ihl ihr => exact ihl.binary op ihr

theorem isDigits_int {n : Int64} (h : 0 ≤ n.toInt) : Decimal.IsDigits (Literal.int n) := by
  rw [Literal.int, Decimal.numeral, if_neg (Int.not_lt.2 h)]
  exact Decimal.isDigits_digits _

theorem scans_textOnto {e : Expr} {tail : List Char} (h : e.Printable)
    (htail : Stops Char.isAlphanum tail) : Scans (e.textOnto tail) e.contents tail := by
  induction e generalizing tail with
  | var name =>
    have hscan := Scans.single (.symbol h htail) (by decide)
    rwa [String.ofList_toList] at hscan
  | int n =>
    have hdigit : Stops Char.isDigit tail := htail.mono fun _ => isAlphanum_of_isDigit
    exact .single (.int (isDigits_int h) hdigit) (by decide)
  | str s => exact .single (.string h tail) (by decide)
  | bool b => exact .single (.boolean b tail) (by decide)
  | unary op e ih => exact .form (.unary op) (ih h (stops_cons.2 (by decide)))
  | binary op l r ihl ihr =>
    have hright : Scans (r.textOnto (')' :: tail)) r.contents (')' :: tail) :=
      ihr h.2 (stops_cons.2 (by decide))
    have hleft : Scans (l.textOnto (' ' :: r.textOnto (')' :: tail))) l.contents _ :=
      ihl h.1 (stops_cons.2 (by decide))
    exact .form (.binary op) (hleft.trans (.blank (by decide) hright))

theorem scans_text {e : Expr} (h : e.Printable) : Scans e.text.toList e.contents [] := by
  rw [text, String.toList_ofList]
  exact scans_textOnto h (stops_nil _)

theorem printable_of_derives {ts : List Token} {i j : Nat} {e : Expr} (hts : FitKinds ts)
    (h : Derives ts i e j) : e.Printable := by
  induction h with
  | var ht hk =>
    obtain ⟨rest, hl⟩ := hts.isLexeme ht hk
    cases hl with
    | symbol hname => exact hname
  | int ht hk hn =>
    obtain ⟨rest, hl⟩ := hts.isLexeme ht hk
    cases hl with
    | int hdigits =>
      rw [Printable, hn.eq_value hdigits]
      exact Int.natCast_nonneg _
  | bool => trivial
  | @str i t ht hk =>
    obtain ⟨rest, hl⟩ := hts.isLexeme ht hk
    -- The text has to be a variable before the shape of a string can be matched with it.
    generalize t.text.toList = cs at hl
    cases hl with
    | @string body hbody =>
      rw [Printable, String.toList_ofList]
      simpa using hbody
  | unary _ _ _ ih => exact ih
  | binary _ _ _ _ ihl ihr => exact ⟨ihl, ihr⟩

theorem printable_of_compile {s : String} {e : Expr} (h : Condition.compile s = .ok e) :
    e.Printable := by
  obtain ⟨n, hparse⟩ := compile_eq_ok_iff_parse.1 h
  exact printable_of_derives (fitKinds_lex s) (parse_eq_ok.1 hparse).1

/-- Printing and compiling are inverse to each other on the printable trees, and on no others. -/
theorem printable_tfae (e : Expr) :
    [e.Printable,
      (lex e.text).isTerminated = true ∧
        parse (lex e.text).toList = .ok ⟨e, (lex e.text).length - 1⟩,
      ∃ s, Condition.compile s = .ok e].TFAE := by
  tfae_have 1 → 2 := by
    intro h
    have hscan := scans_text h
    rw [hscan.length_lex, Nat.add_sub_cancel]
    exact ⟨hscan.isTerminated, parse_lex hscan e.forms_contents⟩
  tfae_have 2 → 3 := fun h => ⟨e.text, compile_eq_ok_iff_parse.2 ⟨_, h.2⟩⟩
  tfae_have 3 → 1 := fun ⟨_, h⟩ => printable_of_compile h
  tfae_finish

end CondLang.Expr
