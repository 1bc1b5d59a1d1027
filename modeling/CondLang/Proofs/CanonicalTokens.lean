import CondLang.Proofs.Digits
import CondLang.Proofs.PrintedForm

/-! The canonical text of a tree has the tokens of the text that the tree was read from, one for
one, save that an integer is written without leading zeros. -/

namespace CondLang

def Token.canonical (t : Token) : Content :=
  (t.kind, if t.kind = .intLiteral then String.ofList (Decimal.trimZeros t.text.toList) else t.text)

variable {ts : List Token} {i j : Nat} {t : Token} {e : Expr}

theorem map_drop_canonical (ht : ts[i]? = some t) :
    (ts.drop i).map Token.canonical = t.canonical :: (ts.drop (i + 1)).map Token.canonical := by
  obtain ⟨hi, rfl⟩ := List.getElem?_eq_some_iff.1 ht
  rw [List.drop_eq_getElem_cons hi, List.map_cons]

theorem Token.canonical_of_kind {kind : TokenKind} (hk : t.kind = kind)
    (hkind : kind ≠ .intLiteral) : t.canonical = (kind, t.text) := by
  rw [canonical, hk, if_neg hkind]

theorem canonical_int {k : Int64} (hts : FitKinds ts) (ht : ts[i]? = some t)
    (hk : t.kind = .intLiteral) (hn : Decimal.IsNumeral t.text.toList k.toInt) :
    t.canonical = (.intLiteral, String.ofList (Literal.int k)) := by
  obtain ⟨rest, hl⟩ := hts.isLexeme ht hk
  cases hl with
  | int hdigits =>
    rw [Token.canonical, hk, if_pos rfl, Literal.int, Decimal.numeral_of_isNumeral hn hdigits]

theorem canonical_str (hts : FitKinds ts) (ht : ts[i]? = some t) (hk : t.kind = .stringLiteral) :
    t.canonical = (.stringLiteral, String.ofList
      (Literal.str (String.ofList (t.text.toList.drop 1).dropLast))) := by
  obtain ⟨rest, hl⟩ := hts.isLexeme ht hk
  have htext : t.text = String.ofList t.text.toList := String.ofList_toList.symm
  rw [Token.canonical_of_kind hk (by decide), htext]
  generalize t.text.toList = cs at hl
  cases hl with
  | string => simp [Literal.str]

theorem exists_canonical {kind : TokenKind} (text : String) (hts : FitKinds ts)
    (h : HasKind ts i kind) (hkind : kind ≠ .intLiteral)
    (htext : ∀ cs rest, IsLexeme kind cs rest → String.ofList cs = text) :
    ∃ t, ts[i]? = some t ∧ t.canonical = (kind, text) := by
  obtain ⟨t, ht, hk⟩ := h
  obtain ⟨rest, hl⟩ := hts.isLexeme ht hk
  have hsame := htext _ _ hl
  rw [String.ofList_toList] at hsame
  exact ⟨t, ht, hsame ▸ Token.canonical_of_kind hk hkind⟩

theorem canonical_form {op : Operator} {ws : List Content} (hts : FitKinds ts)
    (hopen : OpensForm ts i op) (hclose : HasKind ts j .rightParen)
    (h : (ts.drop (i + 2)).map Token.canonical = ws ++ (ts.drop j).map Token.canonical) :
    (ts.drop i).map Token.canonical =
      formContents op ws ++ (ts.drop (j + 1)).map Token.canonical := by
  obtain ⟨hparen, head, hhead, hk, hop⟩ := hopen
  obtain ⟨o, ho, hopened⟩ := exists_canonical "(" hts hparen (by decide) (by
    intro _ _ hl
    cases hl
    rfl)
  obtain ⟨c, hc, hclosed⟩ := exists_canonical ")" hts hclose (by decide) (by
    intro _ _ hl
    cases hl
    rfl)
  rw [map_drop_canonical ho, map_drop_canonical hhead, h, map_drop_canonical hc, hopened, hclosed,
    Token.canonical_of_kind hk (by decide), hop]
  simp [formContents]

theorem Derives.canonical_eq (hts : FitKinds ts) (h : Derives ts i e j) :
    (ts.drop i).map Token.canonical = e.contents ++ (ts.drop j).map Token.canonical := by
  induction h with
  | var ht hk =>
    rw [map_drop_canonical ht, Token.canonical_of_kind hk (by decide)]
    rfl
  | int ht hk hn =>
    rw [map_drop_canonical ht, canonical_int hts ht hk hn]
    rfl
  | @bool i t b ht hk hb =>
    rw [map_drop_canonical ht, Token.canonical_of_kind hk (by decide), hb]
    cases b <;> rfl
  | str ht hk =>
    rw [map_drop_canonical ht, canonical_str hts ht hk]
    rfl
  | unary hopen _ hclose ih => exact canonical_form hts hopen hclose ih
  | @binary i j k op l r hopen _ _ hclose ihl ihr =>
    rw [ihr, ← List.append_assoc] at ihl
    exact canonical_form hts hopen hclose ihl

theorem map_canonical_lex {s : String} (h : Condition.compile s = .ok e) :
    (lex s).toList.map Token.canonical = e.contents ++ [(.endOfInput, "")] := by
  obtain ⟨n, hparse⟩ := compile_eq_ok_iff_parse.1 h
  obtain ⟨hderives, hend⟩ := parse_eq_ok.1 hparse
  obtain ⟨ws, hscan, -⟩ := compile_eq_ok_iff.1 h
  obtain ⟨t, ht, hlast⟩ := exists_canonical "" (fitKinds_lex s) hend (by decide) (by
    intro _ _ hl
    cases hl
    rfl)
  have hlength : (lex s).toList.length = n + 1 := by
    rw [hscan.index_endOfInput hend]
    exact hscan.length_lex
  have hcanonical := hderives.canonical_eq (fitKinds_lex s)
  rwa [List.drop_zero, map_drop_canonical ht, hlast, List.drop_eq_nil_of_le (Nat.le_of_eq hlength),
    List.map_nil] at hcanonical

/-- The canonical text of a condition has its tokens, with integers written without leading zeros;
so conditions that compile to one tree have these tokens in common. -/
theorem canonical_text_keeps_tokens {s : String} (h : Condition.compile s = .ok e) :
    (lex e.text).toList.map Token.content = (lex s).toList.map Token.canonical ∧
      ∀ s', Condition.compile s' = .ok e →
        (lex s').toList.map Token.canonical = (lex s).toList.map Token.canonical := by
  have hscan := Expr.scans_text (Expr.printable_of_compile h)
  rw [hscan.map_content_lex, map_canonical_lex h]
  exact ⟨rfl, fun s' h' => map_canonical_lex h'⟩

theorem canonical_text_keeps_tokens_glued :
    Condition.compile "( eq 0012ab)" = .ok (.binary .eq (.int 12) (.var "ab")) ∧
      (Expr.binary .eq (.int 12) (.var "ab")).text = "(eq 12 ab)" ∧
      (lex "(eq 12 ab)").toList.map Token.content =
        (lex "( eq 0012ab)").toList.map Token.canonical := by
  have hcompile : Condition.compile "( eq 0012ab)" = .ok (.binary .eq (.int 12) (.var "ab")) := by
    decide +kernel
  have htext : (Expr.binary .eq (.int 12) (.var "ab")).text = "(eq 12 ab)" := by decide +kernel
  exact ⟨hcompile, htext, htext ▸ (canonical_text_keeps_tokens hcompile).1⟩

end CondLang
