import CondLang.Proofs.Literal
import CondLang.Proofs.Span
import CondLang.Token.Lexeme

/-! Which texts the tokens of each kind have, and what may stand behind them. This determines the
lexeme of a text. -/

namespace CondLang

def IsName : List Char → Prop
  | [] => False
  | c :: cs =>
    c.isAlpha = true ∧ (∀ d ∈ cs, d.isAlphanum = true) ∧ ∀ b, ¬Literal.bool b <+: c :: cs

-- The characters of the name are looked through, never all the characters there are.
instance : DecidablePred IsName
  | [] => inferInstanceAs (Decidable False)
  | c :: cs =>
    decidable_of_iff (c.isAlpha = true ∧ cs.all Char.isAlphanum = true ∧
      ∀ b, ¬Literal.bool b <+: c :: cs) (by rw [List.all_eq_true, IsName])

/-- This text is a token of this kind where these characters stand behind it. -/
inductive IsLexeme : TokenKind → List Char → List Char → Prop
  | leftParen (rest : List Char) : IsLexeme .leftParen ['('] rest
  | rightParen (rest : List Char) : IsLexeme .rightParen [')'] rest
  | symbol {text rest : List Char} (h : IsName text) (hrest : Stops Char.isAlphanum rest) :
    IsLexeme .symbol text rest
  | boolean (b : Bool) (rest : List Char) : IsLexeme .booleanLiteral (Literal.bool b) rest
  | int {text rest : List Char} (h : Decimal.IsDigits text) (hrest : Stops Char.isDigit rest) :
    IsLexeme .intLiteral text rest
  | string {body : List Char} (h : '"' ∉ body) (rest : List Char) :
    IsLexeme .stringLiteral ('"' :: body ++ ['"']) rest
  | endOfInput : IsLexeme .endOfInput [] []

theorem isAlphanum_of_mem_bool {b : Bool} {c : Char} (h : c ∈ Literal.bool b) :
    c.isAlphanum = true := by
  have hall : ∀ b, (Literal.bool b).all Char.isAlphanum = true := by decide
  exact List.all_eq_true.1 (hall b) c h

theorem IsName.isAlphanum {cs : List Char} (h : IsName cs) : ∀ c ∈ cs, c.isAlphanum = true := by
  cases cs with
  | nil => exact h.elim
  | cons c cs => exact List.forall_mem_cons.2 ⟨isAlphanum_of_isAlpha h.1, h.2.1⟩

theorem IsName.not_bool_prefix {cs : List Char} (h : IsName cs) (b : Bool) :
    ¬Literal.bool b <+: cs := by
  cases cs with
  | nil => exact h.elim
  | cons c cs => exact h.2.2 b

theorem not_bool_prefix_append {text rest : List Char} {b : Bool}
    (h : ¬Literal.bool b <+: text) (hrest : Stops Char.isAlphanum rest) :
    ¬Literal.bool b <+: text ++ rest := by
  intro hb
  rcases List.prefix_or_prefix_of_prefix hb (List.prefix_append text rest) with hpre | hpre
  · exact h hpre
  -- Else the literal is longer than the word, and a letter of it stands where the word stops.
  obtain ⟨tail, htail⟩ := hpre
  rw [← htail, List.prefix_append_right_inj] at hb
  cases tail with
  | nil =>
    rw [List.append_nil] at htail
    exact h (htail ▸ List.prefix_rfl)
  | cons d tail =>
    obtain ⟨more, rfl⟩ := hb
    have hd : d ∈ Literal.bool b := htail ▸ List.mem_append_right text List.mem_cons_self
    have hstop : d.isAlphanum = false := stops_cons.1 hrest
    rw [isAlphanum_of_mem_bool hd] at hstop
    exact Bool.noConfusion hstop

theorem wordLexeme_eq (cs : List Char) :
    (∃ b rest, cs = Literal.bool b ++ rest ∧
      wordLexeme cs = ⟨.booleanLiteral, Literal.bool b, rest⟩) ∨
    (∀ b, ¬Literal.bool b <+: cs) ∧
      wordLexeme cs = ⟨.symbol, cs.takeWhile Char.isAlphanum, cs.dropWhile Char.isAlphanum⟩ := by
  unfold wordLexeme
  split
  · next htrue =>
    obtain ⟨rest, rfl⟩ := List.isPrefixOf_iff_prefix.1 htrue
    exact .inl ⟨true, rest, rfl, rfl⟩
  split
  · next hfalse =>
    obtain ⟨rest, rfl⟩ := List.isPrefixOf_iff_prefix.1 hfalse
    exact .inl ⟨false, rest, rfl, rfl⟩
  · next htrue hfalse =>
    rw [List.isPrefixOf_iff_prefix] at htrue hfalse
    exact .inr ⟨Bool.forall_bool.2 ⟨hfalse, htrue⟩, rfl⟩

theorem isLexeme_wordLexeme {c : Char} {cs : List Char} (hc : c.isAlpha = true) :
    IsLexeme (wordLexeme (c :: cs)).kind (wordLexeme (c :: cs)).text
      (wordLexeme (c :: cs)).rest := by
  rcases wordLexeme_eq (c :: cs) with ⟨b, rest, -, hword⟩ | ⟨hbool, hword⟩
  · rw [hword]
    exact .boolean b rest
  · rw [hword]
    have hname : IsName ((c :: cs).takeWhile Char.isAlphanum) := by
      have hprefix := List.takeWhile_prefix (l := c :: cs) Char.isAlphanum
      rw [List.takeWhile_cons_of_pos (isAlphanum_of_isAlpha hc)] at hprefix ⊢
      exact ⟨hc, fun _ => List.mem_takeWhile_imp, fun b hb => hbool b (hb.trans hprefix)⟩
    exact .symbol hname (stops_dropWhile _ _)

theorem isLexeme_stringLexeme? {cs : List Char} {l : Lexeme} (h : stringLexeme? cs = some l) :
    IsLexeme l.kind l.text l.rest := by
  unfold stringLexeme? at h
  split at h
  · cases h
  · next quote rest hrest =>
    cases h
    have hquote : quote = '"' := by
      have hstop := stops_dropWhile (· ≠ '"') cs
      rw [hrest, stops_cons] at hstop
      simpa using hstop
    subst hquote
    refine .string (fun hmem => ?_) rest
    have hne := List.mem_takeWhile_imp hmem
    simp at hne

theorem isLexeme_lexeme? {cs : List Char} {l : Lexeme} (h : lexeme? cs = some l) :
    IsLexeme l.kind l.text l.rest := by
  cases cs with
  | nil => cases h; exact .endOfInput
  | cons c cs =>
    simp only [lexeme?] at h
    split at h
    · cases h; exact .leftParen _
    split at h
    · cases h; exact .rightParen _
    split at h
    · exact isLexeme_stringLexeme? h
    split at h
    · next hc => cases h; exact isLexeme_wordLexeme hc
    split at h
    · next hc =>
      cases h
      have hne : (digitsLexeme (c :: cs)).text ≠ [] := by simp [digitsLexeme, hc]
      exact .int ⟨hne, fun _ => List.mem_takeWhile_imp⟩ (stops_dropWhile _ _)
    · cases h

theorem wordLexeme_of_isName {text rest : List Char} (h : IsName text)
    (hrest : Stops Char.isAlphanum rest) : wordLexeme (text ++ rest) = ⟨.symbol, text, rest⟩ := by
  rcases wordLexeme_eq (text ++ rest) with ⟨b, more, heq, -⟩ | ⟨-, hword⟩
  · exact absurd ⟨more, heq.symm⟩ (not_bool_prefix_append (h.not_bool_prefix b) hrest)
  · rw [hword, takeWhile_append_of_stops h.isAlphanum hrest,
      dropWhile_append_of_stops h.isAlphanum hrest]

theorem digitsLexeme_of_isDigits {text rest : List Char} (h : Decimal.IsDigits text)
    (hrest : Stops Char.isDigit rest) :
    digitsLexeme (text ++ rest) = ⟨.intLiteral, text, rest⟩ := by
  rw [digitsLexeme, takeWhile_append_of_stops h.2 hrest, dropWhile_append_of_stops h.2 hrest]

theorem stringLexeme?_of_not_mem {body : List Char} (h : '"' ∉ body) (rest : List Char) :
    stringLexeme? (body ++ '"' :: rest) = some ⟨.stringLiteral, '"' :: body ++ ['"'], rest⟩ := by
  have hbody : ∀ c ∈ body, decide (c ≠ '"') = true := by
    intro c hc
    rw [decide_eq_true_eq]
    exact fun heq => h (heq ▸ hc)
  have hstop : Stops (· ≠ '"') ('"' :: rest) := stops_cons.2 (by decide)
  rw [stringLexeme?, dropWhile_append_of_stops hbody hstop,
    takeWhile_append_of_stops hbody hstop]

theorem ne_of_class {p : Char → Bool} {c d : Char} (hc : p c = true) (hd : p d = false) :
    c ≠ d := by
  rintro rfl
  rw [hc] at hd
  exact Bool.noConfusion hd

theorem lexeme?_of_isAlpha {c : Char} (hc : c.isAlpha = true) (cs : List Char) :
    lexeme? (c :: cs) = some (wordLexeme (c :: cs)) := by
  have hopen : c ≠ '(' := ne_of_class hc (by decide)
  have hclose : c ≠ ')' := ne_of_class hc (by decide)
  have hquote : c ≠ '"' := ne_of_class hc (by decide)
  rw [lexeme?, if_neg hopen, if_neg hclose, if_neg hquote, if_pos hc]

theorem lexeme?_of_isDigit {c : Char} (hc : c.isDigit = true) (cs : List Char) :
    lexeme? (c :: cs) = some (digitsLexeme (c :: cs)) := by
  have hopen : c ≠ '(' := ne_of_class hc (by decide)
  have hclose : c ≠ ')' := ne_of_class hc (by decide)
  have hquote : c ≠ '"' := ne_of_class hc (by decide)
  have halpha : ¬c.isAlpha = true := by
    rw [isAlpha_eq_false_of_isDigit hc]
    exact Bool.false_ne_true
  rw [lexeme?, if_neg hopen, if_neg hclose, if_neg hquote, if_neg halpha, if_pos hc]

theorem IsLexeme.lexeme? {kind : TokenKind} {text rest : List Char} (h : IsLexeme kind text rest) :
    lexeme? (text ++ rest) = some ⟨kind, text, rest⟩ := by
  cases h with
  | leftParen | rightParen | endOfInput => rfl
  | boolean b => cases b <;> rfl
  | symbol h hrest =>
    have hword := wordLexeme_of_isName h hrest
    cases text with
    | nil => exact h.elim
    | cons c cs =>
      rw [← hword]
      exact lexeme?_of_isAlpha h.1 (cs ++ rest)
  | int h hrest =>
    have hdigits := digitsLexeme_of_isDigits h hrest
    obtain ⟨c, more, rfl⟩ := List.exists_cons_of_ne_nil h.1
    rw [← hdigits]
    exact lexeme?_of_isDigit (h.2 c List.mem_cons_self) (more ++ rest)
  | string h rest =>
    rw [List.append_assoc]
    exact stringLexeme?_of_not_mem h rest

theorem lexeme?_eq_some_iff {cs text rest : List Char} {kind : TokenKind} :
    lexeme? cs = some ⟨kind, text, rest⟩ ↔ cs = text ++ rest ∧ IsLexeme kind text rest := by
  constructor
  · intro h
    exact ⟨(append_of_lexeme? h).symm, isLexeme_lexeme? h⟩
  · rintro ⟨rfl, h⟩
    exact h.lexeme?

theorem stringLexeme?_eq_none_iff {cs : List Char} : stringLexeme? cs = none ↔ '"' ∉ cs := by
  have hnil : cs.dropWhile (· ≠ '"') = [] ↔ '"' ∉ cs := by
    rw [List.dropWhile_eq_nil_iff]
    constructor
    · intro h hmem
      exact absurd rfl (of_decide_eq_true (h _ hmem))
    · intro h c hc
      rw [decide_eq_true_eq]
      exact fun heq => h (heq ▸ hc)
  rw [← hnil, stringLexeme?]
  cases cs.dropWhile (· ≠ '"') <;> simp

theorem lexeme?_eq_none_iff {cs : List Char} :
    lexeme? cs = none ↔ ∃ c rest, cs = c :: rest ∧
      (c = '"' ∧ '"' ∉ rest ∨
        c ≠ '"' ∧ c ≠ '(' ∧ c ≠ ')' ∧ c.isAlpha = false ∧ c.isDigit = false) := by
  constructor
  · intro h
    cases cs with
    | nil => cases h
    | cons c cs =>
      refine ⟨c, cs, rfl, ?_⟩
      simp only [lexeme?] at h
      split at h
      · cases h
      split at h
      · cases h
      split at h
      · next hquote => exact .inl ⟨hquote, stringLexeme?_eq_none_iff.1 h⟩
      split at h
      · cases h
      split at h
      · cases h
      · next hopen hclose hquote halpha hdigit =>
        rw [Bool.not_eq_true] at halpha hdigit
        exact .inr ⟨hquote, hopen, hclose, halpha, hdigit⟩
  · rintro ⟨c, rest, rfl, ⟨rfl, hrest⟩ | ⟨hquote, hopen, hclose, halpha, hdigit⟩⟩
    · exact stringLexeme?_eq_none_iff.2 hrest
    · rw [← Bool.not_eq_true] at halpha hdigit
      rw [lexeme?, if_neg hopen, if_neg hclose, if_neg hquote, if_neg halpha, if_neg hdigit]

theorem IsLexeme.of_stops {kind : TokenKind} {text rest rest' : List Char}
    (h : IsLexeme kind text rest) (hkind : kind ≠ .endOfInput)
    (hrest' : ∀ p : Char → Bool, (∀ c, p c = true → c.isAlphanum = true) →
      Stops p rest → Stops p rest') : IsLexeme kind text rest' := by
  cases h with
  | leftParen => exact .leftParen _
  | rightParen => exact .rightParen _
  | boolean b => exact .boolean b _
  | string h => exact .string h _
  | symbol h hrest => exact .symbol h (hrest' _ (fun _ hc => hc) hrest)
  | int h hrest => exact .int h (hrest' _ (fun _ => isAlphanum_of_isDigit) hrest)
  | endOfInput => exact absurd rfl hkind

theorem IsLexeme.append {kind : TokenKind} {text rest more : List Char}
    (h : IsLexeme kind text rest) (hkind : kind ≠ .endOfInput)
    (hmore : rest = [] → Stops Char.isAlphanum more) : IsLexeme kind text (rest ++ more) :=
  h.of_stops hkind fun _ hp hrest => hrest.append fun hnil => (hmore hnil).mono hp

theorem IsLexeme.eq_nil {text rest : List Char} (h : IsLexeme .endOfInput text rest) :
    text = [] ∧ rest = [] := by
  cases h
  exact ⟨rfl, rfl⟩

theorem IsLexeme.text_eq_nil_iff {kind : TokenKind} {text rest : List Char}
    (h : IsLexeme kind text rest) : text = [] ↔ kind = .endOfInput := by
  cases h with
  | symbol h => cases text with
    | nil => exact h.elim
    | cons => simp
  | boolean b => cases b <;> decide
  | int h => simp [h.1]
  | leftParen | rightParen | string | endOfInput => simp

theorem IsLexeme.stops_blank {kind : TokenKind} {text rest : List Char}
    (h : IsLexeme kind text rest) : Stops isBlank (text ++ rest) := by
  cases h with
  | leftParen | rightParen | string => exact stops_cons.2 (by decide)
  | symbol h => cases text with
    | nil => exact h.elim
    | cons c cs => exact stops_cons.2 (isBlank_eq_false_of_isAlphanum (isAlphanum_of_isAlpha h.1))
  | boolean b => cases b <;> exact stops_cons.2 (by decide)
  | int h =>
    obtain ⟨c, cs, rfl⟩ := List.exists_cons_of_ne_nil h.1
    have hc := isAlphanum_of_isDigit (h.2 c List.mem_cons_self)
    exact stops_cons.2 (isBlank_eq_false_of_isAlphanum hc)
  | endOfInput => exact stops_nil _

theorem IsLexeme.last_not_blank {kind : TokenKind} {text rest : List Char}
    (h : IsLexeme kind text rest) : ∀ c ∈ text.getLast?, isBlank c = false := by
  intro c hc
  have hmem : c ∈ text := List.mem_of_getLast? hc
  cases h with
  | leftParen | rightParen => cases List.mem_singleton.1 hmem; decide
  | symbol h => exact isBlank_eq_false_of_isAlphanum (h.isAlphanum c hmem)
  | boolean b => exact isBlank_eq_false_of_isAlphanum (isAlphanum_of_mem_bool hmem)
  | int h => exact isBlank_eq_false_of_isAlphanum (isAlphanum_of_isDigit (h.2 c hmem))
  | string h =>
    rw [List.getLast?_concat] at hc
    cases hc
    decide
  | endOfInput => cases hmem

end CondLang
