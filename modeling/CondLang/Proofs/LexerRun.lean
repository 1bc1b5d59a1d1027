import CondLang.Lexer
import CondLang.Proofs.Derivation
import CondLang.Proofs.LexemeShape

/-! Runs of the lexer from any offset, and the induction by which texts are followed from token to
token. The offset shows in the places of the tokens, never in their contents. -/

namespace CondLang

variable {cs : List Char} {l : Lexeme}

def tokensAt (p : Nat) (cs : List Char) : List Token :=
  (Lexer.mk cs p false).run.1

def tokenOf (p : Nat) (cs : List Char) (l : Lexeme) : Token :=
  ⟨l.kind, p, byteLength (cs.takeWhile isBlank), String.ofList l.text⟩

theorem toList_lex (s : String) : (lex s).toList = tokensAt 0 s.toList := rfl

theorem stop_tokenOf (p : Nat) (cs : List Char) (l : Lexeme) :
    (tokenOf p cs l).stop = p + byteLength (cs.takeWhile isBlank) + byteLength l.text := by
  rw [Token.stop, Token.start, tokenOf, utf8ByteSize_eq_byteLength]

theorem toList_text_tokenOf (p : Nat) (cs : List Char) (l : Lexeme) :
    (tokenOf p cs l).text.toList = l.text :=
  String.toList_ofList

theorem next_of_none (h : lexeme? (cs.dropWhile isBlank) = none) (p : Nat) :
    (Lexer.mk cs p false).next =
      (none, ⟨cs.dropWhile isBlank, p + byteLength (cs.takeWhile isBlank), true⟩) := by
  simp only [Lexer.next, h, Bool.false_eq_true, ↓reduceIte]

theorem next_of_some (h : lexeme? (cs.dropWhile isBlank) = some l) (p : Nat) :
    (Lexer.mk cs p false).next =
      (some (tokenOf p cs l), ⟨l.rest, (tokenOf p cs l).stop, l.kind = .endOfInput⟩) := by
  rw [stop_tokenOf]
  simp only [Lexer.next, h, Bool.false_eq_true, ↓reduceIte, tokenOf]

theorem tokensAt_of_none (h : lexeme? (cs.dropWhile isBlank) = none) (p : Nat) :
    tokensAt p cs = [] := by
  rw [tokensAt, Lexer.run_of_next_none (next_of_none h p)]

theorem tokensAt_of_some (h : lexeme? (cs.dropWhile isBlank) = some l)
    (hkind : l.kind ≠ .endOfInput) (p : Nat) :
    tokensAt p cs = tokenOf p cs l :: tokensAt (tokenOf p cs l).stop l.rest := by
  rw [tokensAt, Lexer.run_of_next_some (next_of_some h p), decide_eq_false hkind]
  rfl

theorem tokensAt_of_endOfInput (h : lexeme? (cs.dropWhile isBlank) = some l)
    (hkind : l.kind = .endOfInput) (p : Nat) : tokensAt p cs = [tokenOf p cs l] := by
  have hlast : (Lexer.mk l.rest (tokenOf p cs l).stop true).run = ([], _) :=
    Lexer.run_of_next_none rfl
  rw [tokensAt, Lexer.run_of_next_some (next_of_some h p), decide_eq_true hkind, hlast]

theorem tokensAt_of_blank (h : cs.dropWhile isBlank = []) (p : Nat) :
    tokensAt p cs = [⟨.endOfInput, p, byteLength cs, ""⟩] := by
  have hblank : cs.takeWhile isBlank = cs :=
    List.takeWhile_eq_self_iff.2 (List.dropWhile_eq_nil_iff.1 h)
  have hl : lexeme? (cs.dropWhile isBlank) = some ⟨.endOfInput, [], []⟩ := by rw [h]; rfl
  rw [tokensAt_of_endOfInput hl rfl, tokenOf, hblank]

theorem dropWhile_isBlank_eq_nil (h : lexeme? (cs.dropWhile isBlank) = some l)
    (hkind : l.kind = .endOfInput) : cs.dropWhile isBlank = [] := by
  have hshape := isLexeme_lexeme? h
  rw [hkind] at hshape
  obtain ⟨htext, hrest⟩ := hshape.eq_nil
  rw [← append_of_lexeme? h, htext, hrest, List.append_nil]

theorem text_induction {motive : List Char → Prop}
    (stuck : ∀ cs, lexeme? (cs.dropWhile isBlank) = none → motive cs)
    (blank : ∀ cs, cs.dropWhile isBlank = [] → motive cs)
    (take : ∀ cs l, lexeme? (cs.dropWhile isBlank) = some l → l.kind ≠ .endOfInput →
      motive l.rest → motive cs) (cs : List Char) : motive cs := by
  -- A lexeme that does not end the input is not empty, so less text is left behind it.
  induction hn : cs.length using Nat.strongRecOn generalizing cs with
  | _ n ih =>
  subst hn
  cases hl : lexeme? (cs.dropWhile isBlank) with
  | none => exact stuck cs hl
  | some l =>
    by_cases hkind : l.kind = .endOfInput
    · exact blank cs (dropWhile_isBlank_eq_nil hl hkind)
    · have hshort := length_rest_lt hl hkind
      have hdrop := (List.dropWhile_suffix (l := cs) isBlank).length_le
      exact take cs l hl hkind (ih _ (Nat.lt_of_lt_of_le hshort hdrop) l.rest rfl)

theorem isLexeme_of_mem_tokensAt {p : Nat} {t : Token} (h : t ∈ tokensAt p cs) :
    ∃ rest, IsLexeme t.kind t.text.toList rest := by
  induction cs using text_induction generalizing p with
  | stuck cs hl =>
    rw [tokensAt_of_none hl] at h
    cases h
  | blank cs hl =>
    rw [tokensAt_of_blank hl, List.mem_singleton] at h
    subst h
    exact ⟨[], .endOfInput⟩
  | take cs l hl hkind ih =>
    rw [tokensAt_of_some hl hkind, List.mem_cons] at h
    rcases h with rfl | h
    · refine ⟨l.rest, ?_⟩
      rw [toList_text_tokenOf]
      exact isLexeme_lexeme? hl
    · exact ih h

def FitKinds (ts : List Token) : Prop :=
  ∀ t ∈ ts, ∃ rest, IsLexeme t.kind t.text.toList rest

theorem fitKinds_lex (s : String) : FitKinds (lex s).toList :=
  fun _ => isLexeme_of_mem_tokensAt

theorem FitKinds.isLexeme {ts : List Token} {i : Nat} {t : Token} {kind : TokenKind}
    (h : FitKinds ts) (ht : ts[i]? = some t) (hk : t.kind = kind) :
    ∃ rest, IsLexeme kind t.text.toList rest :=
  hk ▸ h t (List.mem_of_getElem? ht)

end CondLang
