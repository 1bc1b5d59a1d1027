import CondLang.Proofs.UniqueLexing

/-! Texts that go on. The lexer looks no further than the first character behind a token, so a token
with something behind it stays as it is. Where the lexer gave up it gives up again, unless it waited
for a quote that comes now. -/

namespace CondLang

/-- More characters stand behind this token, in a text of `length` bytes. -/
def Token.isSettled (length : Nat) (t : Token) : Bool :=
  t.kind ≠ .endOfInput ∧ t.stop < length

def stuckChar? (s : String) : Option Char :=
  (Lexer.ofText s).run.2.rest.head?

def leftover (p : Nat) (cs : List Char) : List Char :=
  (Lexer.mk cs p false).run.2.rest

variable {cs more rest : List Char} {l : Lexeme} {c : Char} {p : Nat}

theorem stuckChar?_eq (s : String) : stuckChar? s = (leftover 0 s.toList).head? := rfl

theorem leftover_of_none (h : lexeme? (cs.dropWhile isBlank) = none) (p : Nat) :
    leftover p cs = cs.dropWhile isBlank := by
  rw [leftover, Lexer.run_of_next_none (next_of_none h p)]

theorem leftover_of_some (h : lexeme? (cs.dropWhile isBlank) = some l)
    (hkind : l.kind ≠ .endOfInput) (p : Nat) :
    leftover p cs = leftover (tokenOf p cs l).stop l.rest := by
  rw [leftover, Lexer.run_of_next_some (next_of_some h p), decide_eq_false hkind]
  rfl

theorem leftover_of_blank (h : cs.dropWhile isBlank = []) (p : Nat) : leftover p cs = [] := by
  have hl : lexeme? (cs.dropWhile isBlank) = some ⟨.endOfInput, [], []⟩ := by rw [h]; rfl
  have hlast : (Lexer.mk [] (tokenOf p cs ⟨.endOfInput, [], []⟩).stop true).run = ([], _) :=
    Lexer.run_of_next_none rfl
  rw [leftover, Lexer.run_of_next_some (next_of_some hl p), decide_eq_true rfl, hlast]

/-! ### The tokens that are settled -/

theorem stop_tokenOf_add (h : lexeme? (cs.dropWhile isBlank) = some l) (p : Nat) :
    (tokenOf p cs l).stop + byteLength l.rest = p + byteLength cs := by
  have hsplit : cs = cs.takeWhile isBlank ++ (l.text ++ l.rest) := by
    rw [append_of_lexeme? h, List.takeWhile_append_dropWhile]
  have hlength := congrArg byteLength hsplit
  rw [byteLength_append, byteLength_append] at hlength
  rw [stop_tokenOf, hlength]
  omega

theorem byteLength_pos (h : cs ≠ []) : 0 < byteLength cs := by
  obtain ⟨c, rest, rfl⟩ := List.exists_cons_of_ne_nil h
  rw [byteLength_cons]
  exact Nat.add_pos_left c.utf8Size_pos _

theorem dropWhile_ne_nil_of_rest (h : lexeme? (cs.dropWhile isBlank) = some l)
    (hrest : l.rest ≠ []) : cs.dropWhile isBlank ≠ [] := by
  rw [← append_of_lexeme? h]
  exact List.append_ne_nil_of_right_ne_nil _ hrest

theorem lexeme?_continued (h : lexeme? (cs.dropWhile isBlank) = some l)
    (hkind : l.kind ≠ .endOfInput) (hrest : l.rest ≠ []) (more : List Char) :
    lexeme? ((cs ++ more).dropWhile isBlank) = some ⟨l.kind, l.text, l.rest ++ more⟩ := by
  have hlexeme : IsLexeme l.kind l.text (l.rest ++ more) :=
    (isLexeme_lexeme? h).append hkind fun hnil => absurd hnil hrest
  rw [dropWhile_append_of_dropWhile_ne_nil (dropWhile_ne_nil_of_rest h hrest),
    ← append_of_lexeme? h, List.append_assoc]
  exact hlexeme.lexeme?

theorem tokenOf_continued (h : lexeme? (cs.dropWhile isBlank) = some l) (hrest : l.rest ≠ [])
    (p : Nat) (more : List Char) :
    tokenOf p (cs ++ more) ⟨l.kind, l.text, l.rest ++ more⟩ = tokenOf p cs l := by
  rw [tokenOf, tokenOf,
    takeWhile_append_of_dropWhile_ne_nil (dropWhile_ne_nil_of_rest h hrest)]

theorem tokensAt_continued (h : lexeme? (cs.dropWhile isBlank) = some l)
    (hkind : l.kind ≠ .endOfInput) (hrest : l.rest ≠ []) (p : Nat) (more : List Char) :
    tokensAt p (cs ++ more) =
      tokenOf p cs l :: tokensAt (tokenOf p cs l).stop (l.rest ++ more) := by
  rw [tokensAt_of_some (lexeme?_continued h hkind hrest more) hkind, tokenOf_continued h hrest]

theorem settled_prefix (p : Nat) (cs more : List Char) :
    (tokensAt p cs).filter (Token.isSettled (p + byteLength cs)) <+: tokensAt p (cs ++ more) := by
  induction cs using text_induction generalizing p with
  | stuck cs hl =>
    rw [tokensAt_of_none hl]
    exact List.nil_prefix
  | blank cs hl =>
    rw [tokensAt_of_blank hl, List.filter_cons_of_neg (by simp [Token.isSettled])]
    exact List.nil_prefix
  | take cs l hl hkind ih =>
    have hstop := stop_tokenOf_add hl p
    rw [tokensAt_of_some hl hkind, ← hstop]
    by_cases hrest : l.rest = []
    · -- The token reaches to the end of the text, and only the end of the input comes behind it.
      have hlast : Token.isSettled ((tokenOf p cs l).stop + byteLength [])
          (tokenOf p cs l) ≠ true := by
        simp [Token.isSettled]
      rw [hrest, tokensAt_of_blank rfl, List.filter_cons_of_neg hlast,
        List.filter_cons_of_neg (by simp [Token.isSettled])]
      exact List.nil_prefix
    · have hsettled : Token.isSettled ((tokenOf p cs l).stop + byteLength l.rest)
          (tokenOf p cs l) = true :=
        decide_eq_true ⟨hkind, Nat.lt_add_of_pos_right (byteLength_pos hrest)⟩
      rw [List.filter_cons_of_pos hsettled, tokensAt_continued hl hkind hrest,
        List.cons_prefix_cons]
      exact ⟨rfl, ih _⟩

/-! ### The place where the lexer gives up -/

theorem BeginsNone.append (h : BeginsNone c rest) (hmore : c = '"' → '"' ∉ more) :
    BeginsNone c (rest ++ more) := by
  obtain ⟨hopen, hclose, halpha, hdigit, hrest⟩ := h
  refine ⟨hopen, hclose, halpha, hdigit, fun hquote hmem => ?_⟩
  rcases List.mem_append.1 hmem with hold | hnew
  · exact hrest hquote hold
  · exact hmore hquote hnew

theorem tokensAt_append_of_leftover (h : leftover p cs = c :: rest)
    (hmore : c = '"' → '"' ∉ more) : tokensAt p (cs ++ more) = tokensAt p cs := by
  induction cs using text_induction generalizing p with
  | stuck cs hl =>
    rw [leftover_of_none hl] at h
    have hnone : BeginsNone c (rest ++ more) :=
      (lexeme?_cons_eq_none_iff.1 (h ▸ hl)).append hmore
    have hl' : lexeme? ((cs ++ more).dropWhile isBlank) = none := by
      rw [dropWhile_append_of_dropWhile_ne_nil (by rw [h]; exact List.cons_ne_nil c rest), h]
      exact lexeme?_cons_eq_none_iff.2 hnone
    rw [tokensAt_of_none hl, tokensAt_of_none hl']
  | blank cs hl =>
    rw [leftover_of_blank hl] at h
    cases h
  | take cs l hl hkind ih =>
    rw [leftover_of_some hl hkind] at h
    have hrest : l.rest ≠ [] := by
      intro hnil
      rw [hnil, leftover_of_blank rfl] at h
      cases h
    rw [tokensAt_continued hl hkind hrest, tokensAt_of_some hl hkind, ih h]

theorem exists_leftover (h : ∀ t ∈ tokensAt p cs, t.kind ≠ .endOfInput) :
    ∃ c rest, leftover p cs = c :: rest := by
  induction cs using text_induction generalizing p with
  | stuck cs hl =>
    obtain ⟨c, rest, hdrop, -⟩ := lexeme?_eq_none_iff.1 hl
    exact ⟨c, rest, (leftover_of_none hl p).trans hdrop⟩
  | blank cs hl =>
    rw [tokensAt_of_blank hl] at h
    exact absurd rfl (h _ List.mem_cons_self)
  | take cs l hl hkind ih =>
    rw [tokensAt_of_some hl hkind] at h
    rw [leftover_of_some hl hkind]
    exact ih fun t ht => h t (List.mem_cons_of_mem _ ht)

/-- Text that is put behind another changes none of its settled tokens; and where the lexer gives
up on a text, more text is of no use to it but for a quote that ends a string. -/
theorem settled_tokens_stay (s t : String) :
    (lex s).toList.filter (Token.isSettled s.utf8ByteSize) <+: (lex (s ++ t)).toList ∧
      ((lex s).isTerminated = false → ∃ c, stuckChar? s = some c ∧
        ((c = '"' → '"' ∉ t.toList) → lex (s ++ t) = lex s)) := by
  have hlength : s.utf8ByteSize = 0 + byteLength s.toList := by
    rw [Nat.zero_add, ← utf8ByteSize_eq_byteLength, String.ofList_toList]
  have happend : (s ++ t).toList = s.toList ++ t.toList := String.toList_append
  constructor
  · rw [hlength, toList_lex, toList_lex, happend]
    exact settled_prefix 0 s.toList t.toList
  · intro h
    have hno : ∀ u ∈ tokensAt 0 s.toList, u.kind ≠ .endOfInput := kind_ne_of_not_terminated h
    obtain ⟨c, rest, hrest⟩ := exists_leftover hno
    refine ⟨c, ?_, fun hmore => ?_⟩
    · rw [stuckChar?_eq, hrest, List.head?_cons]
    · have hsame := tokensAt_append_of_leftover hrest hmore
      rw [← happend] at hsame
      exact congrArg TokenList.mk hsame

end CondLang
