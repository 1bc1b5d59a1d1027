import CondLang.Condition
import CondLang.Proofs.Contents
import CondLang.Proofs.LexerRun
import CondLang.Proofs.ParserRun

/-! Reading a text piece by piece: what is read of a text is read in the same way with more text
behind it, as long as no letter or digit goes on where the text ends in a token. -/

namespace CondLang

/-- Reading `cs` gives these contents and leaves `rest`; blanks may be passed over anywhere. -/
inductive Scans : List Char → List Content → List Char → Prop
  | done (cs : List Char) : Scans cs [] cs
  | blank {c : Char} {cs rest : List Char} {ws : List Content} (hc : isBlank c = true)
    (h : Scans cs ws rest) : Scans (c :: cs) ws rest
  | take {kind : TokenKind} {text cs rest : List Char} {ws : List Content}
    (hl : IsLexeme kind text cs) (hkind : kind ≠ .endOfInput) (h : Scans cs ws rest) :
    Scans (text ++ cs) ((kind, String.ofList text) :: ws) rest

theorem isName_keyword (op : Operator) : IsName op.keyword.toList := by
  rcases op with op | op
  all_goals
    cases op
    all_goals decide

variable {cs text rest more : List Char} {kind : TokenKind} {l : Lexeme} {ws ws' : List Content}

namespace Scans

theorem trans (h : Scans cs ws rest) (h' : Scans rest ws' more) : Scans cs (ws ++ ws') more := by
  induction h with
  | done => exact h'
  | blank hc _ ih => exact .blank hc (ih h')
  | take hl hkind _ ih => exact .take hl hkind (ih h')

theorem blanks (hcs : ∀ c ∈ text, isBlank c = true) (h : Scans cs ws rest) :
    Scans (text ++ cs) ws rest := by
  induction text with
  | nil => exact h
  | cons c text ih =>
    obtain ⟨hc, htext⟩ := List.forall_mem_cons.1 hcs
    exact .blank hc (ih htext)

theorem of_dropWhile (h : Scans (cs.dropWhile isBlank) ws rest) : Scans cs ws rest := by
  have hblanks : ∀ c ∈ cs.takeWhile isBlank, isBlank c = true := fun _ => List.mem_takeWhile_imp
  have hwhole := Scans.blanks hblanks h
  rwa [List.takeWhile_append_dropWhile] at hwhole

theorem rest_eq_nil (h : Scans cs ws rest) (hcs : cs = []) : rest = [] := by
  induction h with
  | done => exact hcs
  | blank => cases hcs
  | take hl hkind _ ih =>
    rw [List.append_eq_nil_iff] at hcs
    exact absurd (hl.text_eq_nil_iff.1 hcs.1) hkind

theorem append (h : Scans cs ws rest) (hmore : rest = [] → Stops Char.isAlphanum more) :
    Scans (cs ++ more) ws (rest ++ more) := by
  induction h with
  | done => exact .done _
  | blank hc _ ih => exact .blank hc (ih hmore)
  | take hl hkind h ih =>
    rw [List.append_assoc]
    exact .take (hl.append hkind fun hnil => hmore (h.rest_eq_nil hnil)) hkind (ih hmore)

theorem kind_ne (h : Scans cs ws rest) : ∀ w ∈ ws, w.1 ≠ .endOfInput := by
  induction h with
  | done => exact fun _ hw => nomatch hw
  | blank _ _ ih => exact ih
  | take _ hkind _ ih => exact List.forall_mem_cons.2 ⟨hkind, ih⟩

theorem single (hl : IsLexeme kind text rest) (hkind : kind ≠ .endOfInput) :
    Scans (text ++ rest) [(kind, String.ofList text)] rest :=
  .take hl hkind (.done rest)

theorem opening (op : Operator) (h : Scans cs ws rest) :
    Scans ('(' :: op.keyword.toList ++ ' ' :: cs)
      ((.leftParen, "(") :: (.symbol, op.keyword) :: ws) rest := by
  have hblank : Stops Char.isAlphanum (' ' :: cs) := stops_cons.2 (by decide)
  have hkeyword := single (.symbol (isName_keyword op) hblank) (by decide)
  rw [String.ofList_toList] at hkeyword
  have hopen := single (.leftParen (op.keyword.toList ++ ' ' :: cs)) (by decide)
  exact hopen.trans (hkeyword.trans (.blank (by decide) h))

theorem form (op : Operator) (h : Scans cs ws (')' :: rest)) :
    Scans ('(' :: op.keyword.toList ++ ' ' :: cs) (formContents op ws) rest := by
  have hclose := single (.rightParen rest) (by decide)
  exact opening op (h.trans hclose)

end Scans

def contents (cs : List Char) : List Content :=
  (tokensAt 0 cs).map Token.content

theorem map_content_tokensAt (p : Nat) (cs : List Char) :
    (tokensAt p cs).map Token.content = contents cs := by
  rw [contents]
  -- Neither offset matters, and both move on from token to token.
  generalize 0 = q
  induction cs using text_induction generalizing p q with
  | stuck cs hl => rw [tokensAt_of_none hl, tokensAt_of_none hl]
  | blank cs hl => rw [tokensAt_of_blank hl, tokensAt_of_blank hl]; rfl
  | take cs l hl hkind ih =>
    rw [tokensAt_of_some hl hkind, tokensAt_of_some hl hkind, List.map_cons, List.map_cons, ih]
    rfl

theorem contents_of_none (h : lexeme? (cs.dropWhile isBlank) = none) : contents cs = [] := by
  rw [contents, tokensAt_of_none h, List.map_nil]

theorem contents_of_blank (h : cs.dropWhile isBlank = []) : contents cs = [(.endOfInput, "")] := by
  rw [contents, tokensAt_of_blank h]
  rfl

theorem contents_of_some (h : lexeme? (cs.dropWhile isBlank) = some l)
    (hkind : l.kind ≠ .endOfInput) :
    contents cs = (l.kind, String.ofList l.text) :: contents l.rest := by
  rw [contents, tokensAt_of_some h hkind, List.map_cons, map_content_tokensAt]
  rfl

theorem contents_dropWhile (cs : List Char) : contents (cs.dropWhile isBlank) = contents cs := by
  have hdrop : (cs.dropWhile isBlank).dropWhile isBlank = cs.dropWhile isBlank :=
    dropWhile_eq_self_of_stops (stops_dropWhile isBlank cs)
  cases cs using text_induction with
  | stuck cs hl => rw [contents_of_none hl, contents_of_none (by rwa [hdrop])]
  | blank cs hl => rw [contents_of_blank hl, contents_of_blank (by rwa [hdrop])]
  | take cs l hl hkind =>
    have hl' : lexeme? ((cs.dropWhile isBlank).dropWhile isBlank) = some l := by rwa [hdrop]
    rw [contents_of_some hl hkind, contents_of_some hl' hkind]

theorem Scans.contents (h : Scans cs ws rest) : contents cs = ws ++ contents rest := by
  induction h with
  | done => rfl
  | @blank c cs rest ws hc _ ih =>
    rw [← ih, ← contents_dropWhile (c :: cs), List.dropWhile_cons_of_pos hc, contents_dropWhile]
  | @take kind text cs rest ws hl hkind _ ih =>
    have hlexeme : lexeme? ((text ++ cs).dropWhile isBlank) = some ⟨kind, text, cs⟩ := by
      rw [dropWhile_eq_self_of_stops hl.stops_blank, hl.lexeme?]
    rw [contents_of_some hlexeme hkind, ih, List.cons_append]

theorem exists_scans (cs : List Char) :
    ∃ ws rest, Scans cs ws rest ∧ (rest = [] ∨ lexeme? (rest.dropWhile isBlank) = none) := by
  induction cs using text_induction with
  | stuck cs hl => exact ⟨[], cs, .done cs, .inr hl⟩
  | blank cs hl =>
    exact ⟨[], [], .of_dropWhile (hl ▸ .done []), .inl rfl⟩
  | take cs l hl hkind ih =>
    obtain ⟨ws, rest, hscan, hend⟩ := ih
    obtain ⟨hsplit, hlexeme⟩ := lexeme?_eq_some_iff.1 hl
    have htake := Scans.take hlexeme hkind hscan
    rw [← hsplit] at htake
    exact ⟨_, rest, htake.of_dropWhile, hend⟩

theorem contents_nil : contents [] = [(.endOfInput, "")] :=
  contents_of_blank rfl

theorem exists_scans_nil (h : ∃ w ∈ contents cs, w.1 = .endOfInput) : ∃ ws, Scans cs ws [] := by
  obtain ⟨ws, rest, hscan, rfl | hstuck⟩ := exists_scans cs
  · exact ⟨ws, hscan⟩
  · obtain ⟨w, hw, hkind⟩ := h
    rw [hscan.contents, contents_of_none hstuck, List.append_nil] at hw
    exact absurd hkind (hscan.kind_ne w hw)

theorem Scans.map_content_lex {s : String} (h : Scans s.toList ws []) :
    (lex s).toList.map Token.content = ws ++ [(.endOfInput, "")] := by
  rw [toList_lex, map_content_tokensAt, h.contents, contents_nil]

theorem Scans.length_lex {s : String} (h : Scans s.toList ws []) :
    (lex s).length = ws.length + 1 := by
  have hlength := congrArg List.length h.map_content_lex
  rw [List.length_map, List.length_append] at hlength
  exact hlength

theorem Scans.isTerminated {s : String} (h : Scans s.toList ws []) :
    (lex s).isTerminated = true := by
  have hlast : ((lex s).toList.map Token.content).getLast? = some (.endOfInput, "") := by
    rw [h.map_content_lex, List.getLast?_concat]
  rw [List.getLast?_map] at hlast
  obtain ⟨t, ht, hcontent⟩ := Option.map_eq_some_iff.1 hlast
  rw [TokenList.isTerminated, TokenList.last?, ht, Option.any_some, decide_eq_true_eq]
  exact congrArg Prod.fst hcontent

theorem isTerminated_lex_iff (s : String) :
    (lex s).isTerminated = true ↔ ∃ t ∈ (lex s).toList, t.kind = .endOfInput := by
  constructor
  · intro h
    rw [TokenList.isTerminated, Option.any_eq_true] at h
    obtain ⟨t, ht, hkind⟩ := h
    exact ⟨t, List.mem_of_getLast? ht, of_decide_eq_true hkind⟩
  · rintro ⟨t, ht, hkind⟩
    obtain ⟨ws, hscan⟩ := exists_scans_nil ⟨t.content, List.mem_map_of_mem ht, hkind⟩
    exact hscan.isTerminated

theorem kind_ne_of_not_terminated {s : String} (h : (lex s).isTerminated = false) :
    ∀ t ∈ (lex s).toList, t.kind ≠ .endOfInput := by
  intro t ht hkind
  rw [(isTerminated_lex_iff s).2 ⟨t, ht, hkind⟩] at h
  exact Bool.noConfusion h

theorem isTerminated_lex_iff_scans (s : String) :
    (lex s).isTerminated = true ↔ ∃ ws, Scans s.toList ws [] := by
  constructor
  · intro h
    obtain ⟨t, ht, hkind⟩ := (isTerminated_lex_iff s).1 h
    exact exists_scans_nil ⟨t.content, List.mem_map_of_mem ht, hkind⟩
  · rintro ⟨ws, hscan⟩
    exact hscan.isTerminated

theorem Scans.index_endOfInput {s : String} {n : Nat} (h : Scans s.toList ws [])
    (hn : HasKind (lex s).toList n .endOfInput) : n = ws.length := by
  obtain ⟨t, ht, hkind⟩ := hn
  have hcontent : (ws ++ [(.endOfInput, "")])[n]? = some t.content := by
    rw [← h.map_content_lex, List.getElem?_map, ht]
    rfl
  have hle : n < ws.length + 1 := by
    have hlt := (List.getElem?_eq_some_iff.1 hcontent).1
    rwa [List.length_append] at hlt
  have hge : ¬n < ws.length := by
    intro hlt
    rw [List.getElem?_append_left hlt] at hcontent
    exact h.kind_ne _ (List.mem_of_getElem? hcontent) hkind
  omega

theorem parse_lex {s : String} {e : Expr} (h : Scans s.toList ws []) (he : Forms ws e) :
    parse (lex s).toList = .ok ⟨e, ws.length⟩ := by
  have hts := h.map_content_lex
  have hderives := he (lex s).toList [] [(.endOfInput, "")] hts
  rw [List.length_nil, Nat.zero_add] at hderives
  obtain ⟨t, ht, hkind, -⟩ := exists_token_behind hts
  exact parse_eq_ok.2 ⟨hderives, t, ht, hkind⟩

theorem compile_eq_ok_iff_parse {s : String} {e : Expr} :
    Condition.compile s = .ok e ↔ ∃ n, parse (lex s).toList = .ok ⟨e, n⟩ := by
  have hcompile : Condition.compile s = (parse (lex s).toList).map Parsed.expr := rfl
  rw [hcompile]
  cases parse (lex s).toList with
  | error error => simp [Except.map]
  | ok parsed =>
    cases parsed
    simp [Except.map]

theorem compile_eq_ok_iff {s : String} {e : Expr} :
    Condition.compile s = .ok e ↔ ∃ ws, Scans s.toList ws [] ∧ Forms ws e := by
  rw [compile_eq_ok_iff_parse]
  constructor
  · rintro ⟨n, hparse⟩
    obtain ⟨hderives, hend⟩ := parse_eq_ok.1 hparse
    obtain ⟨t, ht, hkind⟩ := id hend
    have hcontent : contents s.toList = (lex s).toList.map Token.content := rfl
    have hmem : t.content ∈ contents s.toList :=
      hcontent ▸ List.mem_map_of_mem (List.mem_of_getElem? ht)
    obtain ⟨ws, hscan⟩ := exists_scans_nil ⟨_, hmem, hkind⟩
    rw [hscan.index_endOfInput hend] at hderives
    exact ⟨ws, hscan, forms_of_derives hderives hscan.map_content_lex⟩
  · rintro ⟨ws, hscan, hforms⟩
    exact ⟨ws.length, parse_lex hscan hforms⟩

end CondLang
