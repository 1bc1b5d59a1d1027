import CondLang.Proofs.Tiling

/-! What the tokens of a text look like: each reaches as far as its kind allows, and where they end
before the text does, no token begins. At each place the character that stands there leaves no
choice, so this singles them out. -/

namespace CondLang

def Token.FitsIn (s : String) (t : Token) : Prop :=
  ∃ before after, s.toList = before ++ t.text.toList ++ after ∧ byteLength before = t.start ∧
    IsLexeme t.kind t.text.toList after

def BeginsNone (c : Char) (rest : List Char) : Prop :=
  c ≠ '(' ∧ c ≠ ')' ∧ c.isAlpha = false ∧ c.isDigit = false ∧ (c = '"' → '"' ∉ rest)

def StuckAt (s : String) (p : Nat) : Prop :=
  ∃ before blanks c rest, s.toList = before ++ blanks ++ c :: rest ∧ byteLength before = p ∧
    (∀ d ∈ blanks, isBlank d = true) ∧ isBlank c = false ∧ BeginsNone c rest

structure IsLexing (s : String) (ts : TokenList) : Prop where
  tiles : Tiles s ts.toList
  endLast : ∀ t ∈ ts.toList.dropLast, t.kind ≠ .endOfInput
  shapes : ∀ t ∈ ts.toList, t.FitsIn s
  stuck : ts.isTerminated = false → StuckAt s (stopBehind 0 ts.toList)

variable {s : String} {ts : List Token} {t : Token} {p : Nat}
  {whole before front blanks after cs : List Char}

theorem lexeme?_cons_eq_none_iff {c : Char} {rest : List Char} :
    lexeme? (c :: rest) = none ↔ BeginsNone c rest := by
  rw [lexeme?_eq_none_iff]
  constructor
  · rintro ⟨c', rest', heq, h⟩
    cases heq
    rcases h with ⟨rfl, hrest⟩ | ⟨hquote, hopen, hclose, halpha, hdigit⟩
    · exact ⟨by decide, by decide, by decide, by decide, fun _ => hrest⟩
    · exact ⟨hopen, hclose, halpha, hdigit, fun h => absurd h hquote⟩
  · rintro ⟨hopen, hclose, halpha, hdigit, hrest⟩
    by_cases hquote : c = '"'
    · exact ⟨c, rest, rfl, .inl ⟨hquote, hrest hquote⟩⟩
    · exact ⟨c, rest, rfl, .inr ⟨hquote, hopen, hclose, halpha, hdigit⟩⟩

/-! ### The tokens of a text -/

theorem stuckAt_tokensAt (h : ReadUpTo s.toList before cs)
    (hno : ∀ t ∈ tokensAt (byteLength before) cs, t.kind ≠ .endOfInput) :
    StuckAt s (stopBehind (byteLength before) (tokensAt (byteLength before) cs)) := by
  induction cs using text_induction generalizing before with
  | stuck cs hl =>
    rw [tokensAt_of_none hl]
    have hsplit := h.split
    have hfirst := stops_dropWhile isBlank cs
    rw [← List.takeWhile_append_dropWhile (p := isBlank) (l := cs), ← List.append_assoc] at hsplit
    obtain ⟨c, rest, hdrop, -⟩ := lexeme?_eq_none_iff.1 hl
    rw [hdrop] at hsplit hfirst hl
    exact ⟨before, _, c, rest, hsplit, rfl, fun _ => List.mem_takeWhile_imp, stops_cons.1 hfirst,
      lexeme?_cons_eq_none_iff.1 hl⟩
  | blank cs hl =>
    rw [tokensAt_of_blank hl] at hno
    exact absurd rfl (hno _ List.mem_cons_self)
  | take cs l hl hkind ih =>
    rw [tokensAt_of_some hl hkind] at hno ⊢
    rw [stopBehind_cons]
    rw [stop_tokenOf_byteLength] at hno ⊢
    exact ih (h.next hl hkind) fun t ht => hno t (List.mem_cons_of_mem _ ht)

theorem fitsIn_of_mem_lex (s : String) : ∀ t ∈ (lex s).toList, t.FitsIn s := by
  intro t ht
  obtain ⟨front, blanks, after, hstands, hshape⟩ :=
    standsIn_of_mem_tokensAt (readUpTo_start s) ht
  exact ⟨front ++ blanks, after, hstands.split, hstands.start.symm, hshape⟩

theorem isLexing_lex (s : String) : IsLexing s (lex s) := by
  refine ⟨tiles_lex s, kind_ne_of_mem_dropLast s, fitsIn_of_mem_lex s, fun h => ?_⟩
  exact stuckAt_tokensAt (readUpTo_start s) (kind_ne_of_not_terminated h)

/-! ### No other tokens -/

theorem append_inj_of_byteLength {as bs cs ds : List Char} (h : as ++ bs = cs ++ ds)
    (hlength : byteLength as = byteLength cs) : as = cs ∧ bs = ds := by
  induction as generalizing cs with
  | nil =>
    cases cs with
    | nil => exact ⟨rfl, h⟩
    | cons c cs =>
      have hpos := c.utf8Size_pos
      rw [byteLength_nil, byteLength_cons] at hlength
      omega
  | cons a as ih =>
    cases cs with
    | nil =>
      have hpos := a.utf8Size_pos
      rw [byteLength_nil, byteLength_cons] at hlength
      omega
    | cons c cs =>
      obtain ⟨rfl, htail⟩ := List.cons.inj h
      obtain ⟨rfl, hrest⟩ := ih htail (Nat.add_left_cancel hlength)
      exact ⟨rfl, hrest⟩

theorem exists_standsIn (hrun : IsBlankRun s t.blankStart t.start) (hfits : t.FitsIn s) :
    ∃ before blanks after, t.StandsIn s.toList before blanks after ∧
      IsLexeme t.kind t.text.toList after := by
  obtain ⟨before, blanks, behind, hs, hbefore, hstart, hblank, hlast, hfirst⟩ := hrun
  obtain ⟨front, after, hs', hfront, hshape⟩ := hfits
  have hsame : before ++ blanks ++ behind = front ++ (t.text.toList ++ after) := by
    rw [← hs, hs', List.append_assoc]
  obtain ⟨rfl, rfl⟩ := append_inj_of_byteLength hsame (hstart.trans hfront.symm)
  have hblankLength : t.blankLength = byteLength blanks := by
    rw [byteLength_append, hbefore, Token.start] at hstart
    exact (Nat.add_left_cancel hstart).symm
  exact ⟨before, blanks, after, ⟨hs', hbefore.symm, hblankLength, hblank, hlast, hfirst⟩, hshape⟩

theorem ReadUpTo.next_of_standsIn (h : ReadUpTo whole before cs)
    (ht : t.StandsIn whole front blanks after) (hshape : IsLexeme t.kind t.text.toList after)
    (hp : t.blankStart = byteLength before) :
    lexeme? (cs.dropWhile isBlank) = some ⟨t.kind, t.text.toList, after⟩ ∧
      t = tokenOf (byteLength before) cs ⟨t.kind, t.text.toList, after⟩ := by
  have hsame : front ++ (blanks ++ (t.text.toList ++ after)) = before ++ cs := by
    rw [← h.split, ht.split, List.append_assoc, List.append_assoc]
  obtain ⟨rfl, rfl⟩ := append_inj_of_byteLength hsame (ht.blankStart.symm.trans hp)
  constructor
  · rw [dropWhile_append_of_stops ht.blank ht.first_behind, hshape.lexeme?]
  · rw [tokenOf, takeWhile_append_of_stops ht.blank ht.first_behind, ← ht.blankStart,
      ← ht.blankLength, String.ofList_toList]

theorem ReadUpTo.lexeme?_eq_none (h : ReadUpTo s.toList before cs)
    (hstuck : StuckAt s (byteLength before)) : lexeme? (cs.dropWhile isBlank) = none := by
  obtain ⟨front, blanks, c, rest, hs, hfront, hblank, hc, hnone⟩ := hstuck
  have hsame : front ++ (blanks ++ c :: rest) = before ++ cs := by
    rw [← h.split, hs, List.append_assoc]
  obtain ⟨rfl, rfl⟩ := append_inj_of_byteLength hsame hfront
  rw [dropWhile_append_of_stops hblank (stops_cons.2 hc), lexeme?_cons_eq_none_iff.2 hnone]

structure LexedFrom (s : String) (p : Nat) (ts : List Token) : Prop where
  first : ∀ t ∈ ts.head?, t.blankStart = p
  next : ts.IsChain fun t u => u.blankStart = t.stop
  stands : ∀ t ∈ ts, ∃ before blanks after, t.StandsIn s.toList before blanks after ∧
    IsLexeme t.kind t.text.toList after
  endLast : ∀ t ∈ ts.dropLast, t.kind ≠ .endOfInput
  stuck : (∀ t ∈ ts.getLast?, t.kind ≠ .endOfInput) → StuckAt s (stopBehind p ts)

theorem IsLexing.lexedFrom {ts : TokenList} (h : IsLexing s ts) : LexedFrom s 0 ts.toList := by
  refine ⟨h.tiles.first, h.tiles.next, fun t ht => ?_, h.endLast, fun hlast => h.stuck ?_⟩
  · exact exists_standsIn (h.tiles.blanks t ht) (h.shapes t ht)
  · rw [TokenList.isTerminated, Option.any_eq_false]
    exact fun t ht => decide_eq_false (hlast t ht)

namespace LexedFrom

theorem eq_nil_of_endOfInput (h : LexedFrom s p (t :: ts)) (hkind : t.kind = .endOfInput) :
    ts = [] := by
  cases ts with
  | nil => rfl
  | cons u us => exact absurd hkind (h.endLast t List.mem_cons_self)

theorem tail (h : LexedFrom s p (t :: ts)) (hkind : t.kind ≠ .endOfInput) :
    LexedFrom s t.stop ts := by
  obtain ⟨hfirst, hnext⟩ := List.isChain_cons.1 h.next
  refine ⟨hfirst, hnext, fun u hu => h.stands u (List.mem_cons_of_mem t hu), fun u hu => ?_,
    fun hlast => ?_⟩
  · cases ts with
    | nil => cases hu
    | cons v vs => exact h.endLast u (List.mem_cons_of_mem t hu)
  · rw [← stopBehind_cons p]
    refine h.stuck fun u hu => ?_
    rw [List.getLast?_cons] at hu
    cases hts : ts.getLast? with
    | none =>
      rw [hts] at hu
      cases hu
      exact hkind
    | some v =>
      rw [hts] at hu
      cases hu
      exact hlast v hts

theorem eq_tokensAt (h : LexedFrom s (byteLength before) ts) (hread : ReadUpTo s.toList before cs) :
    ts = tokensAt (byteLength before) cs := by
  induction ts generalizing before cs with
  | nil =>
    have hstuck : StuckAt s (byteLength before) := h.stuck fun _ h => nomatch h
    rw [tokensAt_of_none (hread.lexeme?_eq_none hstuck)]
  | cons t ts ih =>
    obtain ⟨front, blanks, after, hstands, hshape⟩ := h.stands t List.mem_cons_self
    obtain ⟨hl, ht⟩ := hread.next_of_standsIn hstands hshape (h.first t rfl)
    by_cases hkind : t.kind = .endOfInput
    · rw [h.eq_nil_of_endOfInput hkind, tokensAt_of_endOfInput hl hkind, ← ht]
    · have hstop := stop_tokenOf_byteLength before cs ⟨t.kind, t.text.toList, after⟩
      rw [← ht] at hstop
      have htail := h.tail hkind
      rw [hstop] at htail
      rw [tokensAt_of_some hl hkind, ← ht, hstop, ← ih htail (hread.next hl hkind)]

end LexedFrom

/-- The tokens that tile a text, each of its kind and as long as its kind allows, up to where no
token begins, are the tokens of the lexer and no others. -/
theorem isLexing_iff_eq_lex (s : String) (ts : TokenList) : IsLexing s ts ↔ ts = lex s := by
  constructor
  · intro h
    have heq : ts.toList = (lex s).toList := h.lexedFrom.eq_tokensAt (readUpTo_start s)
    cases ts
    exact congrArg TokenList.mk heq
  · rintro rfl
    exact isLexing_lex s

end CondLang
