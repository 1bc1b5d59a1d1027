import CondLang.Proofs.Scanning
import Mathlib.Data.List.Chain
import Mathlib.Data.String.Basic

/-! Tokens lie side by side in the source, so that it can be put together again from them, up to the
place at which the lexer gave up. -/

namespace CondLang

def slice (s : String) (i j : Nat) : String :=
  String.Pos.Raw.extract s ⟨i⟩ ⟨j⟩

def IsBoundary (s : String) (i : Nat) : Prop :=
  i ≤ s.utf8ByteSize ∧ String.Pos.Raw.IsValid s ⟨i⟩

/-- Only blanks stand between these offsets, and none in front of them or behind them. -/
def IsBlankRun (s : String) (i j : Nat) : Prop :=
  ∃ before blanks after, s.toList = before ++ blanks ++ after ∧
    byteLength before = i ∧ byteLength (before ++ blanks) = j ∧
    (∀ c ∈ blanks, isBlank c = true) ∧
    (∀ c ∈ before.getLast?, isBlank c = false) ∧ ∀ c ∈ after.head?, isBlank c = false

def Token.piece (s : String) (t : Token) : String :=
  slice s t.blankStart t.start ++ t.text

def stopBehind (p : Nat) (ts : List Token) : Nat :=
  (ts.getLast?.map Token.stop).getD p

theorem stopBehind_cons (p : Nat) (t : Token) (ts : List Token) :
    stopBehind p (t :: ts) = stopBehind t.stop ts := by
  rw [stopBehind, List.getLast?_cons, Option.map_some, Option.getD_some, stopBehind]
  cases ts.getLast? <;> rfl

structure Tiles (s : String) (ts : List Token) : Prop where
  first : ∀ t ∈ ts.head?, t.blankStart = 0
  next : ts.IsChain fun t u => u.blankStart = t.stop
  blanks : ∀ t ∈ ts, IsBlankRun s t.blankStart t.start
  text : ∀ t ∈ ts, slice s t.start t.stop = t.text
  boundaries : ∀ t ∈ ts, IsBoundary s t.blankStart ∧ IsBoundary s t.start ∧ IsBoundary s t.stop

variable {before middle after cs : List Char}

theorem slice_append (before middle after : List Char) :
    slice (String.ofList (before ++ middle ++ after)) (byteLength before)
      (byteLength (before ++ middle)) = String.ofList middle := by
  have hlength : ∀ cs, byteLength cs = String.utf8Len cs := by
    intro cs
    rw [← utf8ByteSize_eq_byteLength, ← String.utf8Len_toList, String.toList_ofList]
  rw [slice, byteLength_append, hlength, hlength]
  exact String.extract_of_valid before middle after

theorem isBoundary_append (before after : List Char) :
    IsBoundary (String.ofList (before ++ after)) (byteLength before) := by
  constructor
  · rw [utf8ByteSize_eq_byteLength, byteLength_append]
    exact Nat.le_add_right _ _
  · refine String.Pos.Raw.isValid_iff_exists_append.2
      ⟨String.ofList before, String.ofList after, String.ofList_append, ?_⟩
    rw [String.Pos.Raw.ext_iff, String.byteIdx_rawEndPos, utf8ByteSize_eq_byteLength]

structure Token.StandsIn (t : Token) (cs before blanks after : List Char) : Prop where
  split : cs = before ++ blanks ++ t.text.toList ++ after
  blankStart : t.blankStart = byteLength before
  blankLength : t.blankLength = byteLength blanks
  blank : ∀ c ∈ blanks, isBlank c = true
  last_before : ∀ c ∈ before.getLast?, isBlank c = false
  first_behind : Stops isBlank (t.text.toList ++ after)

namespace Token.StandsIn

variable {t : Token} {blanks : List Char}

theorem start (h : t.StandsIn cs before blanks after) : t.start = byteLength (before ++ blanks) := by
  rw [Token.start, h.blankStart, h.blankLength, byteLength_append]

theorem stop (h : t.StandsIn cs before blanks after) :
    t.stop = byteLength (before ++ blanks ++ t.text.toList) := by
  rw [Token.stop, h.start, byteLength_append (before ++ blanks),
    ← utf8ByteSize_eq_byteLength t.text.toList, String.ofList_toList]

theorem slice_blanks (h : t.StandsIn cs before blanks after) :
    slice (String.ofList cs) t.blankStart t.start = String.ofList blanks := by
  rw [h.split, List.append_assoc, h.blankStart, h.start]
  exact slice_append before blanks _

theorem slice_text (h : t.StandsIn cs before blanks after) :
    slice (String.ofList cs) t.start t.stop = t.text := by
  rw [h.split, h.start, h.stop, slice_append, String.ofList_toList]

theorem piece (h : t.StandsIn cs before blanks after) :
    (t.piece (String.ofList cs)).toList = blanks ++ t.text.toList := by
  rw [Token.piece, h.slice_blanks, String.toList_append, String.toList_ofList]

theorem isBlankRun (h : t.StandsIn cs before blanks after) :
    IsBlankRun (String.ofList cs) t.blankStart t.start := by
  refine ⟨before, blanks, t.text.toList ++ after, ?_, h.blankStart.symm, h.start.symm, h.blank,
    h.last_before, h.first_behind⟩
  rw [String.toList_ofList, h.split, List.append_assoc]

theorem boundaries (h : t.StandsIn cs before blanks after) :
    IsBoundary (String.ofList cs) t.blankStart ∧ IsBoundary (String.ofList cs) t.start ∧
      IsBoundary (String.ofList cs) t.stop := by
  rw [h.split, h.blankStart, h.start, h.stop]
  refine ⟨?_, ?_, isBoundary_append _ _⟩
  · rw [List.append_assoc, List.append_assoc]
    exact isBoundary_append _ _
  · rw [List.append_assoc]
    exact isBoundary_append _ _

end Token.StandsIn

/-- The lexer stands behind `before` in this text, with `cs` still to be read. -/
structure ReadUpTo (whole before cs : List Char) : Prop where
  split : whole = before ++ cs
  last : ∀ c ∈ before.getLast?, isBlank c = false

variable {whole : List Char} {l : Lexeme}

theorem readUpTo_start (s : String) : ReadUpTo s.toList [] s.toList :=
  ⟨rfl, fun _ h => nomatch h⟩

theorem ReadUpTo.standsIn (h : ReadUpTo whole before cs)
    (hl : lexeme? (cs.dropWhile isBlank) = some l) :
    (tokenOf (byteLength before) cs l).StandsIn whole before (cs.takeWhile isBlank) l.rest := by
  have htext := toList_text_tokenOf (byteLength before) cs l
  have happend := append_of_lexeme? hl
  refine ⟨?_, rfl, rfl, fun _ => List.mem_takeWhile_imp, h.last, ?_⟩
  · rw [htext, h.split, List.append_assoc, List.append_assoc, happend,
      List.takeWhile_append_dropWhile]
  · rw [htext, happend]
    exact stops_dropWhile isBlank cs

theorem ReadUpTo.standsIn_endOfInput (h : ReadUpTo whole before cs)
    (hl : cs.dropWhile isBlank = []) :
    Token.StandsIn ⟨.endOfInput, byteLength before, byteLength cs, ""⟩ whole before cs [] := by
  refine ⟨?_, rfl, rfl, List.dropWhile_eq_nil_iff.1 hl, h.last, stops_nil _⟩
  rw [h.split, String.toList_empty, List.append_nil, List.append_nil]

theorem ReadUpTo.next (h : ReadUpTo whole before cs)
    (hl : lexeme? (cs.dropWhile isBlank) = some l) (hkind : l.kind ≠ .endOfInput) :
    ReadUpTo whole (before ++ cs.takeWhile isBlank ++ l.text) l.rest := by
  constructor
  · rw [h.split, List.append_assoc, List.append_assoc, append_of_lexeme? hl,
      List.takeWhile_append_dropWhile]
  · -- The last character that was read is the last one of the lexeme, which is not empty.
    have hshape := isLexeme_lexeme? hl
    intro c hc
    rw [List.getLast?_append] at hc
    cases hlast : l.text.getLast? with
    | none =>
      exact absurd (hshape.text_eq_nil_iff.1 (List.getLast?_eq_none_iff.1 hlast)) hkind
    | some d =>
      rw [hlast] at hc
      cases hc
      exact hshape.last_not_blank _ hlast

theorem stop_tokenOf_byteLength (before cs : List Char) (l : Lexeme) :
    (tokenOf (byteLength before) cs l).stop =
      byteLength (before ++ cs.takeWhile isBlank ++ l.text) := by
  rw [stop_tokenOf, byteLength_append, byteLength_append]

theorem standsIn_of_mem_tokensAt {t : Token} (h : ReadUpTo whole before cs)
    (ht : t ∈ tokensAt (byteLength before) cs) :
    ∃ front blanks after, t.StandsIn whole front blanks after ∧
      IsLexeme t.kind t.text.toList after := by
  induction cs using text_induction generalizing before with
  | stuck cs hl =>
    rw [tokensAt_of_none hl] at ht
    cases ht
  | blank cs hl =>
    rw [tokensAt_of_blank hl, List.mem_singleton] at ht
    rw [ht]
    exact ⟨_, _, _, h.standsIn_endOfInput hl, .endOfInput⟩
  | take cs l hl hkind ih =>
    rw [tokensAt_of_some hl hkind, List.mem_cons] at ht
    rcases ht with rfl | ht
    · refine ⟨_, _, _, h.standsIn hl, ?_⟩
      rw [toList_text_tokenOf]
      exact isLexeme_lexeme? hl
    · rw [stop_tokenOf_byteLength] at ht
      exact ih (h.next hl hkind) ht

theorem blankStart_head_tokensAt (p : Nat) (cs : List Char) :
    ∀ t ∈ (tokensAt p cs).head?, t.blankStart = p := by
  intro t ht
  cases cs using text_induction with
  | stuck cs hl => rw [tokensAt_of_none hl] at ht; cases ht
  | blank cs hl => rw [tokensAt_of_blank hl] at ht; cases ht; rfl
  | take cs l hl hkind => rw [tokensAt_of_some hl hkind] at ht; cases ht; rfl

theorem isChain_tokensAt (p : Nat) (cs : List Char) :
    (tokensAt p cs).IsChain fun t u => u.blankStart = t.stop := by
  induction cs using text_induction generalizing p with
  | stuck cs hl => rw [tokensAt_of_none hl]; exact .nil
  | blank cs hl => rw [tokensAt_of_blank hl]; exact .singleton _
  | take cs l hl hkind ih =>
    rw [tokensAt_of_some hl hkind, List.isChain_cons]
    exact ⟨blankStart_head_tokensAt _ _, ih _⟩

theorem exists_not_blank_of_none (hl : lexeme? (cs.dropWhile isBlank) = none) :
    ∃ c ∈ cs, isBlank c = false := by
  -- Were nothing left but blanks, the end of input would be a lexeme.
  cases hdrop : cs.dropWhile isBlank with
  | nil =>
    rw [hdrop] at hl
    cases hl
  | cons c rest =>
    have hmem : c ∈ cs.dropWhile isBlank := hdrop ▸ List.mem_cons_self
    have hstop := stops_dropWhile isBlank cs
    rw [hdrop, stops_cons] at hstop
    exact ⟨c, (List.dropWhile_sublist isBlank).mem hmem, hstop⟩

theorem exists_rest_tokensAt (h : ReadUpTo whole before cs) :
    ∃ rest, cs = ((tokensAt (byteLength before) cs).flatMap fun t =>
        (t.piece (String.ofList whole)).toList) ++ rest ∧
      ((∃ t ∈ tokensAt (byteLength before) cs, t.kind = .endOfInput) → rest = []) ∧
      ((∀ t ∈ tokensAt (byteLength before) cs, t.kind ≠ .endOfInput) →
        ∃ c ∈ rest, isBlank c = false) := by
  induction cs using text_induction generalizing before with
  | stuck cs hl =>
    rw [tokensAt_of_none hl]
    refine ⟨cs, rfl, fun ⟨_, ht, _⟩ => absurd ht List.not_mem_nil, fun _ => ?_⟩
    exact exists_not_blank_of_none hl
  | blank cs hl =>
    have hpiece := (h.standsIn_endOfInput hl).piece
    rw [String.toList_empty, List.append_nil] at hpiece
    rw [tokensAt_of_blank hl]
    refine ⟨[], ?_, fun _ => rfl, fun hno => absurd rfl (hno _ List.mem_cons_self)⟩
    rw [List.flatMap_singleton, hpiece, List.append_nil]
  | take cs l hl hkind ih =>
    obtain ⟨rest, hrest, hend, hstuck⟩ := ih (h.next hl hkind)
    have hpiece := (h.standsIn hl).piece
    rw [toList_text_tokenOf] at hpiece
    rw [tokensAt_of_some hl hkind, stop_tokenOf_byteLength]
    refine ⟨rest, ?_, ?_, ?_⟩
    · rw [List.flatMap_cons, hpiece, List.append_assoc, ← hrest, List.append_assoc,
        append_of_lexeme? hl, List.takeWhile_append_dropWhile]
    · rintro ⟨t, ht, htkind⟩
      rcases List.mem_cons.1 ht with rfl | ht
      · exact absurd htkind hkind
      · exact hend ⟨t, ht, htkind⟩
    · exact fun hno => hstuck fun t ht => hno t (List.mem_cons_of_mem _ ht)

theorem tiles_lex (s : String) : Tiles s (lex s).toList := by
  have htext : String.ofList s.toList = s := String.ofList_toList
  constructor
  · exact blankStart_head_tokensAt 0 s.toList
  · exact isChain_tokensAt 0 s.toList
  all_goals
    intro t ht
    obtain ⟨_, _, _, h, -⟩ := standsIn_of_mem_tokensAt (readUpTo_start s) ht
  · exact htext ▸ h.isBlankRun
  · exact htext ▸ h.slice_text
  · exact htext ▸ h.boundaries

theorem kind_ne_of_mem_dropLast (s : String) :
    ∀ t ∈ (lex s).toList.dropLast, t.kind ≠ .endOfInput := by
  intro t ht
  have hmem : t.content ∈ (contents s.toList).dropLast := by
    rw [contents, ← List.map_dropLast]
    exact List.mem_map_of_mem ht
  obtain ⟨ws, rest, hscan, rfl | hstuck⟩ := exists_scans s.toList
  · rw [hscan.contents, contents_nil, List.dropLast_concat] at hmem
    exact hscan.kind_ne _ hmem
  · rw [hscan.contents, contents_of_none hstuck, List.append_nil] at hmem
    exact hscan.kind_ne _ ((List.dropLast_sublist ws).mem hmem)

theorem lex_tiles_source (s : String) :
    Tiles s (lex s).toList ∧
      (∀ t ∈ (lex s).toList.dropLast, t.kind ≠ .endOfInput) ∧
      (∀ t ∈ (lex s).toList, t.text = "" ↔ t.kind = .endOfInput) ∧
      ∃ rest, s = String.join ((lex s).toList.map (Token.piece s)) ++ rest ∧
        ((lex s).isTerminated = true → rest = "") ∧
        ((lex s).isTerminated = false → ∃ c ∈ rest.toList, isBlank c = false) := by
  refine ⟨tiles_lex s, kind_ne_of_mem_dropLast s, fun t ht => ?_, ?_⟩
  · obtain ⟨_, hl⟩ := isLexeme_of_mem_tokensAt ht
    rw [← hl.text_eq_nil_iff, String.toList_eq_nil_iff]
  · have hstart : ReadUpTo s.toList [] s.toList := ⟨rfl, fun _ h => nomatch h⟩
    obtain ⟨rest, hrest, hend, hstuck⟩ := exists_rest_tokensAt hstart
    rw [String.ofList_toList] at hrest
    refine ⟨String.ofList rest, ?_, fun h => ?_, fun h => ?_⟩
    · apply String.toList_injective
      rw [String.toList_append, String.toList_ofList, String.toList_join, List.flatMap_map]
      exact hrest
    · rw [hend ((isTerminated_lex_iff s).1 h)]
    · rw [String.toList_ofList]
      refine hstuck fun t ht hkind => ?_
      rw [(isTerminated_lex_iff s).2 ⟨t, ht, hkind⟩] at h
      exact Bool.noConfusion h

end CondLang
