import CondLang.Proofs.Tiling

/-! The layout of a text is the blanks around its tokens. They may be replaced by others, if only
none are taken away entirely from between two tokens; and the parser looks at kinds and texts of
tokens alone. -/

namespace CondLang

namespace Parse

def Step.bare : Step → Step
  | take _ next => take [] next
  | finish parsed => finish parsed
  | refuse _ cause => refuse [] cause

theorem bare_step {t u : Token} (h : t.content = u.content) (i : Nat) (due : Due)
    (opens : List Open) : (step i t due opens).bare = (step i u due opens).bare := by
  obtain ⟨kind, _, _, text⟩ := t
  obtain ⟨_, _, _, _⟩ := u
  cases h
  cases due with
  | operator | close | done => rfl
  | expression =>
    simp only [step, expressionStep]
    cases kind with
    | intLiteral => cases Literal.readInt? text <;> rfl
    | booleanLiteral => cases Literal.readBool? text <;> rfl
    | leftParen | rightParen | symbol | stringLiteral | endOfInput => rfl

theorem result_run_cons (due : Due) (opens : List Open) (i : Nat) (t : Token) (ts : List Token) :
    (run due opens i (t :: ts)).result = match (step i t due opens).bare with
      | .take _ next => (run next.1 next.2 (i + 1) ts).result
      | .finish parsed => .ok parsed
      | .refuse _ cause => (unwind ⟨cause, i⟩ opens).result := by
  rw [run]
  cases step i t due opens <;> rfl

theorem result_run_of_contents {ts us : List Token}
    (h : ts.map Token.content = us.map Token.content) (due : Due) (opens : List Open) (i : Nat) :
    (run due opens i ts).result = (run due opens i us).result := by
  induction ts generalizing us due opens i with
  | nil =>
    rw [List.map_nil, eq_comm, List.map_eq_nil_iff] at h
    rw [h]
  | cons t ts ih =>
    obtain ⟨u, us, rfl, hu, hus⟩ := List.map_eq_cons_iff.1 h.symm
    rw [result_run_cons, result_run_cons, bare_step hu.symm]
    cases (step i u due opens).bare with
    | take _ next => exact ih hus.symm _ _ _
    | finish | refuse => rfl

end Parse

theorem parse_eq_of_contents {ts us : List Token}
    (h : ts.map Token.content = us.map Token.content) : parse ts = parse us :=
  Parse.result_run_of_contents h .expression [] 0

theorem isTerminated_eq_of_contents {s s' : String}
    (h : (lex s').toList.map Token.content = (lex s).toList.map Token.content) :
    (lex s').isTerminated = (lex s).isTerminated := by
  have hlast : ∀ ts : TokenList, ts.isTerminated =
      (ts.toList.map Token.content).getLast?.any fun w => w.1 = .endOfInput := by
    intro ts
    rw [TokenList.isTerminated, TokenList.last?, List.getLast?_map, Option.any_map]
    rfl
  rw [hlast, hlast, h]

theorem compile_eq_of_contents {s s' : String}
    (h : (lex s').toList.map Token.content = (lex s).toList.map Token.content) :
    Condition.compile s' = Condition.compile s :=
  congrArg (Except.map Parsed.expr) (parse_eq_of_contents h)

section Follow
variable {kind : TokenKind} {text rest rest' : List Char}

/-- What now follows is what followed before, or it begins with a blank, or nothing follows. -/
def Loosened (rest rest' : List Char) : Prop :=
  ∀ c ∈ rest'.head?, isBlank c = true ∨ c ∈ rest.head?

theorem Loosened.refl (rest : List Char) : Loosened rest rest :=
  fun _ hc => .inr hc

theorem Loosened.stops {p : Char → Bool} (h : Loosened rest rest')
    (hp : ∀ c, p c = true → isBlank c = false) (hrest : Stops p rest) : Stops p rest' := by
  intro c hc
  rcases h c hc with hblank | hold
  · rw [← Bool.not_eq_true]
    intro hpc
    rw [hp c hpc] at hblank
    exact Bool.false_ne_true hblank
  · exact hrest c hold

theorem IsLexeme.loosen (h : IsLexeme kind text rest) (hkind : kind ≠ .endOfInput)
    (hrest : Loosened rest rest') : IsLexeme kind text rest' :=
  h.of_stops hkind fun _ hp hstops =>
    hrest.stops (fun c hc => isBlank_eq_false_of_isAlphanum (hp c hc)) hstops

theorem loosened_append (htext : text ≠ []) (rest rest' : List Char) :
    Loosened (text ++ rest) (text ++ rest') := by
  obtain ⟨c, cs, rfl⟩ := List.exists_cons_of_ne_nil htext
  exact fun _ hc => .inr hc

theorem Loosened.run {run run' : String} (h : Loosened rest rest')
    (hrun' : ∀ c ∈ run'.toList, isBlank c = true) (hkept : run' = "" → run = "") :
    Loosened (run.toList ++ rest) (run'.toList ++ rest') := by
  cases hcs : run'.toList with
  | nil =>
    have hrun : run = "" := hkept (String.toList_eq_nil_iff.1 hcs)
    rw [hrun]
    exact h
  | cons c cs =>
    intro d hd
    cases hd
    exact .inl (hrun' _ (hcs ▸ List.mem_cons_self))

end Follow

abbrev Kept : List String → List String → Prop :=
  List.Forall₂ fun run run' => run' = "" → run = ""

/-- These tokens are read one after another, each of them behind its run of blanks, and leave a
tail. -/
inductive Laid : List String → List Token → List Char → List Char → Prop
  | done (tail : List Char) : Laid [] [] tail tail
  | word {run : String} {runs : List String} {t : Token} {ts : List Token} {tail cs : List Char}
    (hrun : ∀ c ∈ run.toList, isBlank c = true) (hkind : t.kind ≠ .endOfInput)
    (hl : IsLexeme t.kind t.text.toList cs) (h : Laid runs ts tail cs) :
    Laid (run :: runs) (t :: ts) tail (run.toList ++ (t.text.toList ++ cs))

namespace Laid

variable {runs runs' : List String} {ts : List Token} {tail tail' cs : List Char}

theorem token {l : Lexeme} (p : Nat) (hl : lexeme? (cs.dropWhile isBlank) = some l)
    (hkind : l.kind ≠ .endOfInput) (h : Laid runs ts tail l.rest) :
    Laid (String.ofList (cs.takeWhile isBlank) :: runs) (tokenOf p cs l :: ts) tail cs := by
  have hrun : ∀ c ∈ (String.ofList (cs.takeWhile isBlank)).toList, isBlank c = true := by
    rw [String.toList_ofList]
    exact fun _ => List.mem_takeWhile_imp
  have hshape : IsLexeme (tokenOf p cs l).kind (tokenOf p cs l).text.toList l.rest := by
    rw [toList_text_tokenOf]
    exact isLexeme_lexeme? hl
  have hword := Laid.word hrun hkind hshape h
  rwa [toList_text_tokenOf, append_of_lexeme? hl, String.toList_ofList,
    List.takeWhile_append_dropWhile] at hword

theorem scans (h : Laid runs ts tail cs) : Scans cs (ts.map Token.content) tail := by
  induction h with
  | done tail => exact .done tail
  | word hrun hkind hl _ ih =>
    have htake := Scans.take hl hkind ih
    rw [String.ofList_toList] at htake
    exact .blanks hrun htake

theorem eq_append (h : Laid runs ts tail cs) :
    cs = (String.join (List.zipWith (· ++ ·) runs (ts.map Token.text))).toList ++ tail := by
  induction h with
  | done => rfl
  | word _ _ _ _ ih =>
    rw [List.map_cons, List.zipWith_cons_cons, String.join_cons, String.toList_append,
      String.toList_append, List.append_assoc, List.append_assoc, ← ih]

theorem blank (h : Laid runs ts tail cs) : ∀ run ∈ runs, ∀ c ∈ run.toList, isBlank c = true := by
  induction h with
  | done => exact fun _ hrun => nomatch hrun
  | word hrun _ _ _ ih => exact List.forall_mem_cons.2 ⟨hrun, ih⟩

theorem respace (h : Laid runs ts tail cs) (htail : Loosened tail tail')
    (hblank : ∀ run ∈ runs', ∀ c ∈ run.toList, isBlank c = true) (hkept : Kept runs runs') :
    ∃ cs', Laid runs' ts tail' cs' ∧ Loosened cs cs' := by
  induction h generalizing runs' with
  | done tail =>
    cases hkept
    exact ⟨tail', .done tail', htail⟩
  | word hrun hkind hl _ ih =>
    cases hkept with
    | cons hfirst hkept =>
      obtain ⟨hrun', hblank⟩ := List.forall_mem_cons.1 hblank
      obtain ⟨cs', hlaid, hloose⟩ := ih htail hblank hkept
      have htext := mt hl.text_eq_nil_iff.1 hkind
      refine ⟨_, .word hrun' hkind (hl.loosen hkind hloose) hlaid, ?_⟩
      exact (loosened_append htext _ _).run hrun' hfirst

theorem respace_first (h : Laid runs ts tail cs) (htail : Loosened tail tail')
    (hlength : runs'.length = runs.length)
    (hblank : ∀ run ∈ runs', ∀ c ∈ run.toList, isBlank c = true)
    (hkept : Kept runs.tail runs'.tail) : ∃ cs', Laid runs' ts tail' cs' := by
  cases h with
  | done =>
    rw [List.eq_nil_of_length_eq_zero hlength]
    exact ⟨_, .done tail'⟩
  | word hrun hkind hl h =>
    obtain ⟨run', runs', rfl⟩ := List.exists_cons_of_length_eq_add_one hlength
    obtain ⟨hrun', hblank⟩ := List.forall_mem_cons.1 hblank
    obtain ⟨cs', hlaid, hloose⟩ := h.respace htail hblank hkept
    exact ⟨_, .word hrun' hkind (hl.loosen hkind hloose) hlaid⟩

end Laid

def words (s : String) : List Token :=
  (lex s).toList.filter fun t => t.kind ≠ .endOfInput

structure Layout where
  runs : List String
  last : String
  rest : String
  deriving DecidableEq, Repr

namespace Layout

def of (s : String) : Layout :=
  let behind := slice s (stopBehind 0 (words s)) s.utf8ByteSize
  { runs := (words s).map fun t => slice s t.blankStart t.start
    last := String.ofList (behind.toList.takeWhile isBlank)
    rest := String.ofList (behind.toList.dropWhile isBlank) }

def around (layout : Layout) (texts : List String) : String :=
  String.join (List.zipWith (· ++ ·) layout.runs texts) ++ layout.last ++ layout.rest

/-- Blanks have been put in the place of blanks. Between two words, and between the last word and a
rest that is not empty, some are left where there were some. -/
structure Respaced (old new : Layout) : Prop where
  length : new.runs.length = old.runs.length
  blank : ∀ run ∈ new.last :: new.runs, ∀ c ∈ run.toList, isBlank c = true
  kept : Kept old.runs.tail new.runs.tail
  kept_last : old.rest ≠ "" → new.last = "" → old.last = ""
  rest : new.rest = old.rest

end Layout

def wordsAt (p : Nat) (cs : List Char) : List Token :=
  (tokensAt p cs).filter fun t => t.kind ≠ .endOfInput

theorem wordsAt_of_some {cs : List Char} {l : Lexeme}
    (h : lexeme? (cs.dropWhile isBlank) = some l) (hkind : l.kind ≠ .endOfInput) (p : Nat) :
    wordsAt p cs = tokenOf p cs l :: wordsAt (tokenOf p cs l).stop l.rest := by
  rw [wordsAt, tokensAt_of_some h hkind]
  exact List.filter_cons_of_pos (decide_eq_true hkind)

theorem exists_laid {whole before cs : List Char} (h : ReadUpTo whole before cs) :
    ∃ front tail, whole = front ++ tail ∧
      stopBehind (byteLength before) (wordsAt (byteLength before) cs) = byteLength front ∧
      Laid ((wordsAt (byteLength before) cs).map fun t =>
        slice (String.ofList whole) t.blankStart t.start) (wordsAt (byteLength before) cs) tail cs ∧
      (tail.dropWhile isBlank = [] ∨ lexeme? (tail.dropWhile isBlank) = none) := by
  induction cs using text_induction generalizing before with
  | stuck cs hl =>
    rw [wordsAt, tokensAt_of_none hl]
    exact ⟨before, cs, h.split, rfl, .done cs, .inr hl⟩
  | blank cs hl =>
    rw [wordsAt, tokensAt_of_blank hl]
    exact ⟨before, cs, h.split, rfl, .done cs, .inl hl⟩
  | take cs l hl hkind ih =>
    obtain ⟨front, tail, hsplit, hstop, hlaid, hend⟩ := ih (h.next hl hkind)
    rw [wordsAt_of_some hl hkind, stopBehind_cons, stop_tokenOf_byteLength]
    refine ⟨front, tail, hsplit, hstop, ?_, hend⟩
    rw [List.map_cons, (h.standsIn hl).slice_blanks]
    exact hlaid.token _ hl hkind

theorem laid_words (s : String) : ∃ tail,
    slice s (stopBehind 0 (words s)) s.utf8ByteSize = String.ofList tail ∧
    Laid (Layout.of s).runs (words s) tail s.toList ∧
    (tail.dropWhile isBlank = [] ∨ lexeme? (tail.dropWhile isBlank) = none) := by
  obtain ⟨front, tail, hsplit, hstop, hlaid, hend⟩ := exists_laid (readUpTo_start s)
  rw [String.ofList_toList] at hlaid
  refine ⟨tail, ?_, hlaid, hend⟩
  have hsize : s.utf8ByteSize = byteLength s.toList := by
    rw [← utf8ByteSize_eq_byteLength, String.ofList_toList]
  have hslice := slice_append front tail []
  rw [List.append_nil, ← hsplit, ← hstop, ← hsize, String.ofList_toList] at hslice
  exact hslice

namespace Layout

theorem blank_last (s : String) : ∀ c ∈ (of s).last.toList, isBlank c = true := by
  rw [of, String.toList_ofList]
  exact fun _ => List.mem_takeWhile_imp

theorem stops_rest (s : String) : Stops isBlank (of s).rest.toList := by
  rw [of, String.toList_ofList]
  exact stops_dropWhile isBlank _

theorem laid_of (s : String) :
    Laid (of s).runs (words s) ((of s).last.toList ++ (of s).rest.toList) s.toList ∧
      ((of s).rest = "" ∨ lexeme? (of s).rest.toList = none) := by
  obtain ⟨tail, htail, hlaid, hend⟩ := laid_words s
  have hlast : (of s).last.toList = tail.takeWhile isBlank := by
    simp only [of, htail, String.toList_ofList]
  have hrest : (of s).rest.toList = tail.dropWhile isBlank := by
    simp only [of, htail, String.toList_ofList]
  rw [← String.toList_eq_nil_iff, hlast, hrest, List.takeWhile_append_dropWhile]
  exact ⟨hlaid, hend⟩

theorem toList_around (layout : Layout) (texts : List String) :
    (layout.around texts).toList = (String.join (List.zipWith (· ++ ·) layout.runs texts)).toList ++
      (layout.last.toList ++ layout.rest.toList) := by
  rw [around, String.toList_append, String.toList_append, List.append_assoc]

theorem around_of (s : String) : (of s).around ((words s).map Token.text) = s := by
  apply String.toList_injective
  rw [toList_around]
  exact (laid_of s).1.eq_append.symm

theorem contents_eq {layout : Layout} {ts : List Token} {cs : List Char}
    (h : Laid layout.runs ts (layout.last.toList ++ layout.rest.toList) cs)
    (hlast : ∀ c ∈ layout.last.toList, isBlank c = true) :
    contents cs = ts.map Token.content ++ contents layout.rest.toList := by
  rw [h.scans.contents, (Scans.blanks hlast (.done layout.rest.toList)).contents, List.nil_append]

theorem rest_eq_empty_iff (s : String) : (of s).rest = "" ↔ (lex s).isTerminated = true := by
  obtain ⟨hlaid, hend⟩ := laid_of s
  constructor
  · intro hrest
    rw [hrest] at hlaid
    have hscan := hlaid.scans.trans (.blanks (blank_last s) (.done _))
    exact hscan.isTerminated
  · intro h
    rcases hend with hrest | hstuck
    · exact hrest
    · obtain ⟨t, ht, hkind⟩ := (isTerminated_lex_iff s).1 h
      have hmem : t.content ∈ contents s.toList := List.mem_map_of_mem ht
      rw [← dropWhile_eq_self_of_stops (stops_rest s)] at hstuck
      rw [contents_eq hlaid (blank_last s), contents_of_none hstuck, List.append_nil] at hmem
      exact absurd hkind (hlaid.scans.kind_ne _ hmem)

theorem respaced_self (s : String) : (of s).Respaced (of s) := by
  obtain ⟨hlaid, -⟩ := laid_of s
  refine ⟨rfl, List.forall_mem_cons.2 ⟨blank_last s, hlaid.blank⟩, ?_, fun _ h => h, rfl⟩
  exact List.forall₂_same.2 fun _ _ h => h

variable {s : String} {new : Layout}

theorem Respaced.loosened {old : Layout} (h : old.Respaced new) :
    Loosened (old.last.toList ++ old.rest.toList) (new.last.toList ++ new.rest.toList) := by
  have hlast := (List.forall_mem_cons.1 h.blank).1
  rw [h.rest]
  by_cases hrest : old.rest = ""
  · rw [hrest, String.toList_empty, List.append_nil, List.append_nil]
    exact fun c hc => .inl (hlast c (List.mem_of_mem_head? hc))
  · exact (Loosened.refl old.rest.toList).run hlast (h.kept_last hrest)

theorem Respaced.contents_lex (h : (of s).Respaced new) :
    (lex (new.around ((words s).map Token.text))).toList.map Token.content =
      (lex s).toList.map Token.content := by
  obtain ⟨hlast, hblank⟩ := List.forall_mem_cons.1 h.blank
  obtain ⟨hlaid, -⟩ := laid_of s
  obtain ⟨cs, hnew⟩ := hlaid.respace_first h.loosened h.length hblank h.kept
  have hcs : (new.around ((words s).map Token.text)).toList = cs := by
    rw [toList_around]
    exact hnew.eq_append.symm
  have hcontents := contents_eq hnew hlast
  rw [h.rest, ← contents_eq hlaid (blank_last s), ← hcs] at hcontents
  exact hcontents

/-- The layout of a text does not matter: with other blanks around its words it has the same tokens,
is read to its end if it was before, and compiles to the same tree or fails in the same way. -/
theorem layout_never_matters (s : String) :
    ((of s).around ((words s).map Token.text) = s ∧ (of s).Respaced (of s) ∧
        ((of s).rest = "" ↔ (lex s).isTerminated = true)) ∧
      ∀ new, (of s).Respaced new →
        (lex (new.around ((words s).map Token.text))).toList.map Token.content =
            (lex s).toList.map Token.content ∧
          (lex (new.around ((words s).map Token.text))).isTerminated = (lex s).isTerminated ∧
          Condition.compile (new.around ((words s).map Token.text)) = Condition.compile s := by
  refine ⟨⟨around_of s, respaced_self s, rest_eq_empty_iff s⟩, fun new h => ?_⟩
  have hcontents := h.contents_lex
  exact ⟨hcontents, isTerminated_eq_of_contents hcontents, compile_eq_of_contents hcontents⟩

theorem layout_never_matters_respaced :
    let new : Layout := ⟨["", " ", "\u3000", " ", " "], "\n", "#"⟩
    of "(eq 12ab)#" = ⟨["", "", " ", "", ""], "", "#"⟩ ∧ (of "(eq 12ab)#").Respaced new ∧
      new.around ((words "(eq 12ab)#").map Token.text) = "( eq\u300012 ab )\n#" ∧
      (lex "( eq\u300012 ab )\n#").toList.map Token.content =
        (lex "(eq 12ab)#").toList.map Token.content ∧
      Condition.compile "( eq\u300012 ab )\n#" = Condition.compile "(eq 12ab)#" := by
  intro new
  have hold : of "(eq 12ab)#" = ⟨["", "", " ", "", ""], "", "#"⟩ := by decide +kernel
  have hblank : ((new.last :: new.runs).all fun run => run.toList.all isBlank) = true := by
    decide +kernel
  have hnew : (of "(eq 12ab)#").Respaced new := by
    simp only [List.all_eq_true] at hblank
    rw [hold]
    exact ⟨rfl, hblank, by simp [new], by simp [new], rfl⟩
  have hwords : (words "(eq 12ab)#").map Token.text = ["(", "eq", "12", "ab", ")"] := by
    decide +kernel
  have htext : new.around ((words "(eq 12ab)#").map Token.text) = "( eq\u300012 ab )\n#" := by
    rw [hwords]
    decide +kernel
  obtain ⟨htokens, -, hcompile⟩ := (layout_never_matters "(eq 12ab)#").2 new hnew
  rw [htext] at htokens hcompile
  exact ⟨hold, hnew, htext, htokens, hcompile⟩

end Layout

end CondLang
