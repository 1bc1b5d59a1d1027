import CondLang.Proofs.Scanning

/-! Which texts can be read to their end, told character by character. Inside of a string anything
may stand, and outside of one only blanks, parentheses, letters and digits. -/

namespace CondLang

inductive ScanMode where
  | outside
  | inside
  deriving DecidableEq, Repr

def isPlain (c : Char) : Bool :=
  isBlank c || c = '(' || c = ')' || c.isAlpha || c.isDigit

namespace ScanMode

def next? : ScanMode → Char → Option ScanMode
  | outside, c => if c = '"' then some inside else if isPlain c then some outside else none
  | inside, c => if c = '"' then some outside else some inside

def scan? (mode : ScanMode) (cs : List Char) : Option ScanMode :=
  cs.foldlM next? mode

variable {cs rest text body : List Char} {c : Char}

theorem scan?_cons (mode : ScanMode) (c : Char) (cs : List Char) :
    mode.scan? (c :: cs) = (mode.next? c).bind fun next => next.scan? cs :=
  rfl

theorem scan?_append (mode : ScanMode) (cs rest : List Char) :
    mode.scan? (cs ++ rest) = (mode.scan? cs).bind fun next => next.scan? rest :=
  List.foldlM_append

theorem next?_of_isPlain (h : isPlain c = true) : next? .outside c = some .outside := by
  have hquote : c ≠ '"' := ne_of_class h (by decide)
  rw [next?, if_neg hquote, if_pos h]

theorem scan?_of_isPlain (h : ∀ c ∈ text, isPlain c = true) :
    scan? .outside text = some .outside := by
  induction text with
  | nil => rfl
  | cons c text ih =>
    obtain ⟨hc, htext⟩ := List.forall_mem_cons.1 h
    rw [scan?_cons, next?_of_isPlain hc, Option.bind_some, ih htext]

theorem scan?_of_not_mem (h : '"' ∉ body) : scan? .inside body = some .inside := by
  induction body with
  | nil => rfl
  | cons c body ih =>
    rw [List.mem_cons, not_or] at h
    have hc : c ≠ '"' := fun heq => h.1 heq.symm
    rw [scan?_cons, next?, if_neg hc, Option.bind_some, ih h.2]

theorem isPlain_of_isAlphanum (h : c.isAlphanum = true) : isPlain c = true := by
  rw [Char.isAlphanum, Bool.or_eq_true] at h
  rcases h with h | h <;> simp [isPlain, h]

theorem scan?_text {kind : TokenKind} (h : IsLexeme kind text rest) :
    scan? .outside text = some .outside := by
  cases h with
  | leftParen | rightParen | endOfInput => rfl
  | symbol h => exact scan?_of_isPlain fun c hc => isPlain_of_isAlphanum (h.isAlphanum c hc)
  | boolean b => cases b <;> rfl
  | int h =>
    exact scan?_of_isPlain fun c hc => isPlain_of_isAlphanum (isAlphanum_of_isDigit (h.2 c hc))
  | @string body h =>
    have hbody : scan? .outside ('"' :: body) = some .inside := scan?_of_not_mem h
    rw [scan?_append, hbody]
    rfl

theorem scan?_of_scans {ws : List Content} (h : Scans cs ws rest) :
    scan? .outside cs = scan? .outside rest := by
  induction h with
  | done => rfl
  | @blank c cs rest ws hc _ ih =>
    have hplain : isPlain c = true := by simp [isPlain, hc]
    rw [scan?_cons, next?_of_isPlain hplain, Option.bind_some, ih]
  | take hl _ _ ih => rw [scan?_append, scan?_text hl, Option.bind_some, ih]

theorem scan?_of_lexeme?_none (h : lexeme? cs = none) (hblank : Stops isBlank cs) :
    scan? .outside cs ≠ some .outside := by
  obtain ⟨c, rest, rfl, ⟨rfl, hrest⟩ | ⟨hquote, hopen, hclose, halpha, hdigit⟩⟩ :=
    lexeme?_eq_none_iff.1 h
  · have hinside : scan? .outside ('"' :: rest) = some .inside := scan?_of_not_mem hrest
    rw [hinside]
    decide
  · have hplain : isPlain c = false := by
      simp [isPlain, stops_cons.1 hblank, hopen, hclose, halpha, hdigit]
    rw [scan?_cons, next?, if_neg hquote, hplain]
    nofun

end ScanMode

theorem isTerminated_lex_iff_outside (s : String) :
    (lex s).isTerminated = true ↔ ScanMode.outside.scan? s.toList = some .outside := by
  rw [isTerminated_lex_iff_scans]
  constructor
  · rintro ⟨ws, hscan⟩
    exact ScanMode.scan?_of_scans hscan
  · intro h
    obtain ⟨ws, rest, hscan, rfl | hstuck⟩ := exists_scans s.toList
    · exact ⟨ws, hscan⟩
    · rw [ScanMode.scan?_of_scans (hscan.trans (.of_dropWhile (.done _)))] at h
      exact absurd h (ScanMode.scan?_of_lexeme?_none hstuck (stops_dropWhile isBlank rest))

end CondLang
