import CondLang.Text.Blank
import CondLang.Text.Utf8
import CondLang.Token.Lexeme
import CondLang.Token.List

/-!
The lexer. It stops behind the end of input, or at the first place where no lexeme stands; then the
list of tokens lacks its terminator, and the blanks before that place have been skipped.
-/

namespace CondLang

structure Lexer where
  rest : List Char
  /-- The offset of the first character of `rest`. -/
  position : Nat
  finished : Bool

namespace Lexer

def ofText (source : String) : Lexer :=
  ⟨source.toList, 0, false⟩

def next (lexer : Lexer) : Option Token × Lexer :=
  if lexer.finished then (none, lexer)
  else
    let blanks := byteLength (lexer.rest.takeWhile isBlank)
    let start := lexer.position + blanks
    let rest := lexer.rest.dropWhile isBlank
    match lexeme? rest with
    | none => (none, ⟨rest, start, true⟩)
    | some l =>
      (some ⟨l.kind, lexer.position, blanks, String.ofList l.text⟩,
        ⟨l.rest, start + byteLength l.text, l.kind = .endOfInput⟩)

def measure (lexer : Lexer) : Nat :=
  if lexer.finished then 0 else lexer.rest.length + 1

theorem measure_next_lt {lexer lexer' : Lexer} {t : Token} (h : lexer.next = (some t, lexer')) :
    lexer'.measure < lexer.measure := by
  unfold next at h
  split at h
  · cases h
  · next hf =>
    dsimp only at h
    split at h
    · cases h
    · next l hl =>
      cases h
      have hdrop := (List.dropWhile_suffix (l := lexer.rest) isBlank).length_le
      by_cases hk : l.kind = .endOfInput
      · simp [measure, hf, hk]
      · have := length_rest_lt hl hk
        simp only [measure, hf, hk]
        simp only [decide_false, Bool.false_eq_true, ↓reduceIte, gt_iff_lt]
        omega

def run (lexer : Lexer) : List Token × Lexer :=
  match _h : lexer.next with
  | (none, last) => ([], last)
  | (some t, lexer') =>
    let (tokens, last) := run lexer'
    (t :: tokens, last)
termination_by lexer.measure
decreasing_by exact measure_next_lt _h

theorem run_of_next_none {lexer last : Lexer} (h : lexer.next = (none, last)) :
    lexer.run = ([], last) := by
  rw [run]
  split <;> simp_all

theorem run_of_next_some {lexer lexer' : Lexer} {t : Token} (h : lexer.next = (some t, lexer')) :
    lexer.run = (t :: lexer'.run.1, lexer'.run.2) := by
  rw [run]
  split <;> simp_all

def drain (lexer : Lexer) : TokenList :=
  ⟨lexer.run.1⟩

end Lexer

def lex (source : String) : TokenList :=
  (Lexer.ofText source).drain

end CondLang
