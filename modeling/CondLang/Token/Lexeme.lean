import CondLang.Token

/-!
The token at the start of a text that does not begin with a blank. The first character settles the
kind, save that `true` and `false` are taken out of the start of a word.
-/

namespace CondLang

structure Lexeme where
  kind : TokenKind
  text : List Char
  rest : List Char

/-- The lexeme of a text that begins with a letter: a boolean literal if one stands there, whatever
follows it, else the longest run of letters and digits. -/
def wordLexeme (cs : List Char) : Lexeme :=
  if ['t', 'r', 'u', 'e'].isPrefixOf cs then ⟨.booleanLiteral, cs.take 4, cs.drop 4⟩
  else if ['f', 'a', 'l', 's', 'e'].isPrefixOf cs then ⟨.booleanLiteral, cs.take 5, cs.drop 5⟩
  else ⟨.symbol, cs.takeWhile Char.isAlphanum, cs.dropWhile Char.isAlphanum⟩

def digitsLexeme (cs : List Char) : Lexeme :=
  ⟨.intLiteral, cs.takeWhile Char.isDigit, cs.dropWhile Char.isDigit⟩

def stringLexeme? (cs : List Char) : Option Lexeme :=
  match cs.dropWhile (· ≠ '"') with
  | [] => none
  | quote :: rest => some ⟨.stringLiteral, '"' :: cs.takeWhile (· ≠ '"') ++ [quote], rest⟩

def lexeme? : List Char → Option Lexeme
  | [] => some ⟨.endOfInput, [], []⟩
  | c :: cs =>
    if c = '(' then some ⟨.leftParen, ['('], cs⟩
    else if c = ')' then some ⟨.rightParen, [')'], cs⟩
    else if c = '"' then stringLexeme? cs
    else if c.isAlpha then some (wordLexeme (c :: cs))
    else if c.isDigit then some (digitsLexeme (c :: cs))
    else none

theorem wordLexeme_append (cs : List Char) : (wordLexeme cs).text ++ (wordLexeme cs).rest = cs := by
  unfold wordLexeme
  split
  · exact List.take_append_drop 4 cs
  · split
    · exact List.take_append_drop 5 cs
    · exact List.takeWhile_append_dropWhile

theorem digitsLexeme_append (cs : List Char) :
    (digitsLexeme cs).text ++ (digitsLexeme cs).rest = cs :=
  List.takeWhile_append_dropWhile

theorem stringLexeme?_append {cs : List Char} {l : Lexeme} (h : stringLexeme? cs = some l) :
    l.text ++ l.rest = '"' :: cs := by
  unfold stringLexeme? at h
  split at h
  · cases h
  · next quote rest hrest =>
    cases h
    simp [← hrest, List.takeWhile_append_dropWhile]

theorem append_of_lexeme? {cs : List Char} {l : Lexeme} (h : lexeme? cs = some l) :
    l.text ++ l.rest = cs := by
  cases cs with
  | nil => cases h; rfl
  | cons c cs =>
    simp only [lexeme?] at h
    split at h
    · next hc => cases h; simp [hc]
    split at h
    · next hc => cases h; simp [hc]
    split at h
    · next hc => rw [hc]; exact stringLexeme?_append h
    split at h
    · cases h; exact wordLexeme_append _
    split at h
    · cases h; exact digitsLexeme_append _
    · cases h

theorem wordLexeme_text_ne_nil {c : Char} (cs : List Char) (hc : c.isAlpha = true) :
    (wordLexeme (c :: cs)).text ≠ [] := by
  unfold wordLexeme
  split
  · simp
  · split
    · simp
    · simp [Char.isAlphanum, hc]

theorem stringLexeme?_text_ne_nil {cs : List Char} {l : Lexeme} (h : stringLexeme? cs = some l) :
    l.text ≠ [] := by
  unfold stringLexeme? at h
  split at h
  · cases h
  · cases h; simp

theorem lexeme?_text_ne_nil {cs : List Char} {l : Lexeme} (h : lexeme? cs = some l)
    (hk : l.kind ≠ .endOfInput) : l.text ≠ [] := by
  cases cs with
  | nil => cases h; exact absurd rfl hk
  | cons c cs =>
    simp only [lexeme?] at h
    split at h
    · cases h; simp
    split at h
    · cases h; simp
    split at h
    · exact stringLexeme?_text_ne_nil h
    split at h
    · next hc => cases h; exact wordLexeme_text_ne_nil cs hc
    split at h
    · next hc => cases h; simp [digitsLexeme, hc]
    · cases h

theorem length_rest_lt {cs : List Char} {l : Lexeme} (h : lexeme? cs = some l)
    (hk : l.kind ≠ .endOfInput) : l.rest.length < cs.length := by
  have happ := congrArg List.length (append_of_lexeme? h)
  have hpos := List.length_pos_iff.2 (lexeme?_text_ne_nil h hk)
  rw [List.length_append] at happ
  omega

end CondLang
