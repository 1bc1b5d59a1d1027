import CondLang.Json.Numeral
import CondLang.Json.Quoted

/-!
The tokens of JSON, as they are written and read.
-/

namespace CondLang.Json

inductive Token where
  | openArr
  | closeArr
  | openObj
  | closeObj
  | comma
  | colon
  | null
  | bool (b : Bool)
  | int (n : Int)
  | real (literal : String)
  | str (text : Option String)
  deriving DecidableEq, Repr

/-- How a token is written; a string that is no text, as the replacement character. -/
def Token.chars : Token → List Char
  | openArr => ['[']
  | closeArr => [']']
  | openObj => ['\x7b']
  | closeObj => ['\x7d']
  | comma => [',']
  | colon => [':']
  | null => ['n', 'u', 'l', 'l']
  | bool true => ['t', 'r', 'u', 'e']
  | bool false => ['f', 'a', 'l', 's', 'e']
  | int n => Decimal.numeral n
  | real literal => literal.toList
  | str text => quote (text.getD "\ufffd").toList

def Token.ofNumeral (n : Numeral) : Token :=
  match n.int? with
  | some i => .int i
  | none => .real (String.ofList n.literal)

def isBlank (c : Char) : Bool :=
  c = ' ' || c = '\t' || c = '\n' || c = '\r'

def readNumber? (negative : Bool) (cs : List Char) : Option (Token × List Char) :=
  (readNumeral? negative cs).map fun (n, rest) => (.ofNumeral n, rest)

def readToken? : List Char → Option (Token × List Char)
  | '[' :: cs => some (.openArr, cs)
  | ']' :: cs => some (.closeArr, cs)
  | '\x7b' :: cs => some (.openObj, cs)
  | '\x7d' :: cs => some (.closeObj, cs)
  | ',' :: cs => some (.comma, cs)
  | ':' :: cs => some (.colon, cs)
  | 'n' :: 'u' :: 'l' :: 'l' :: cs => some (.null, cs)
  | 't' :: 'r' :: 'u' :: 'e' :: cs => some (.bool true, cs)
  | 'f' :: 'a' :: 'l' :: 's' :: 'e' :: cs => some (.bool false, cs)
  | '"' :: cs => (readQuoted? cs).map fun (text, rest) => (.str (text.map String.ofList), rest)
  | '-' :: cs => readNumber? true cs
  | cs => readNumber? false cs

theorem length_readNumber_lt {negative : Bool} {cs rest : List Char} {t : Token}
    (h : readNumber? negative cs = some (t, rest)) : rest.length < cs.length := by
  obtain ⟨⟨n, r⟩, hn, he⟩ := Option.map_eq_some_iff.1 h
  cases he
  exact length_readNumeral_lt hn

theorem length_readToken_lt {cs rest : List Char} {t : Token} (h : readToken? cs = some (t, rest)) :
    rest.length < cs.length := by
  unfold readToken? at h
  split at h
  case h_10 =>
    obtain ⟨⟨text, r⟩, hq, he⟩ := Option.map_eq_some_iff.1 h
    cases he
    exact Nat.lt_succ_of_lt (length_readQuoted_lt hq)
  case h_11 => exact Nat.lt_succ_of_lt (length_readNumber_lt h)
  case h_12 => exact length_readNumber_lt h
  all_goals
    cases h
    simp only [List.length_cons]
    omega

def readTokens? (cs : List Char) : Option (List Token) :=
  match _hcs : cs.dropWhile isBlank with
  | [] => some []
  | c :: cs' =>
    match _ht : readToken? (c :: cs') with
    | some (t, rest) => (readTokens? rest).map (t :: ·)
    | none => none
termination_by cs.length
decreasing_by
  have hlt := length_readToken_lt _ht
  have hle := (List.dropWhile_suffix (l := cs) isBlank).length_le
  rw [_hcs] at hle
  omega

end CondLang.Json
