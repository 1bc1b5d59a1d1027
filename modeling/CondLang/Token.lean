import CondLang.Text.Decimal
import CondLang.Text.Quoted

/-!
Tokens. A token records the blanks in front of it, so that a list of tokens still holds the layout
of the source. Offsets count bytes of UTF-8.
-/

namespace CondLang

/-- The kinds of tokens. The two boolean literals share one kind and differ in their text. -/
inductive TokenKind where
  | leftParen
  | rightParen
  | symbol
  | booleanLiteral
  | intLiteral
  | stringLiteral
  | endOfInput
  deriving DecidableEq, Repr

def TokenKind.all : List TokenKind :=
  [leftParen, rightParen, symbol, booleanLiteral, intLiteral, stringLiteral, endOfInput]

def TokenKind.name : TokenKind → String
  | leftParen => "LeftParen"
  | rightParen => "RightParen"
  | symbol => "Symbol"
  | booleanLiteral => "BooleanLiteral"
  | intLiteral => "IntLiteral"
  | stringLiteral => "StringLiteral"
  | endOfInput => "EndOfInput"

def TokenKind.displayName : TokenKind → String
  | leftParen => "'('"
  | rightParen => "')'"
  | symbol => "symbol"
  | booleanLiteral => "boolean literal"
  | intLiteral => "integer literal"
  | stringLiteral => "string literal"
  | endOfInput => "end of input"

structure Token where
  kind : TokenKind
  blankStart : Nat
  blankLength : Nat
  /-- The token as it was written; a string literal keeps its quotes. -/
  text : String
  deriving DecidableEq, Repr

namespace Token

def start (t : Token) : Nat :=
  t.blankStart + t.blankLength

def stop (t : Token) : Nat :=
  t.start + t.text.utf8ByteSize

def display (t : Token) : String :=
  String.ofList (t.kind.displayName.toList ++ ' ' :: Quoted.text t.text.toList ++
    [' ', '@'] ++ Decimal.digits t.start)

def outline (t : Token) : String :=
  String.ofList ("Token \x7b kind: ".toList ++ t.kind.name.toList ++
    ", whitespace_start: ".toList ++ Decimal.digits t.blankStart ++
    ", whitespace_len: ".toList ++ Decimal.digits t.blankLength ++
    ", text: ".toList ++ Quoted.text t.text.toList ++ [' ', '\x7d'])

end Token

end CondLang
