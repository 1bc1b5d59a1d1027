import CondLang.Token

/-!
Token lists, terminated when they end in the token for the end of input.
-/

namespace CondLang

structure TokenList where
  toList : List Token := []
  deriving DecidableEq, Repr

namespace TokenList

def push (ts : TokenList) (t : Token) : TokenList :=
  ⟨ts.toList ++ [t]⟩

def length (ts : TokenList) : Nat :=
  ts.toList.length

def get? (ts : TokenList) (i : Nat) : Option Token :=
  ts.toList[i]?

def last? (ts : TokenList) : Option Token :=
  ts.toList.getLast?

def isTerminated (ts : TokenList) : Bool :=
  ts.last?.any fun t => t.kind = .endOfInput

end TokenList

end CondLang
