/-!
Quoted text for logs. Which characters do not show, and so are written by their code points, depends
on the version of Unicode: that class is open (`hidden`), and `text` and `char` take the control
characters.
-/

namespace CondLang.Quoted

def isControl (c : Char) : Bool :=
  c.toNat < 0x20 || (0x7F ≤ c.toNat && c.toNat ≤ 0x9F)

def letters (quote : Char) : List (Char × Char) :=
  [('\t', 't'), ('\r', 'r'), ('\n', 'n'), ('\x00', '0'), ('\\', '\\'), (quote, quote)]

def escapeWith (hidden : Char → Bool) (quote c : Char) : List Char :=
  match (letters quote).lookup c with
  | some l => ['\\', l]
  | none =>
    if hidden c then '\\' :: 'u' :: '\x7b' :: Nat.toDigits 16 c.toNat ++ ['\x7d'] else [c]

def textWith (hidden : Char → Bool) (cs : List Char) : List Char :=
  '"' :: cs.flatMap (escapeWith hidden '"') ++ ['"']

def text : List Char → List Char :=
  textWith isControl

def char (c : Char) : List Char :=
  '\'' :: escapeWith isControl '\'' c ++ ['\'']

end CondLang.Quoted
