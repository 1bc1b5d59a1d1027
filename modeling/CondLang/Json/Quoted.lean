/-!
The strings of JSON. They are written with the short escapes and, for other control characters,
`\u00xx`; they are read with every escape of the standard. A string in which half of a surrogate
pair stands alone is well-formed, but it is no text.
-/

namespace CondLang.Json

/-! ### Writing -/

def hexDigits : List Char :=
  "0123456789abcdef".toList

def hexDigit (n : Nat) : Char :=
  hexDigits.getD n '0'

def escape (c : Char) : List Char :=
  if c = '"' then ['\\', '"']
  else if c = '\\' then ['\\', '\\']
  else if c = '\x08' then ['\\', 'b']
  else if c = '\t' then ['\\', 't']
  else if c = '\n' then ['\\', 'n']
  else if c = '\x0c' then ['\\', 'f']
  else if c = '\r' then ['\\', 'r']
  else if c.toNat < 0x20 then
    ['\\', 'u', '0', '0', hexDigit (c.toNat / 16), hexDigit (c.toNat % 16)]
  else [c]

def quote (cs : List Char) : List Char :=
  '"' :: cs.flatMap escape ++ ['"']

/-! ### Reading -/

def hexValue? (c : Char) : Option Nat :=
  if c.isDigit then some (c.toNat - '0'.toNat)
  else if 'a' ≤ c ∧ c ≤ 'f' then some (c.toNat - 'a'.toNat + 10)
  else if 'A' ≤ c ∧ c ≤ 'F' then some (c.toNat - 'A'.toNat + 10)
  else none

def shortEscape? (c : Char) : Option Char :=
  match c with
  | '"' | '\\' | '/' => some c
  | 'b' => some '\x08'
  | 'f' => some '\x0c'
  | 'n' => some '\n'
  | 'r' => some '\r'
  | 't' => some '\t'
  | _ => none

def readPoints? : List Char → Option (List Nat × List Char)
  | [] => none
  | c :: cs =>
    if c = '"' then some ([], cs)
    else if c = '\\' then
      match cs with
      | 'u' :: h₃ :: h₂ :: h₁ :: h₀ :: cs => do
        let high := 16 * (← hexValue? h₃) + (← hexValue? h₂)
        let low := 16 * (← hexValue? h₁) + (← hexValue? h₀)
        let (points, rest) ← readPoints? cs
        some ((256 * high + low) :: points, rest)
      | e :: cs => do
        let c ← shortEscape? e
        let (points, rest) ← readPoints? cs
        some (c.toNat :: points, rest)
      | [] => none
    else if c.toNat < 0x20 then none
    else do
      let (points, rest) ← readPoints? cs
      some (c.toNat :: points, rest)

def isHighSurrogate (n : Nat) : Bool :=
  0xD800 ≤ n && n < 0xDC00

def isLowSurrogate (n : Nat) : Bool :=
  0xDC00 ≤ n && n < 0xE000

/-- The text of these code points, in which a high surrogate and the low one behind it stand for one
character together. There is none where a surrogate is left without its other half. -/
def textOfPoints? : List Nat → Option (List Char)
  | [] => some []
  | [n] => if isHighSurrogate n || isLowSurrogate n then none else some [Char.ofNat n]
  | n :: m :: points =>
    if isHighSurrogate n then
      if isLowSurrogate m then
        (textOfPoints? points).map
          (Char.ofNat (0x10000 + 0x400 * (n - 0xD800) + (m - 0xDC00)) :: ·)
      else none
    else if isLowSurrogate n then none
    else (textOfPoints? (m :: points)).map (Char.ofNat n :: ·)

def readQuoted? (cs : List Char) : Option (Option (List Char) × List Char) :=
  (readPoints? cs).map fun (points, rest) => (textOfPoints? points, rest)

theorem length_readPoints_lt {cs rest : List Char} {points : List Nat}
    (h : readPoints? cs = some (points, rest)) : rest.length < cs.length := by
  fun_induction readPoints? cs generalizing points rest with
  | case1 => cases h
  | case2 cs => cases h; simp
  | case3 h₃ h₂ h₁ h₀ cs _ ih =>
    simp only [bind, Option.bind_eq_some_iff, Option.some.injEq, Prod.mk.injEq] at h
    obtain ⟨_, _, _, _, _, _, _, _, p, hp, _, rfl⟩ := h
    have := ih hp
    simp only [List.length_cons]
    omega
  | case4 e cs _ _ ih =>
    simp only [bind, Option.bind_eq_some_iff, Option.some.injEq, Prod.mk.injEq] at h
    obtain ⟨_, _, p, hp, _, rfl⟩ := h
    have := ih hp
    simp only [List.length_cons]
    omega
  | case5 => cases h
  | case6 => cases h
  | case7 c cs _ _ _ ih =>
    simp only [bind, Option.bind_eq_some_iff, Option.some.injEq, Prod.mk.injEq] at h
    obtain ⟨p, hp, _, rfl⟩ := h
    have := ih hp
    simp only [List.length_cons]
    omega

theorem length_readQuoted_lt {cs rest : List Char} {text : Option (List Char)}
    (h : readQuoted? cs = some (text, rest)) : rest.length < cs.length := by
  obtain ⟨⟨points, r⟩, hp, he⟩ := Option.map_eq_some_iff.1 h
  cases he
  exact length_readPoints_lt hp

end CondLang.Json
