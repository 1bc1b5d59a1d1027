import CondLang.Json.Token
import CondLang.Proofs.Digits

/-! Tokens of JSON are read as they were written, whatever follows them. A number is the only token
whose end has to be seen from what follows it. -/

namespace CondLang.Json

variable {c e : Char} {n : Nat} {cs rest : List Char}

/-! ### Strings -/

theorem readPoints?_quote (cs : List Char) : readPoints? ('"' :: cs) = some ([], cs) := by
  rw [readPoints?.eq_def]
  rfl

theorem readPoints?_cons (hquote : c ≠ '"') (hback : c ≠ '\\') (hcontrol : ¬c.toNat < 0x20)
    (cs : List Char) : readPoints? (c :: cs) =
      (readPoints? cs).map fun (points, rest) => (c.toNat :: points, rest) := by
  rw [readPoints?.eq_def]
  simp only [if_neg hquote, if_neg hback, if_neg hcontrol]
  cases readPoints? cs <;> rfl

theorem readPoints?_short (h : shortEscape? e = some c) (cs : List Char) :
    readPoints? ('\\' :: e :: cs) =
      (readPoints? cs).map fun (points, rest) => (c.toNat :: points, rest) := by
  have hu : e ≠ 'u' := by
    rintro rfl
    cases h
  rw [readPoints?.eq_3 _ _ _ fun _ _ _ _ _ he _ => hu he, h]
  cases readPoints? cs <;> rfl

theorem hexValue?_hexDigit : ∀ n < 16, hexValue? (hexDigit n) = some n := by
  decide

theorem readPoints?_hex (hn : n < 0x20) (cs : List Char) :
    readPoints? (['\\', 'u', '0', '0', hexDigit (n / 16), hexDigit (n % 16)] ++ cs) =
      (readPoints? cs).map fun (points, rest) => (n :: points, rest) := by
  have hzero : hexValue? '0' = some 0 := hexValue?_hexDigit 0 (by decide)
  have hhigh := hexValue?_hexDigit (n / 16) (by omega)
  have hlow := hexValue?_hexDigit (n % 16) (by omega)
  have hvalue : 256 * (16 * 0 + 0) + (16 * (n / 16) + n % 16) = n := by omega
  rw [List.cons_append, readPoints?.eq_def]
  simp only [List.cons_append, List.nil_append, hzero, hhigh, hlow, bind, Option.bind_some, hvalue]
  cases readPoints? cs <;> rfl

theorem readPoints?_escape (c : Char) (cs : List Char) :
    readPoints? (escape c ++ cs) =
      (readPoints? cs).map fun (points, rest) => (c.toNat :: points, rest) := by
  have hshort : ∀ e, shortEscape? e = some c → readPoints? (['\\', e] ++ cs) =
      (readPoints? cs).map fun (points, rest) => (c.toNat :: points, rest) :=
    fun _ h => readPoints?_short h cs
  unfold escape
  -- Seven characters have an escape of one letter.
  iterate 7
    split
    · next h =>
      subst h
      exact hshort _ rfl
  split
  · next h => exact readPoints?_hex h cs
  · next hquote hback _ _ _ _ _ hcontrol => exact readPoints?_cons hquote hback hcontrol cs

theorem readPoints?_escaped (cs rest : List Char) :
    readPoints? (cs.flatMap escape ++ '"' :: rest) = some (cs.map Char.toNat, rest) := by
  induction cs with
  | nil => exact readPoints?_quote rest
  | cons c cs ih =>
    rw [List.flatMap_cons, List.append_assoc, readPoints?_escape, ih]
    rfl

theorem not_surrogate (c : Char) :
    isHighSurrogate c.toNat = false ∧ isLowSurrogate c.toNat = false := by
  have hvalid : c.toNat < 0xD800 ∨ 0xDFFF < c.toNat ∧ c.toNat < 0x110000 := c.valid
  simp only [isHighSurrogate, isLowSurrogate, Bool.and_eq_false_iff, decide_eq_false_iff_not]
  omega

theorem textOfPoints?_map_toNat (cs : List Char) : textOfPoints? (cs.map Char.toNat) = some cs := by
  induction cs with
  | nil => rfl
  | cons c cs ih =>
    obtain ⟨hhigh, hlow⟩ := not_surrogate c
    cases cs with
    | nil => simp [textOfPoints?, hhigh, hlow]
    | cons d cs =>
      rw [List.map_cons, List.map_cons] at *
      simp [textOfPoints?, hhigh, hlow, ih]

theorem readQuoted?_escaped (cs rest : List Char) :
    readQuoted? (cs.flatMap escape ++ '"' :: rest) = some (some cs, rest) := by
  simp only [readQuoted?, readPoints?_escaped, Option.map_some, textOfPoints?_map_toNat]

/-! ### Numbers -/

def continuesNumeral (c : Char) : Bool :=
  c.isDigit || c = '.' || c = 'e' || c = 'E'

theorem readWhole?_digits (m : Nat) (hrest : Stops Char.isDigit rest) :
    readWhole? (Decimal.digits m ++ rest) = some (Decimal.digits m, rest) := by
  have hall : ∀ c ∈ Decimal.digits m, c.isDigit = true := fun _ => Decimal.isDigit_of_mem_digits
  have hread : readDigits? (Decimal.digits m ++ rest) = some (Decimal.digits m, rest) := by
    rw [readDigits?, takeWhile_append_of_stops hall hrest, dropWhile_append_of_stops hall hrest]
    split
    · next hnil => exact absurd hnil (Decimal.digits_ne_nil m)
    · rfl
  rw [readWhole?, hread]
  split
  · next hzero =>
    have hdigits := congrArg Prod.fst (Option.some.inj hzero)
    exact absurd hdigits (Decimal.digits_ne_zero_cons m _ _)
  · rfl

theorem readFraction?_of_stops (h : Stops continuesNumeral rest) :
    readFraction? rest = some ([], rest) := by
  unfold readFraction?
  split
  · exact absurd (stops_cons.1 h) (by decide)
  · rfl

theorem readExponent?_of_stops (h : Stops continuesNumeral rest) :
    readExponent? rest = some ([], rest) := by
  cases rest with
  | nil => rfl
  | cons c rest =>
    have hc := stops_cons.1 h
    have he : ¬(c = 'e' ∨ c = 'E') := by
      rintro (rfl | rfl) <;> exact absurd hc (by decide)
    rw [readExponent?.eq_def]
    exact if_neg he

theorem readNumber?_digits (negative : Bool) (m : Nat) (hm : negative = true → m ≠ 0)
    (hrest : Stops continuesNumeral rest) :
    readNumber? negative (Decimal.digits m ++ rest) =
      some (.int (if negative then -(m : Int) else m), rest) := by
  have hdigit : Stops Char.isDigit rest := hrest.mono fun c hc => by simp [continuesNumeral, hc]
  have hread : readNumeral? negative (Decimal.digits m ++ rest) =
      some (⟨negative, Decimal.digits m, [], []⟩, rest) := by
    simp only [readNumeral?, readWhole?_digits m hdigit, readFraction?_of_stops hrest,
      readExponent?_of_stops hrest, bind, Option.bind_some]
  have hint : Numeral.int? ⟨negative, Decimal.digits m, [], []⟩ =
      some (if negative then -(m : Int) else m) := by
    -- Only minus zero is no integer.
    have hzero : ¬(negative = true ∧ m = 0) := fun h => hm h.1 h.2
    simp only [Numeral.int?, Decimal.value_digits]
    rw [if_neg (by simpa using hzero)]
    cases negative <;> rfl
  simp only [readNumber?, hread, Option.map_some, Token.ofNumeral, hint]

theorem readToken?_of_isDigit (hc : c.isDigit = true) (cs : List Char) :
    readToken? (c :: cs) = readNumber? false (c :: cs) := by
  unfold readToken?
  split
  case h_12 => rfl
  all_goals
    next heq =>
    rw [(List.cons.inj heq).1] at hc
    exact absurd hc (by decide)

theorem readToken?_numeral (n : Int) (hrest : Stops continuesNumeral rest) :
    readToken? (Decimal.numeral n ++ rest) = some (.int n, rest) := by
  unfold Decimal.numeral
  split
  · next hneg =>
    have hnumber := readNumber?_digits true n.natAbs (fun _ => by omega) hrest
    have hn : -(n.natAbs : Int) = n := by omega
    rw [if_pos rfl, hn] at hnumber
    exact hnumber
  · next hneg =>
    have hnumber := readNumber?_digits false n.natAbs (fun h => nomatch h) hrest
    have hn : (n.natAbs : Int) = n := by omega
    rw [if_neg Bool.false_ne_true, hn] at hnumber
    obtain ⟨c, cs, hcs⟩ := List.exists_cons_of_ne_nil (Decimal.digits_ne_nil n.natAbs)
    have hc : c.isDigit = true := Decimal.isDigit_of_mem_digits (hcs ▸ List.mem_cons_self)
    rw [hcs] at hnumber ⊢
    rw [List.cons_append, readToken?_of_isDigit hc]
    exact hnumber

/-! ### Tokens -/

/-- A token whose end does not depend on what follows, as that of a number does, and which is a text
if it is a string. -/
def Token.IsDelimited : Token → Prop
  | int _ | real _ => False
  | str text => text.isSome = true
  | _ => True

theorem readToken?_chars {t : Token} (ht : t.IsDelimited) (rest : List Char) :
    readToken? (t.chars ++ rest) = some (t, rest) := by
  cases t with
  | openArr | closeArr | openObj | closeObj | comma | colon | null => rfl
  | bool b => cases b <;> rfl
  | int | real => exact ht.elim
  | str text =>
    obtain ⟨s, rfl⟩ := Option.isSome_iff_exists.1 ht
    have hchars : (Token.str (some s)).chars ++ rest =
        '"' :: (s.toList.flatMap escape ++ '"' :: rest) := by
      simp [Token.chars, quote]
    rw [hchars, readToken?, readQuoted?_escaped]
    simp

theorem exists_cons_of_readToken? {t : Token} (h : readToken? cs = some (t, rest)) :
    ∃ c more, cs = c :: more ∧ isBlank c = false := by
  cases cs with
  | nil => cases h
  | cons c more =>
    refine ⟨c, more, rfl, ?_⟩
    rw [← Bool.not_eq_true]
    intro hblank
    simp only [isBlank, Bool.or_eq_true, decide_eq_true_eq] at hblank
    rcases hblank with ((rfl | rfl) | rfl) | rfl
    all_goals cases h

theorem readTokens?_of_readToken? {t : Token} (h : readToken? cs = some (t, rest)) :
    readTokens? cs = (readTokens? rest).map (t :: ·) := by
  obtain ⟨c, more, rfl, hc⟩ := exists_cons_of_readToken? h
  have hdrop : (c :: more).dropWhile isBlank = c :: more :=
    dropWhile_eq_self_of_stops (stops_cons.2 hc)
  rw [readTokens?]
  split
  · next hnil => cases hdrop.symm.trans hnil
  · next hcons =>
    cases hdrop.symm.trans hcons
    rw [h]

def ReadBack (ts : List Token) : Prop :=
  readTokens? (ts.flatMap Token.chars) = some ts

def EndNumber (ts : List Token) : Prop :=
  Stops continuesNumeral (ts.flatMap Token.chars)

theorem readBack_nil : ReadBack [] := by
  rw [ReadBack, readTokens?]
  rfl

theorem ReadBack.cons {t : Token} {ts : List Token} (h : ReadBack ts) (ht : t.IsDelimited) :
    ReadBack (t :: ts) := by
  rw [ReadBack, List.flatMap_cons, readTokens?_of_readToken? (readToken?_chars ht _), h,
    Option.map_some]

theorem ReadBack.int {ts : List Token} (h : ReadBack ts) (hend : EndNumber ts) (n : Int) :
    ReadBack (.int n :: ts) := by
  rw [ReadBack, List.flatMap_cons, Token.chars,
    readTokens?_of_readToken? (readToken?_numeral n hend), h, Option.map_some]

end CondLang.Json
