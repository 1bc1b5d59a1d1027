import CondLang.Proofs.UniqueLexing
import Mathlib.Logic.Function.Basic

/-! The lexer, call by call. Of all that came before, its state keeps the offset alone: it goes on
as a new lexer would over the text that is left, and so does every copy of it, whatever the others
are asked meanwhile. -/

namespace CondLang

def Token.shift (n : Nat) (t : Token) : Token :=
  { t with blankStart := t.blankStart + n }

theorem Token.stop_shift (n : Nat) (t : Token) : (t.shift n).stop = t.stop + n := by
  simp only [shift, stop, start]
  omega

theorem tokensAt_shift (n p : Nat) (cs : List Char) :
    tokensAt (p + n) cs = (tokensAt p cs).map (Token.shift n) := by
  induction cs using text_induction generalizing p with
  | stuck cs hl => rw [tokensAt_of_none hl, tokensAt_of_none hl, List.map_nil]
  | blank cs hl => rw [tokensAt_of_blank hl, tokensAt_of_blank hl]; rfl
  | take cs l hl hkind ih =>
    have htoken : tokenOf (p + n) cs l = (tokenOf p cs l).shift n := rfl
    rw [tokensAt_of_some hl hkind, tokensAt_of_some hl hkind, List.map_cons, htoken,
      Token.stop_shift, ih]

namespace Lexer

def after (lexer : Lexer) : Nat → Lexer
  | 0 => lexer
  | k + 1 => lexer.next.2.after k

def answer (lexer : Lexer) (k : Nat) : Option Token :=
  (lexer.after k).next.1

/-- What one call may do: nothing, once the lexer has stopped; else it stops for good where no
lexeme stands, or takes the lexeme that does. -/
inductive Call : Lexer → Option Token → Lexer → Prop
  | stopped {lexer : Lexer} (h : lexer.finished = true) : Call lexer none lexer
  | stuck {cs : List Char} {p : Nat} (hl : lexeme? (cs.dropWhile isBlank) = none) :
    Call ⟨cs, p, false⟩ none
      ⟨cs.dropWhile isBlank, p + byteLength (cs.takeWhile isBlank), true⟩
  | take {cs : List Char} {p : Nat} {l : Lexeme} (hl : lexeme? (cs.dropWhile isBlank) = some l) :
    Call ⟨cs, p, false⟩ (some (tokenOf p cs l))
      ⟨l.rest, (tokenOf p cs l).stop, l.kind = .endOfInput⟩

def StandsIn (s : String) (lexer : Lexer) : Prop :=
  ∃ before, s.toList = before ++ lexer.rest ∧ byteLength before = lexer.position

variable {lexer lexer' : Lexer} {answer? : Option Token} {s : String}

theorem call_next (lexer : Lexer) : Call lexer lexer.next.1 lexer.next.2 := by
  obtain ⟨cs, p, finished⟩ := lexer
  cases finished with
  | true => exact .stopped rfl
  | false =>
    cases hl : lexeme? (cs.dropWhile isBlank) with
    | none =>
      rw [next_of_none hl]
      exact .stuck hl
    | some l =>
      rw [next_of_some hl]
      exact .take hl

/-! ### One call -/

namespace Call

theorem finished_iff (h : Call lexer answer? lexer') :
    lexer'.finished = true ↔ ∀ t ∈ answer?, t.kind = .endOfInput := by
  cases h with
  | stopped h => simp [h]
  | stuck => simp
  | take => simp [tokenOf]

theorem answer_eq_none (h : Call lexer answer? lexer') (hf : lexer.finished = true) :
    answer? = none ∧ lexer' = lexer := by
  cases h with
  | stopped => exact ⟨rfl, rfl⟩
  | stuck | take => cases hf

theorem position_le (h : Call lexer answer? lexer') : lexer.position ≤ lexer'.position := by
  cases h with
  | stopped => exact Nat.le_refl _
  | stuck => exact Nat.le_add_right _ _
  | take =>
    rw [stop_tokenOf, Nat.add_assoc]
    exact Nat.le_add_right _ _

theorem position_eq_stop {t : Token} (h : Call lexer (some t) lexer') :
    lexer'.position = t.stop := by
  cases h
  rfl

theorem standsIn (h : Call lexer answer? lexer') (hs : lexer.StandsIn s) : lexer'.StandsIn s := by
  cases h with
  | stopped => exact hs
  | @stuck cs p =>
    obtain ⟨before, hsplit, hp⟩ := hs
    refine ⟨before ++ cs.takeWhile isBlank, ?_, ?_⟩
    · rw [hsplit, List.append_assoc, List.takeWhile_append_dropWhile]
    · rw [byteLength_append, hp]
  | @take cs p l hl =>
    obtain ⟨before, hsplit, hp⟩ := hs
    refine ⟨before ++ cs.takeWhile isBlank ++ l.text, ?_, ?_⟩
    · rw [hsplit, List.append_assoc, List.append_assoc, append_of_lexeme? hl,
        List.takeWhile_append_dropWhile]
    · rw [← stop_tokenOf_byteLength, hp]

theorem exists_unreadable (h : Call lexer none lexer') (hf : lexer.finished = false)
    (hs : lexer.StandsIn s) : ∃ before blanks c rest,
      s.toList = before ++ blanks ++ c :: rest ∧ (∀ d ∈ blanks, isBlank d = true) ∧
        isBlank c = false ∧ BeginsNone c rest ∧ lexer.position = byteLength before ∧
        lexer'.position = byteLength (before ++ blanks) := by
  cases h with
  | stopped h => exact absurd (hf.symm.trans h) Bool.false_ne_true
  | @stuck cs p hl =>
    obtain ⟨before, hsplit, hp⟩ := hs
    obtain ⟨c, rest, hdrop, -⟩ := lexeme?_eq_none_iff.1 hl
    have hfirst : isBlank c = false := by
      have hstops := stops_dropWhile isBlank cs
      rw [hdrop] at hstops
      exact stops_cons.1 hstops
    have htext : s.toList = before ++ cs.takeWhile isBlank ++ c :: rest := by
      rw [← hdrop, List.append_assoc, List.takeWhile_append_dropWhile]
      exact hsplit
    rw [hdrop] at hl
    refine ⟨before, cs.takeWhile isBlank, c, rest, htext, fun _ => List.mem_takeWhile_imp, hfirst,
      lexeme?_cons_eq_none_iff.1 hl, hp.symm, ?_⟩
    rw [byteLength_append, hp]

end Call

theorem toList_drain_of_finished (h : lexer.finished = true) : lexer.drain.toList = [] := by
  have hnext : lexer.next = (none, lexer) := if_pos h
  rw [drain, run_of_next_none hnext]

theorem toList_drain_of_next_none (h : lexer.next = (none, lexer')) :
    lexer.drain.toList = [] ∧ lexer'.drain.toList = [] := by
  have hcall := call_next lexer
  rw [h] at hcall
  have hfinished : lexer'.finished = true := hcall.finished_iff.2 fun _ ht => nomatch ht
  rw [drain, run_of_next_none h]
  exact ⟨rfl, toList_drain_of_finished hfinished⟩

theorem toList_drain_of_next_some {t : Token} (h : lexer.next = (some t, lexer')) :
    lexer.drain.toList = t :: lexer'.drain.toList := by
  rw [drain, run_of_next_some h, drain]

/-! ### Many calls -/

theorem after_add (lexer : Lexer) (j k : Nat) : lexer.after (j + k) = (lexer.after j).after k := by
  induction j generalizing lexer with
  | zero => rw [Nat.zero_add, after]
  | succ j ih => rw [Nat.succ_add, after, ih, after]

theorem after_succ (lexer : Lexer) (k : Nat) : lexer.after (k + 1) = (lexer.after k).next.2 := by
  rw [after_add]
  rfl

theorem answer_add (lexer : Lexer) (j k : Nat) :
    lexer.answer (j + k) = (lexer.after j).answer k := by
  rw [answer, after_add, answer]

theorem after_of_finished (h : lexer.finished = true) (k : Nat) : lexer.after k = lexer := by
  induction k with
  | zero => rfl
  | succ k ih => rw [after_succ, ih, ((call_next lexer).answer_eq_none h).2]

theorem answer_succ (lexer : Lexer) (k : Nat) : lexer.answer (k + 1) = lexer.next.2.answer k := rfl

theorem answer_eq_getElem? (lexer : Lexer) (k : Nat) :
    lexer.answer k = lexer.drain.toList[k]? := by
  induction k generalizing lexer with
  | zero =>
    have hanswer : lexer.answer 0 = lexer.next.1 := rfl
    rw [hanswer]
    cases hnext : lexer.next with
    | mk answer? lexer' =>
      cases answer? with
      | none => rw [(toList_drain_of_next_none hnext).1, List.getElem?_nil]
      | some t => rw [toList_drain_of_next_some hnext, List.getElem?_cons_zero]
  | succ k ih =>
    rw [answer_succ, ih]
    cases hnext : lexer.next with
    | mk answer? lexer' =>
      cases answer? with
      | none =>
        have hdrain := toList_drain_of_next_none hnext
        rw [hdrain.1, hdrain.2, List.getElem?_nil, List.getElem?_nil]
      | some t => rw [toList_drain_of_next_some hnext, List.getElem?_cons_succ]

theorem finished_after_iff (h : lexer.finished = false) (k : Nat) :
    (lexer.after k).finished = true ↔
      ∃ j < k, ∀ t ∈ lexer.answer j, t.kind = .endOfInput := by
  induction k with
  | zero =>
    refine ⟨fun hf => ?_, fun ⟨_, hj, _⟩ => absurd hj (Nat.not_lt_zero _)⟩
    exact absurd (h.symm.trans hf) Bool.false_ne_true
  | succ k ih =>
    have hcall := call_next (lexer.after k)
    rw [after_succ]
    constructor
    · intro hf
      exact ⟨k, Nat.lt_succ_self k, hcall.finished_iff.1 hf⟩
    · rintro ⟨j, hj, hanswer⟩
      rcases Nat.lt_succ_iff_lt_or_eq.1 hj with hlt | rfl
      · have hf : (lexer.after k).finished = true := ih.2 ⟨j, hlt, hanswer⟩
        rwa [(hcall.answer_eq_none hf).2]
      · exact hcall.finished_iff.2 hanswer

theorem position_after_mono (lexer : Lexer) {j k : Nat} (h : j ≤ k) :
    (lexer.after j).position ≤ (lexer.after k).position := by
  induction h with
  | refl => exact Nat.le_refl _
  | step _ ih =>
    rw [after_succ]
    exact Nat.le_trans ih (call_next _).position_le

theorem standsIn_after (h : lexer.StandsIn s) (k : Nat) : (lexer.after k).StandsIn s := by
  induction k with
  | zero => exact h
  | succ k ih =>
    rw [after_succ]
    exact (call_next _).standsIn ih

theorem standsIn_ofText (s : String) : (ofText s).StandsIn s :=
  ⟨[], rfl, rfl⟩

theorem StandsIn.isBoundary (h : lexer.StandsIn s) : IsBoundary s lexer.position := by
  obtain ⟨before, hsplit, hp⟩ := h
  have htext : String.ofList (before ++ lexer.rest) = s := by
    rw [← hsplit, String.ofList_toList]
  rw [← hp, ← htext]
  exact isBoundary_append before lexer.rest

theorem StandsIn.slice_eq (h : lexer.StandsIn s) :
    slice s lexer.position s.utf8ByteSize = String.ofList lexer.rest := by
  obtain ⟨before, hsplit, hp⟩ := h
  have htext : String.ofList (before ++ lexer.rest ++ []) = s := by
    rw [List.append_nil, ← hsplit, String.ofList_toList]
  have hsize : s.utf8ByteSize = byteLength (before ++ lexer.rest) := by
    rw [← htext, utf8ByteSize_eq_byteLength, List.append_nil]
  rw [hsize, ← hp, ← htext]
  exact slice_append before lexer.rest []

def tokensLeft (s : String) (lexer : Lexer) : List Token :=
  (lex (slice s lexer.position s.utf8ByteSize)).toList.map (Token.shift lexer.position)

theorem toList_drain_eq_tokensLeft (h : lexer.StandsIn s) (hf : lexer.finished = false) :
    lexer.drain.toList = lexer.tokensLeft s := by
  obtain ⟨cs, p, finished⟩ := lexer
  cases hf
  have hshift := tokensAt_shift p 0 cs
  rw [Nat.zero_add] at hshift
  rw [tokensLeft, h.slice_eq, toList_lex, String.toList_ofList, ← hshift]
  rfl

/-! ### Copies -/

section Copies
variable {ι : Type} [DecidableEq ι]

def replies (lexers : ι → Lexer) : List ι → List (ι × Option Token)
  | [] => []
  | i :: calls =>
    (i, (lexers i).next.1) :: replies (Function.update lexers i (lexers i).next.2) calls

def repliesOf (i : ι) (lexers : ι → Lexer) (calls : List ι) : List (Option Token) :=
  ((replies lexers calls).filter fun reply => reply.1 = i).map Prod.snd

theorem repliesOf_eq (i : ι) (lexers : ι → Lexer) (calls : List ι) :
    repliesOf i lexers calls = (List.range (calls.count i)).map (lexers i).answer := by
  induction calls generalizing lexers with
  | nil => rfl
  | cons j calls ih =>
    have hrest := ih (Function.update lexers j (lexers j).next.2)
    rw [repliesOf] at hrest ⊢
    rw [replies]
    by_cases hj : j = i
    · subst hj
      rw [Function.update_self] at hrest
      rw [List.filter_cons_of_pos (by simp), List.map_cons, hrest, List.count_cons_self,
        List.range_succ_eq_map, List.map_cons, List.map_map]
      rfl
    · rw [Function.update_of_ne (Ne.symm hj)] at hrest
      rw [List.filter_cons_of_neg (by simpa using hj), hrest, List.count_cons_of_ne hj]

end Copies

/-- The calls on a new lexer over this text, counted from 0; `after k` is the state behind `k` of
them. -/
structure Streams (s : String) : Prop where
  answers : ∀ k, (ofText s).answer k = (lex s).get? k
  behind_token : ∀ k t, (ofText s).answer k = some t → ((ofText s).after (k + 1)).position = t.stop
  behind_stuck : (lex s).isTerminated = false → ∃ before blanks c rest,
    s.toList = before ++ blanks ++ c :: rest ∧ (∀ d ∈ blanks, isBlank d = true) ∧
      isBlank c = false ∧ BeginsNone c rest ∧
      ((ofText s).after (lex s).length).position = byteLength before ∧
      ((ofText s).after ((lex s).length + 1)).position = byteLength (before ++ blanks)
  finished_iff : ∀ k, ((ofText s).after k).finished = true ↔
    ∃ j < k, (ofText s).answer j = none ∨ ∃ t, (ofText s).answer j = some t ∧ t.kind = .endOfInput
  stays_finished : ∀ k j, ((ofText s).after k).finished = true →
    ((ofText s).after (k + j)).finished = true ∧
      ((ofText s).after (k + j)).position = ((ofText s).after k).position
  position_mono : ∀ j k, j ≤ k → ((ofText s).after j).position ≤ ((ofText s).after k).position
  boundaries : ∀ k, IsBoundary s ((ofText s).after k).position
  resumes : ∀ k, ((ofText s).after k).finished = false →
    ((ofText s).after k).drain.toList = ((ofText s).after k).tokensLeft s ∧
      ∀ j, (ofText s).answer (k + j) = (((ofText s).after k).tokensLeft s)[j]?
  copies : ∀ k, ((ofText s).after k).finished = false →
    ∀ (ι : Type) [DecidableEq ι] (i : ι) (calls : List ι),
      repliesOf i (fun _ => (ofText s).after k) calls =
        (List.range (calls.count i)).map fun j => (((ofText s).after k).tokensLeft s)[j]?

theorem unfinished_after_length (h : (lex s).isTerminated = false) :
    ((ofText s).after (lex s).length).finished = false := by
  rw [← Bool.not_eq_true, finished_after_iff rfl]
  rintro ⟨j, hj, hend⟩
  have hanswer : (ofText s).answer j = some (lex s).toList[j] := by
    rw [answer_eq_getElem?]
    exact List.getElem?_eq_getElem hj
  exact kind_ne_of_not_terminated h _ (List.getElem_mem hj) (hend _ hanswer)

/-- Call by call, the lexer gives the tokens of the text and no more, and from each state on it goes
on as a new lexer would over the rest of the text. -/
theorem streams_lex (s : String) : Streams s := by
  have hstands := standsIn_after (standsIn_ofText s)
  constructor
  · exact fun k => answer_eq_getElem? (ofText s) k
  · intro k t ht
    rw [after_succ]
    have hcall := call_next ((ofText s).after k)
    rw [answer] at ht
    rw [ht] at hcall
    exact hcall.position_eq_stop
  · intro h
    have hnone : (ofText s).answer (lex s).length = none := by
      rw [answer_eq_getElem?]
      exact List.getElem?_eq_none (Nat.le_refl _)
    have hcall := call_next ((ofText s).after (lex s).length)
    rw [answer] at hnone
    rw [hnone] at hcall
    rw [after_succ]
    exact hcall.exists_unreadable (unfinished_after_length h) (hstands _)
  · intro k
    rw [finished_after_iff rfl]
    refine exists_congr fun j => and_congr_right fun _ => ?_
    cases (ofText s).answer j <;> simp
  · intro k j hf
    rw [after_add, after_of_finished hf]
    exact ⟨hf, rfl⟩
  · exact fun j k h => position_after_mono (ofText s) h
  · exact fun k => (hstands k).isBoundary
  · intro k hf
    have hleft := toList_drain_eq_tokensLeft (hstands k) hf
    refine ⟨hleft, fun j => ?_⟩
    rw [answer_add, answer_eq_getElem?, hleft]
  · intro k hf ι _ i calls
    rw [repliesOf_eq, ← toList_drain_eq_tokensLeft (hstands k) hf]
    exact List.map_congr_left fun j _ => answer_eq_getElem? _ j

end Lexer

end CondLang
