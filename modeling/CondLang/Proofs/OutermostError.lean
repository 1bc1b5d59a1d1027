import CondLang.Proofs.ParserRun

/-! Which failure a list of tokens calls for. Either no expression begins at the first token, or the
tokens end behind it, or they go on where the input should end. -/

namespace CondLang

inductive OutermostError (ts : List Token) : ParseError → Prop
  | refused {error : ParseError} (h : Refused ts 0 error) : OutermostError ts error
  | ranOut {e : Expr} {j : Nat} (h : Derives ts 0 e j) (hj : j = ts.length) :
    OutermostError ts ⟨.unexpectedEndOfInput, j⟩
  | trailing {e : Expr} {j : Nat} {t : Token} (h : Derives ts 0 e j) (ht : ts[j]? = some t)
    (hk : t.kind ≠ .endOfInput) : OutermostError ts ⟨.unexpectedToken t.text, j⟩

variable {ts : List Token} {error error' : ParseError}

theorem parse_of_refused (h : Refused ts 0 error) : parse ts = .error error := by
  obtain ⟨events, hevents⟩ := Parse.fails_of_refused h
  have hresult := congrArg ParseRun.result (hevents [])
  rwa [ParseRun.after_result] at hresult

theorem OutermostError.parse_eq (h : OutermostError ts error) : parse ts = .error error := by
  cases h with
  | refused h => exact parse_of_refused h
  | @ranOut e j h hj =>
    have hend : ts[j]? = none := List.getElem?_eq_none (Nat.le_of_eq hj.symm)
    rw [parse_result_of_derives h, Parse.goOn, Parse.runFrom_of_none hend]
    rfl
  | @trailing e j t h ht hk =>
    rw [parse_result_of_derives h, Parse.goOn, Parse.runFrom_of_some ht]
    simp only [Parse.resume, Parse.step, hk, ↓reduceIte]
    rfl

theorem exists_outermostError (h : ∀ e n, parse ts ≠ .ok ⟨e, n⟩) :
    ∃ error, OutermostError ts error := by
  rcases exprAt_or_refused ts 0 with ⟨e, j, he⟩ | ⟨error, herror⟩
  · cases ht : ts[j]? with
    | none =>
      have hj : j = ts.length := Nat.le_antisymm he.le_length (List.getElem?_eq_none_iff.1 ht)
      exact ⟨_, .ranOut he hj⟩
    | some t =>
      have hk : t.kind ≠ .endOfInput := fun hk => h e j (parse_eq_ok.2 ⟨he, t, ht, hk⟩)
      exact ⟨_, .trailing he ht hk⟩
  · exact ⟨error, .refused herror⟩

theorem outermostError_of_parse (h : parse ts = .error error) : OutermostError ts error := by
  have hfails : ∀ e n, parse ts ≠ .ok ⟨e, n⟩ := by
    intro e n hok
    cases h.symm.trans hok
  obtain ⟨error', herror'⟩ := exists_outermostError hfails
  cases h.symm.trans herror'.parse_eq
  exact herror'

/-- The parser fails exactly on the lists with which something is wrong, and what it says is the one
thing that is wrong outermost. -/
theorem parse_tells_outermost_error (ts : List Token) :
    (∀ error, parse ts = .error error ↔ OutermostError ts error) ∧
      ∀ error error', OutermostError ts error → OutermostError ts error' → error = error' := by
  refine ⟨fun error => ⟨outermostError_of_parse, OutermostError.parse_eq⟩, ?_⟩
  intro error error' h h'
  exact Except.error.inj (h.parse_eq.symm.trans h'.parse_eq)

end CondLang
