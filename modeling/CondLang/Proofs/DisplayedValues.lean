import CondLang.Proofs.BooleanResults
import CondLang.Proofs.PrintedForm
import CondLang.Proofs.QuoteScan

/-! What is displayed of a value tells which value it is. Taken as a condition it has this value, or
it is no condition: a sign begins no token, and a quote inside of a string ends it too soon. -/

namespace CondLang

namespace Literal

theorem readInt?_int (n : Int64) : readInt? (String.ofList (int n)) = some n := by
  rw [readInt?, String.toList_ofList]
  exact Decimal.readInt64?_numeral n

theorem readInt?_str (s : String) : readInt? (String.ofList (str s)) = none := by
  rw [readInt?, String.toList_ofList]
  rfl

theorem readInt?_bool (b : Bool) : readInt? (String.ofList (bool b)) = none := by
  cases b <;> decide

theorem readBool?_int (n : Int64) : readBool? (String.ofList (int n)) = none := by
  have hne : ∀ b, String.ofList (int n) ≠ String.ofList (bool b) := by
    intro b heq
    have hread := readInt?_int n
    rw [heq, readInt?_bool] at hread
    cases hread
  exact readBool?_eq_none_iff.2 ⟨hne true, hne false⟩

theorem readBool?_str (s : String) : readBool? (String.ofList (str s)) = none := by
  have hne : ∀ b, String.ofList (str s) ≠ String.ofList (bool b) := by
    intro b heq
    have hhead := congrArg List.head? (String.ofList_injective heq)
    cases b <;> cases hhead
  exact readBool?_eq_none_iff.2 ⟨hne true, hne false⟩

end Literal

namespace Value

theorem readInt?_display (v : Value) : Literal.readInt? v.display = v.int? := by
  cases v with
  | int n => exact Literal.readInt?_int n
  | str s => exact Literal.readInt?_str s
  | bool b => exact Literal.readInt?_bool b

theorem readBool?_display (v : Value) : Literal.readBool? v.display = v.bool? := by
  cases v with
  | int n => exact Literal.readBool?_int n
  | str s => exact Literal.readBool?_str s
  | bool b => exact Literal.readBool?_bool b

theorem display_injective : Function.Injective display := by
  intro v w h
  have hint : v.int? = w.int? := by rw [← readInt?_display, h, readInt?_display]
  have hbool : v.bool? = w.bool? := by rw [← readBool?_display, h, readBool?_display]
  cases v with
  | int n => cases w <;> cases hint; rfl
  | bool b => cases w <;> cases hbool; rfl
  | str s =>
    cases w with
    | int n => cases hint
    | bool b => cases hbool
    | str t =>
      have hread : Literal.readStr (display (str s)) = Literal.readStr (display (str t)) :=
        congrArg Literal.readStr h
      rw [display, display, Literal.readStr_str, Literal.readStr_str] at hread
      rw [hread]

/-- A literal can be written for this value: integers have no sign in a condition, and strings have
no escapes. -/
def HasLiteral : Value → Prop
  | int n => 0 ≤ n.toInt
  | str s => '"' ∉ s.toList
  | bool _ => True

def leaf : Value → Expr
  | int n => .int n
  | str s => .str s
  | bool b => .bool b

theorem text_leaf (v : Value) : v.leaf.text = v.display := by
  cases v <;> simp [leaf, Expr.text, Expr.textOnto, display]

theorem printable_leaf (v : Value) : v.leaf.Printable ↔ v.HasLiteral := by
  cases v <;> rfl

theorem evaluation_leaf (v : Value) (ρ : Resolver) : v.leaf.evaluation ρ = ⟨[], .ok v⟩ := by
  cases v <;> rfl

end Value

theorem dropWhile_eq_nil_of_contents {cs : List Char} (h : contents cs = [(.endOfInput, "")]) :
    cs.dropWhile isBlank = [] := by
  cases cs using text_induction with
  | stuck cs hl =>
    rw [contents_of_none hl] at h
    cases h
  | blank cs hl => exact hl
  | take cs l hl hkind =>
    rw [contents_of_some hl hkind] at h
    exact absurd (congrArg Prod.fst (List.cons.inj h).1) hkind

namespace Condition

open Value

variable {v : Value}

theorem compile_display (h : v.HasLiteral) : compile v.display = .ok v.leaf := by
  rw [← text_leaf]
  exact compile_eq_ok_iff.2
    ⟨v.leaf.contents, Expr.scans_text ((printable_leaf v).2 h), v.leaf.forms_contents⟩

theorem compile_negative {n : Int64} (h : n.toInt < 0) (e : Expr) :
    compile (display (.int n)) ≠ .ok e := by
  intro hcompile
  obtain ⟨ws, hscan, -⟩ := compile_eq_ok_iff.1 hcompile
  have htext : (display (.int n)).toList = '-' :: Decimal.digits n.toInt.natAbs := by
    rw [display, String.toList_ofList, Literal.int, Decimal.numeral, if_pos h]
  have houtside := (isTerminated_lex_iff_outside _).1 hscan.isTerminated
  rw [htext] at houtside
  cases houtside

theorem compile_quoted {s : String} (h : '"' ∈ s.toList) (e : Expr) :
    compile (display (.str s)) ≠ .ok e := by
  intro hcompile
  obtain ⟨ws, hscan, hforms⟩ := compile_eq_ok_iff.1 hcompile
  obtain ⟨body, more, hs, hbody⟩ := List.eq_append_cons_of_mem h
  let literal := String.ofList ('"' :: body ++ ['"'])
  -- The first quote ends the string, so this is all that the condition can consist of.
  have htext : (display (.str s)).toList = ('"' :: body ++ ['"']) ++ (more ++ ['"']) := by
    rw [display, String.toList_ofList, Literal.str, hs]
    simp
  have hfirst : Scans (display (.str s)).toList [(.stringLiteral, literal)] (more ++ ['"']) := by
    rw [htext]
    exact .single (.string hbody _) (by decide)
  have hcontents : ws ++ [(.endOfInput, "")] =
      (.stringLiteral, literal) :: contents (more ++ ['"']) := by
    rw [← contents_nil, ← hscan.contents, hfirst.contents, List.singleton_append]
  have hwhole := hforms (lex (display (.str s))).toList [] _ hscan.map_content_lex
  have hliteral := forms_str literal (lex (display (.str s))).toList [] (contents (more ++ ['"']))
    (by rw [hscan.map_content_lex, hcontents]; rfl)
  have hlength : ws.length = 1 := by simpa using (hwhole.unique hliteral).2
  obtain ⟨w, rfl⟩ := List.length_eq_one_iff.1 hlength
  have hblank := dropWhile_eq_nil_of_contents (List.cons.inj hcontents).2.symm
  have hquote := List.dropWhile_eq_nil_iff.1 hblank '"' (by simp)
  exact absurd hquote (by decide)

theorem exists_compile_display_error (h : ¬v.HasLiteral) :
    ∃ error, compile v.display = .error error := by
  have hnone : ∀ e, compile v.display ≠ .ok e := by
    cases v with
    | int n => exact compile_negative (Int.not_le.1 h)
    | str s => exact compile_quoted (not_not.1 h)
    | bool b => exact absurd trivial h
  cases hcompile : compile v.display with
  | error error => exact ⟨error, rfl⟩
  | ok e => exact absurd hcompile (hnone e)

/-- Different values are displayed differently, and what is displayed of a value is a condition of
that value or no condition at all. The host is never asked. -/
theorem displayed_values_are_faithful :
    Function.Injective Value.display ∧
      ∀ (v : Value) (ρ : Resolver),
        (evaluate v.display ρ = .ok v ↔ v.HasLiteral) ∧
          ((∃ error, evaluate v.display ρ = .error (.parse error)) ↔ ¬v.HasLiteral) ∧
            steps v.display ρ = [] ∧ lookups v.display ρ = [] := by
  refine ⟨display_injective, fun v ρ => ?_⟩
  by_cases h : v.HasLiteral
  · have hcompile := compile_display h
    have hevaluation := evaluation_leaf v ρ
    have hvalue : evaluate v.display ρ = .ok v :=
      (evaluate_eq_ok_iff hcompile).2 (congrArg Evaluation.result hevaluation)
    have hsteps : steps v.display ρ = [] := by
      rw [steps, hcompile]
      exact congrArg Evaluation.steps hevaluation
    have hlookups : lookups v.display ρ = [] := by rw [lookups, hsteps, List.filterMap_nil]
    simp [h, hvalue, hsteps, hlookups]
  · obtain ⟨error, herror⟩ := exists_compile_display_error h
    simp [h, evaluate_of_compile_error herror ρ, steps_of_compile_error herror ρ,
      lookups_of_compile_error herror ρ]

example : compile (display (.str "a\" \"b")) = .error ⟨.unexpectedToken "\"b\"", 1⟩ := by
  decide +kernel

end Condition

end CondLang
