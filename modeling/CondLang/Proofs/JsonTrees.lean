import CondLang.Json.Parse
import CondLang.Json.Text
import CondLang.Proofs.JsonTokens

/-! Trees of JSON come back from their text. All is told of a tree in front of any other tokens and
within any arrays and objects that are open. -/

namespace CondLang.Json

inductive IsPlain : Json → Prop
  | null : IsPlain .null
  | bool (b : Bool) : IsPlain (.bool b)
  | int (n : Int) : IsPlain (.int n)
  | text (s : String) : IsPlain (.text s)
  | arr {items : List Json} (h : ∀ j ∈ items, IsPlain j) : IsPlain (.arr items)
  | obj {members : List (Option String × Json)} (hname : ∀ m ∈ members, m.1.isSome = true)
    (h : ∀ m ∈ members, IsPlain m.2) : IsPlain (.obj members)

/-! ### From the text to the tokens -/

def Legible (j : Json) : Prop :=
  ∀ tail, ReadBack tail → EndNumber tail → ReadBack (tokensOnto tail j)

variable {tail lead : List Token}

theorem readBack_itemTokensOnto {items : List Json} (h : ∀ j ∈ items, Legible j)
    (htail : ReadBack tail) (hend : EndNumber tail)
    (hlead : ∀ ts, ReadBack ts → ReadBack (lead ++ ts)) :
    ReadBack (itemTokensOnto tail lead items) := by
  induction items generalizing lead with
  | nil => exact htail
  | cons j js ih =>
    obtain ⟨hj, hjs⟩ := List.forall_mem_cons.1 h
    have hrest : ReadBack (itemTokensOnto tail [.comma] js) := ih hjs fun _ hts => hts.cons trivial
    have hcomma : EndNumber (itemTokensOnto tail [.comma] js) := by
      cases js with
      | nil => exact hend
      | cons => exact stops_cons.2 (by decide)
    exact hlead _ (hj _ hrest hcomma)

theorem readBack_memberTokensOnto {members : List (Option String × Json)}
    (hname : ∀ m ∈ members, m.1.isSome = true) (h : ∀ m ∈ members, Legible m.2)
    (htail : ReadBack tail) (hend : EndNumber tail)
    (hlead : ∀ ts, ReadBack ts → ReadBack (lead ++ ts)) :
    ReadBack (memberTokensOnto tail lead members) := by
  induction members generalizing lead with
  | nil => exact htail
  | cons m ms ih =>
    obtain ⟨hm, hms⟩ := List.forall_mem_cons.1 h
    obtain ⟨hmname, hmsname⟩ := List.forall_mem_cons.1 hname
    have hrest : ReadBack (memberTokensOnto tail [.comma] ms) :=
      ih hmsname hms fun _ hts => hts.cons trivial
    have hcomma : EndNumber (memberTokensOnto tail [.comma] ms) := by
      cases ms with
      | nil => exact hend
      | cons => exact stops_cons.2 (by decide)
    have hvalue := hm _ hrest hcomma
    exact hlead _ ((hvalue.cons (t := .colon) trivial).cons (t := .str m.1) hmname)

theorem IsPlain.legible {j : Json} (hj : j.IsPlain) : Legible j := by
  induction hj with
  | null | bool b => exact fun _ htail _ => htail.cons trivial
  | text s => exact fun _ htail _ => htail.cons rfl
  | int n => exact fun _ htail hend => htail.int hend n
  | arr _ ih =>
    intro tail htail _
    have hclose : ReadBack (.closeArr :: tail) := htail.cons trivial
    have hitems : ReadBack (itemTokensOnto (.closeArr :: tail) [] _) :=
      readBack_itemTokensOnto ih hclose (stops_cons.2 (by decide)) fun _ => id
    exact hitems.cons trivial
  | obj hname _ ih =>
    intro tail htail _
    have hclose : ReadBack (.closeObj :: tail) := htail.cons trivial
    have hmembers : ReadBack (memberTokensOnto (.closeObj :: tail) [] _) :=
      readBack_memberTokensOnto hname ih hclose (stops_cons.2 (by decide)) fun _ => id
    exact hmembers.cons trivial

theorem IsPlain.readTokens?_compact {j : Json} (hj : j.IsPlain) :
    readTokens? j.compact.toList = some j.tokens := by
  rw [compact, String.toList_ofList]
  exact hj.legible [] readBack_nil (stops_nil _)

/-! ### From the tokens to the tree -/

namespace Parse

def goOn (j : Json) (opens : List Open) (tail : List Token) : Option Json :=
  (resume j opens).bind fun next => run next.1 next.2 tail

theorem run_cons (due : Due) (opens : List Open) (t : Token) (ts : List Token) :
    run due opens (t :: ts) = (step t due opens).bind fun next => run next.1 next.2 ts := by
  rw [run]
  cases step t due opens <;> rfl

theorem run_firstItem (j : Json) (opens : List Open) (tail : List Token) :
    run .firstItem opens (tokensOnto tail j) = run .value opens (tokensOnto tail j) := by
  cases j <;> rfl

theorem run_comma_arr (done : List Json) (opens : List Open) (ts : List Token) :
    run .more (.arr done :: opens) (.comma :: ts) = run .value (.arr done :: opens) ts := rfl

theorem run_comma_obj (done : List (Option String × Json)) (opens : List Open) (ts : List Token) :
    run .more (.obj done :: opens) (.comma :: ts) = run .name (.obj done :: opens) ts := rfl

theorem run_name (done : List (Option String × Json)) (opens : List Open) (name : Option String)
    (ts : List Token) : run .name (.obj done :: opens) (.str name :: .colon :: ts) =
      run .value (.member done name :: opens) ts := rfl

mutual

theorem run_tokensOnto (opens : List Open) (tail : List Token) :
    ∀ j, run .value opens (tokensOnto tail j) = goOn j opens tail
  | .null | .bool _ | .int _ | .real _ | .str _ => run_cons _ _ _ _
  | .arr [] => by
    rw [tokensOnto, itemTokensOnto, run_cons, step, valueStep, Option.bind_some, run_cons]
    rfl
  | .arr (j :: js) => by
    rw [tokensOnto, itemTokensOnto, run_cons, step, valueStep, Option.bind_some, List.nil_append,
      run_firstItem, run_tokensOnto, goOn, resume, Option.bind_some, run_itemTokensOnto]
    rfl
  | .obj [] => by
    rw [tokensOnto, memberTokensOnto, run_cons, step, valueStep, Option.bind_some, run_cons]
    rfl
  | .obj ((name, j) :: ms) => by
    have hname : ∀ ts, run .firstName (.obj [] :: opens) (.str name :: .colon :: ts) =
        run .value (.member [] name :: opens) ts := fun _ => rfl
    rw [tokensOnto, memberTokensOnto, run_cons, step, valueStep, Option.bind_some, List.nil_append,
      hname, run_tokensOnto, goOn, resume, Option.bind_some, run_memberTokensOnto]
    rfl

theorem run_itemTokensOnto (opens : List Open) (tail : List Token) : ∀ done items,
    run .more (.arr done :: opens) (itemTokensOnto (.closeArr :: tail) [.comma] items) =
      goOn (.arr (done.reverse ++ items)) opens tail
  | done, [] => by
    rw [List.append_nil, itemTokensOnto, run_cons]
    rfl
  | done, j :: js => by
    rw [itemTokensOnto, List.singleton_append, run_comma_arr, run_tokensOnto, goOn, resume,
      Option.bind_some, run_itemTokensOnto, List.reverse_cons, List.append_assoc,
      List.singleton_append]

theorem run_memberTokensOnto (opens : List Open) (tail : List Token) : ∀ done members,
    run .more (.obj done :: opens) (memberTokensOnto (.closeObj :: tail) [.comma] members) =
      goOn (.obj (done.reverse ++ members)) opens tail
  | done, [] => by
    rw [List.append_nil, memberTokensOnto, run_cons]
    rfl
  | done, (name, j) :: ms => by
    rw [memberTokensOnto, List.singleton_append, run_comma_obj, run_name, run_tokensOnto, goOn,
      resume, Option.bind_some, run_memberTokensOnto, List.reverse_cons, List.append_assoc,
      List.singleton_append]

end

end Parse

theorem ofTokens?_tokens (j : Json) : ofTokens? j.tokens = some j := by
  rw [ofTokens?, tokens, Parse.run_tokensOnto]
  rfl

theorem IsPlain.parse?_compact {j : Json} (hj : j.IsPlain) : parse? j.compact = some j := by
  rw [parse?, hj.readTokens?_compact, Option.bind_some, ofTokens?_tokens]

end CondLang.Json
