import CondLang.Condition
import Mathlib.Data.Finset.Card
import Mathlib.Logic.Function.Basic

/-! Sets of variables under any changes. A name has the value of its last change, and a set or map
that is made from pairs answers as the last pair of each name says. -/

namespace CondLang

/-- What may be done to a set of variables. A name is given a value, with or without the value that
it had before as an answer, or it is forgotten. -/
inductive Change where
  | set (name : String) (value : Value)
  | insert (name : String) (value : Value)
  | remove (name : String)
  deriving DecidableEq, Repr

namespace Change

def name : Change → String
  | set name _ | insert name _ | remove name => name

def value? : Change → Option Value
  | set _ value | insert _ value => some value
  | remove _ => none

def answer? (before : Option Value) : Change → Option (Option Value)
  | set .. | remove _ => some before
  | insert .. => none

def lastValue? (before : Resolver) (changes : List Change) : Resolver := fun name =>
  match (changes.filter fun change => change.name = name).getLast? with
  | some change => change.value?
  | none => before name

theorem lastValue?_cons (before : Resolver) (change : Change) (changes : List Change) :
    lastValue? before (change :: changes) =
      lastValue? (Function.update before change.name change.value?) changes := by
  funext name
  unfold lastValue?
  by_cases h : change.name = name
  · subst h
    rw [List.filter_cons_of_pos (by simp), List.getLast?_cons, Function.update_self]
    cases (changes.filter fun other => other.name = change.name).getLast? <;> rfl
  · rw [List.filter_cons_of_neg (by simpa using h), Function.update_of_ne (Ne.symm h)]

end Change

def lastPair? (pairs : List (String × Value)) : Resolver := fun name =>
  (pairs.filter fun pair => pair.1 = name).getLast?.map Prod.snd

theorem lastPair?_cons (pair : String × Value) (pairs : List (String × Value)) (name : String) :
    lastPair? (pair :: pairs) name =
      (lastPair? pairs name).or (if pair.1 = name then some pair.2 else none) := by
  unfold lastPair?
  by_cases h : pair.1 = name
  · rw [List.filter_cons_of_pos (by simpa using h), List.getLast?_cons, if_pos h]
    cases (pairs.filter fun pair => pair.1 = name).getLast? <;> rfl
  · rw [List.filter_cons_of_neg (by simpa using h), if_neg h, Option.or_none]

theorem findSomeRev?_eq_lastPair? (pairs : List (String × Value)) (name : String) :
    pairs.findSomeRev? (fun pair => if pair.1 = name then some pair.2 else none) =
      lastPair? pairs name := by
  induction pairs with
  | nil => rfl
  | cons pair pairs ih =>
    rw [lastPair?_cons, ← ih, List.findSomeRev?]
    cases pairs.findSomeRev? (fun pair => if pair.1 = name then some pair.2 else none) <;> rfl

namespace Resolver

theorem ofHashMap_ofList [Hashable String] (pairs : List (String × Value)) :
    ofHashMap (Std.HashMap.ofList pairs) = lastPair? pairs := by
  funext name
  rw [ofHashMap, Std.HashMap.ofList_eq_insertMany_empty, Std.HashMap.getElem?_insertMany_list,
    Std.HashMap.getElem?_empty, Option.or_none, ← findSomeRev?_eq_lastPair?]
  simp only [beq_iff_eq]

theorem ofTreeMap_ofList (pairs : List (String × Value)) :
    ofTreeMap (Std.TreeMap.ofList pairs) = lastPair? pairs := by
  funext name
  rw [ofTreeMap, Std.TreeMap.ofList_eq_insertMany_empty, Std.TreeMap.getElem?_insertMany_list,
    Std.TreeMap.getElem?_emptyc, Option.or_none, ← findSomeRev?_eq_lastPair?]
  simp only [Std.LawfulEqCmp.compare_eq_iff_eq]

theorem eq_update {before behind : Resolver} {name : String} {value : Option Value}
    (h : ∀ other, behind other = if name = other then value else before other) :
    behind = Function.update before name value := by
  funext other
  simp only [h, Function.update_apply, @eq_comm _ name other]

end Resolver

namespace Variables

theorem get?_foldl_insert (vars : Variables) (pairs : List (String × Value)) (name : String) :
    (pairs.foldl (fun vars pair => vars.insert pair.1 pair.2) vars).get? name =
      (lastPair? pairs name).or (vars.get? name) := by
  induction pairs generalizing vars with
  | nil => rfl
  | cons pair pairs ih =>
    rw [List.foldl_cons, ih, get?_insert, lastPair?_cons, Option.or_assoc]
    split
    · rw [Option.some_or]
    · rw [Option.none_or]

theorem get?_ofList (pairs : List (String × Value)) : (ofList pairs).get? = lastPair? pairs := by
  funext name
  rw [ofList, get?_foldl_insert, get?_empty, Option.or_none]

structure Holds (vars : Variables) (values : Resolver) : Prop where
  get? : ∀ name, vars.get? name = values name
  resolver : ∀ name, vars.resolver name = values name
  contains : ∀ name, vars.contains name = (values name).isSome
  size : ∃ names : Finset String,
    (∀ name, name ∈ names ↔ (values name).isSome = true) ∧ vars.size = names.card
  isEmpty : vars.isEmpty = true ↔ vars.size = 0

theorem contains_eq (vars : Variables) (name : String) :
    vars.contains name = (vars.get? name).isSome :=
  Std.TreeMap.contains_eq_isSome_getElem?

theorem holds_get? (vars : Variables) : vars.Holds vars.get? where
  get? _ := rfl
  resolver _ := rfl
  contains := vars.contains_eq
  size := by
    refine ⟨vars.values.keys.toFinset, fun name => ?_, ?_⟩
    · rw [List.mem_toFinset, Std.TreeMap.mem_keys, ← contains_eq, contains,
        Std.TreeMap.contains_iff_mem]
    · rw [List.toFinset_card_of_nodup Std.TreeMap.nodup_keys, Std.TreeMap.length_keys, size]
  isEmpty := by rw [isEmpty, Std.TreeMap.isEmpty_eq_size_eq_zero, size, beq_iff_eq]

def perform (vars : Variables) : Change → Option (Option Value) × Variables
  | .set name value => (some (vars.set name value).1, (vars.set name value).2)
  | .insert name value => (none, vars.insert name value)
  | .remove name => (some (vars.remove name).1, (vars.remove name).2)

def run (vars : Variables) : List Change → List (Option (Option Value)) × Variables
  | [] => ([], vars)
  | change :: changes =>
    let (answer, vars) := vars.perform change
    let (answers, last) := vars.run changes
    (answer :: answers, last)

theorem get?_perform (vars : Variables) (change : Change) :
    (vars.perform change).2.get? = Function.update vars.get? change.name change.value? := by
  cases change with
  | set name value | insert name value =>
    exact Resolver.eq_update fun other => vars.get?_insert name other value
  | remove name => exact Resolver.eq_update fun other => vars.get?_erase name other

theorem answer_perform (vars : Variables) (change : Change) :
    (vars.perform change).1 = change.answer? (vars.get? change.name) := by
  cases change <;> rfl

theorem get?_run (vars : Variables) (changes : List Change) :
    (vars.run changes).2.get? = Change.lastValue? vars.get? changes := by
  induction changes generalizing vars with
  | nil => rfl
  | cons change changes ih => rw [run, ih, get?_perform, Change.lastValue?_cons]

theorem answers_run (vars : Variables) (changes : List Change) (k : Nat) :
    (vars.run changes).1[k]? = changes[k]?.map fun change =>
      change.answer? (Change.lastValue? vars.get? (changes.take k) change.name) := by
  induction changes generalizing vars k with
  | nil => rfl
  | cons change changes ih =>
    cases k with
    | zero => exact congrArg some (vars.answer_perform change)
    | succ k =>
      simp only [run, List.getElem?_cons_succ, List.take_succ_cons, ih, get?_perform,
        Change.lastValue?_cons]

end Variables

def Condition.outcome (source : String) (ρ : Resolver) :
    Except ConditionError Value × List String :=
  (evaluate source ρ, lookups source ρ)

open Variables Condition

/-- Variables hold what was last done to each name, the answer to a change is the value just before
it, and a change leaves all other names alone. A condition has one outcome under variables and maps
that were made from the same pairs, however a map hashes its names: the last pair of each name
answers. -/
theorem variables_follow_changes_and_pairs :
    ofList [] = empty ∧
      (∀ (pairs : List (String × Value)) (changes : List Change),
        ((ofList pairs).run changes).2.Holds (Change.lastValue? (lastPair? pairs) changes) ∧
          ∀ k, ((ofList pairs).run changes).1[k]? = changes[k]?.map fun change : Change =>
            change.answer? (Change.lastValue? (lastPair? pairs) (changes.take k) change.name)) ∧
      (∀ (vars : Variables) (change : Change),
        (vars.perform change).2.get? = Function.update vars.get? change.name change.value?) ∧
      ∀ [Hashable String] (pairs : List (String × Value)) (source : String),
        outcome source (ofList pairs).resolver = outcome source (lastPair? pairs) ∧
          outcome source (Resolver.ofHashMap (.ofList pairs)) =
            outcome source (lastPair? pairs) ∧
          outcome source (Resolver.ofTreeMap (.ofList pairs)) =
            outcome source (lastPair? pairs) := by
  refine ⟨rfl, fun pairs changes => ⟨?_, fun k => ?_⟩, get?_perform, fun pairs source => ?_⟩
  · rw [← get?_ofList, ← get?_run]
    exact holds_get? _
  · rw [← get?_ofList]
    exact answers_run _ changes k
  · rw [resolver, get?_ofList, Resolver.ofHashMap_ofList, Resolver.ofTreeMap_ofList]
    exact ⟨rfl, rfl, rfl⟩

end CondLang
