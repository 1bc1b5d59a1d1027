import CondLang.Value
import Std.Data.HashMap
import Std.Data.TreeMap

/-!
Hosts of variables. All that a condition knows of its host is the answer to a name (`Resolver`);
maps of any kind are hosts, lists of pairs, and sets of named values (`Variables`).
-/

namespace CondLang

/-- Answers what a name stands for, or that it is not defined. A host is taken to answer a name alike
each time that it is asked; one whose answers change while a condition is evaluated is none. -/
abbrev Resolver := String → Option Value

namespace Resolver

def ofHashMap [Hashable String] (values : Std.HashMap String Value) : Resolver :=
  fun name => values[name]?

def ofTreeMap (values : Std.TreeMap String Value) : Resolver :=
  fun name => values[name]?

/-- The first pair of a name answers for it. -/
def ofPairs (pairs : List (String × Value)) : Resolver :=
  fun name => pairs.lookup name

end Resolver

structure Variables where
  values : Std.TreeMap String Value := ∅

namespace Variables

def empty : Variables := {}

def get? (vars : Variables) (name : String) : Option Value :=
  vars.values[name]?

def contains (vars : Variables) (name : String) : Bool :=
  vars.values.contains name

def size (vars : Variables) : Nat :=
  vars.values.size

def isEmpty (vars : Variables) : Bool :=
  vars.values.isEmpty

def insert (vars : Variables) (name : String) (value : Value) : Variables :=
  ⟨vars.values.insert name value⟩

def erase (vars : Variables) (name : String) : Variables :=
  ⟨vars.values.erase name⟩

def set (vars : Variables) (name : String) (value : Value) : Option Value × Variables :=
  (vars.get? name, vars.insert name value)

def remove (vars : Variables) (name : String) : Option Value × Variables :=
  (vars.get? name, vars.erase name)

def toList (vars : Variables) : List (String × Value) :=
  vars.values.toList

def ofList (pairs : List (String × Value)) : Variables :=
  pairs.foldl (fun vars pair => vars.insert pair.1 pair.2) empty

def resolver (vars : Variables) : Resolver :=
  vars.get?

instance : BEq Variables := ⟨fun a b => a.toList == b.toList⟩

@[simp] theorem get?_empty (name : String) : empty.get? name = none := by
  simp [get?, empty]

theorem get?_insert (vars : Variables) (name other : String) (value : Value) :
    (vars.insert name value).get? other = if name = other then some value else vars.get? other := by
  simp [get?, insert, Std.TreeMap.getElem?_insert]

theorem get?_erase (vars : Variables) (name other : String) :
    (vars.erase name).get? other = if name = other then none else vars.get? other := by
  simp [get?, erase, Std.TreeMap.getElem?_erase]

end Variables

end CondLang
