import CondLang.Json

/-!
Records and choices in JSON.

* A record is an object with each field exactly once and any other members, in any order, or an
  array of the fields' values in their order.
* A choice that carries data is an object with one member, whose name is that of the choice. A
  choice that carries none is its name, or such an object with the value `null`.
-/

namespace CondLang.Json

def member? (members : List (Option String × Json)) (name : String) : Option Json :=
  match members.filter fun m => m.1 = some name with
  | [(_, j)] => some j
  | _ => none

def fields? (names : List String) : Json → Option (List Json)
  | arr items => if items.length = names.length then some items else none
  | obj members =>
    if members.all fun m => m.1.isSome then names.mapM (member? members) else none
  | _ => none

def choice? : Json → Option (String × Json)
  | obj [(some name, body)] => some (name, body)
  | _ => none

def plainChoice? : Json → Option String
  | str name => name
  | obj [(some name, null)] => some name
  | _ => none

theorem sizeOf_member_lt {members : List (Option String × Json)} {name : String} {j : Json}
    (h : member? members name = some j) : sizeOf j < sizeOf (obj members) := by
  unfold member? at h
  split at h
  · next name' j' hf =>
    cases h
    have hmem : (name', j) ∈ members :=
      (List.mem_filter.1 (hf ▸ List.mem_singleton_self (name', j))).1
    have := List.sizeOf_lt_of_mem hmem
    simp only [Prod.mk.sizeOf_spec, obj.sizeOf_spec] at this ⊢
    omega
  · cases h

theorem exists_of_mem_mapM {f : String → Option Json} {names : List String} {fields : List Json}
    {field : Json} (h : names.mapM f = some fields) (hf : field ∈ fields) :
    ∃ name, f name = some field := by
  induction names generalizing fields with
  | nil => cases h; cases hf
  | cons name names ih =>
    simp only [List.mapM_cons, bind, Option.bind_eq_some_iff] at h
    obtain ⟨j, hj, js, hjs, h⟩ := h
    cases h
    rcases List.mem_cons.1 hf with rfl | hmem
    · exact ⟨name, hj⟩
    · exact ih hjs hmem

theorem sizeOf_field_lt {names : List String} {j field : Json} {fields : List Json}
    (h : j.fields? names = some fields) (hf : field ∈ fields) : sizeOf field < sizeOf j := by
  unfold fields? at h
  split at h
  · split at h
    · cases h
      have := List.sizeOf_lt_of_mem hf
      simp only [arr.sizeOf_spec]
      omega
    · cases h
  · next members =>
    split at h
    · obtain ⟨name, hn⟩ := exists_of_mem_mapM h hf
      exact sizeOf_member_lt hn
    · cases h
  · cases h

theorem sizeOf_body_lt {j body : Json} {name : String} (h : j.choice? = some (name, body)) :
    sizeOf body < sizeOf j := by
  unfold choice? at h
  split at h
  · cases h
    simp only [obj.sizeOf_spec, List.cons.sizeOf_spec, Prod.mk.sizeOf_spec]
    omega
  · cases h

end CondLang.Json
