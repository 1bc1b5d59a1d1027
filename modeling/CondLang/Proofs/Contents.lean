import CondLang.Proofs.Derivation

/-! What tokens form is settled by their contents: the same contents at another place, among other
tokens and in another layout, form the same tree. -/

namespace CondLang

abbrev Content := TokenKind × String

def formContents (op : Operator) (operands : List Content) : List Content :=
  (.leftParen, "(") :: (.symbol, op.keyword) :: operands ++ [(.rightParen, ")")]

/-- These contents form this expression wherever they stand in a list of tokens. -/
def Forms (ws : List Content) (e : Expr) : Prop :=
  ∀ ts pre post, ts.map Token.content = pre ++ (ws ++ post) →
    Derives ts pre.length e (pre.length + ws.length)

section Shift
variable {ts us : List Token} {d i j : Nat} {e : Expr}

theorem exists_token_of_content {w : Content} (h : (ts[i]?).map Token.content = some w) :
    ∃ t, ts[i]? = some t ∧ t.kind = w.1 ∧ t.text = w.2 := by
  obtain ⟨t, ht, rfl⟩ := Option.map_eq_some_iff.1 h
  exact ⟨t, ht, rfl, rfl⟩

theorem exists_token_behind {w : Content} {pre post : List Content}
    (h : ts.map Token.content = pre ++ w :: post) :
    ∃ t, ts[pre.length]? = some t ∧ t.kind = w.1 ∧ t.text = w.2 := by
  apply exists_token_of_content
  rw [← List.getElem?_map, h, List.getElem?_append_right (Nat.le_refl _), Nat.sub_self]
  rfl

/-- From index `i` up to `j` the tokens of `ts` have the contents that those of `us` have `d`
tokens further on. -/
def SameContents (ts us : List Token) (d i j : Nat) : Prop :=
  ∀ k, i ≤ k → k < j → (us[d + k]?).map Token.content = (ts[k]?).map Token.content

theorem SameContents.exists_token {t : Token} (h : SameContents ts us d i j) (ht : ts[i]? = some t)
    (hij : i < j) : ∃ u, us[d + i]? = some u ∧ u.kind = t.kind ∧ u.text = t.text := by
  have hcontent : (us[d + i]?).map Token.content = some t.content := by
    rw [h i (Nat.le_refl i) hij, ht]
    rfl
  exact exists_token_of_content hcontent

theorem SameContents.mono {i' j' : Nat} (h : SameContents ts us d i j) (hi : i ≤ i')
    (hj : j' ≤ j) : SameContents ts us d i' j' :=
  fun k hk hkj => h k (Nat.le_trans hi hk) (Nat.lt_of_lt_of_le hkj hj)

theorem HasKind.shift {kind : TokenKind} (h : HasKind ts i kind) (hij : i < j)
    (hsame : SameContents ts us d i j) : HasKind us (d + i) kind := by
  obtain ⟨t, ht, rfl⟩ := h
  obtain ⟨u, hu, hkind, -⟩ := hsame.exists_token ht hij
  exact ⟨u, hu, hkind⟩

theorem OpensForm.shift {op : Operator} (h : OpensForm ts i op) (hij : i + 1 < j)
    (hsame : SameContents ts us d i j) : OpensForm us (d + i) op := by
  obtain ⟨hparen, t, ht, hkind, hop⟩ := h
  obtain ⟨u, hu, hukind, hutext⟩ :=
    (hsame.mono (Nat.le_succ i) (Nat.le_refl j)).exists_token ht hij
  exact ⟨hparen.shift (Nat.lt_of_succ_lt hij) hsame, u, hu, hukind.trans hkind, hutext.trans hop⟩

theorem Derives.shift (h : Derives ts i e j) (hsame : SameContents ts us d i j) :
    Derives us (d + i) e (d + j) := by
  induction h with
  | var ht hk =>
    obtain ⟨u, hu, hkind, htext⟩ := hsame.exists_token ht (Nat.lt_succ_self _)
    rw [← htext]
    exact .var hu (hkind.trans hk)
  | int ht hk hn =>
    obtain ⟨u, hu, hkind, htext⟩ := hsame.exists_token ht (Nat.lt_succ_self _)
    exact .int hu (hkind.trans hk) (htext ▸ hn)
  | bool ht hk hb =>
    obtain ⟨u, hu, hkind, htext⟩ := hsame.exists_token ht (Nat.lt_succ_self _)
    exact .bool hu (hkind.trans hk) (htext.trans hb)
  | str ht hk =>
    obtain ⟨u, hu, hkind, htext⟩ := hsame.exists_token ht (Nat.lt_succ_self _)
    rw [← htext]
    exact .str hu (hkind.trans hk)
  | @unary i j op e hopen he hclose ih =>
    have hlt := he.lt
    have hinside : SameContents ts us d (i + 2) j := hsame.mono (by omega) (by omega)
    have hlast : SameContents ts us d j (j + 1) := hsame.mono (by omega) (Nat.le_refl _)
    exact .unary (hopen.shift (by omega) hsame) (ih hinside) (hclose.shift (Nat.lt_succ_self j) hlast)
  | @binary i j k op l r hopen hl hr hclose ihl ihr =>
    have hllt := hl.lt
    have hrlt := hr.lt
    have hleft : SameContents ts us d (i + 2) j := hsame.mono (by omega) (by omega)
    have hright : SameContents ts us d j k := hsame.mono (by omega) (by omega)
    have hlast : SameContents ts us d k (k + 1) := hsame.mono (by omega) (Nat.le_refl _)
    exact .binary (hopen.shift (by omega) hsame) (ihl hleft) (ihr hright)
      (hclose.shift (Nat.lt_succ_self k) hlast)

theorem forms_of_derives {ws post : List Content} (h : Derives ts 0 e ws.length)
    (hts : ts.map Token.content = ws ++ post) : Forms ws e := by
  intro us pre post' hus
  refine h.shift fun k _ hk => ?_
  rw [← List.getElem?_map, ← List.getElem?_map, hts, hus, List.getElem?_append_left hk,
    List.getElem?_append_right (Nat.le_add_right _ _), Nat.add_sub_cancel_left,
    List.getElem?_append_left hk]

end Shift

section Forms
variable {ws wl wr : List Content} {e l r : Expr}

theorem forms_var (name : String) : Forms [(.symbol, name)] (.var name) := by
  intro ts pre post hts
  obtain ⟨t, ht, hkind, htext⟩ := exists_token_behind hts
  cases htext
  exact .var ht hkind

theorem forms_int {text : String} {n : Int64} (hn : Decimal.IsNumeral text.toList n.toInt) :
    Forms [(.intLiteral, text)] (.int n) := by
  intro ts pre post hts
  obtain ⟨t, ht, hkind, htext⟩ := exists_token_behind hts
  cases htext
  exact .int ht hkind hn

theorem forms_bool (b : Bool) :
    Forms [(.booleanLiteral, if b then "true" else "false")] (.bool b) := by
  intro ts pre post hts
  obtain ⟨t, ht, hkind, htext⟩ := exists_token_behind hts
  exact .bool ht hkind htext

theorem forms_str (text : String) :
    Forms [(.stringLiteral, text)] (.str (String.ofList (text.toList.drop 1).dropLast)) := by
  intro ts pre post hts
  obtain ⟨t, ht, hkind, htext⟩ := exists_token_behind hts
  cases htext
  exact .str ht hkind

theorem opensForm_of_contents {ts : List Token} {op : Operator} {pre post : List Content}
    (hts : ts.map Token.content =
      pre ++ ((.leftParen, "(") :: (.symbol, op.keyword) :: post)) : OpensForm ts pre.length op := by
  have hhead : ts.map Token.content =
      (pre ++ [(.leftParen, "(")]) ++ ((.symbol, op.keyword) :: post) := by
    rw [hts, List.append_assoc, List.singleton_append]
  obtain ⟨o, ho, hokind, -⟩ := exists_token_behind hts
  obtain ⟨h, hh, hhkind, hhtext⟩ := exists_token_behind hhead
  rw [List.length_append] at hh
  exact ⟨⟨o, ho, hokind⟩, h, hh, hhkind, hhtext⟩

theorem formContents_parts {ts : List Token} {op : Operator} {pre post : List Content}
    (hts : ts.map Token.content = pre ++ (formContents op ws ++ post)) :
    OpensForm ts pre.length op ∧
      (∃ front : List Content, front.length = pre.length + 2 ∧
        ts.map Token.content = front ++ (ws ++ ((.rightParen, ")") :: post))) ∧
      HasKind ts (pre.length + 2 + ws.length) .rightParen := by
  let front : List Content := pre ++ [(.leftParen, "("), (.symbol, op.keyword)]
  have hfront : front.length = pre.length + 2 := by simp [front]
  -- The same list, split in front of the places that are asked about.
  have hopen : ts.map Token.content = pre ++ ((.leftParen, "(") ::
      (.symbol, op.keyword) :: (ws ++ ((.rightParen, ")") :: post))) := by
    simpa [formContents] using hts
  have hinside : ts.map Token.content = front ++ (ws ++ ((.rightParen, ")") :: post)) := by
    simpa [front] using hopen
  have hclose : ts.map Token.content = (front ++ ws) ++ ((.rightParen, ")") :: post) := by
    rw [hinside, ← List.append_assoc]
  obtain ⟨c, hc, hckind, -⟩ := exists_token_behind hclose
  rw [List.length_append, hfront] at hc
  exact ⟨opensForm_of_contents hopen, ⟨front, hfront, hinside⟩, c, hc, hckind⟩

theorem length_formContents (op : Operator) (ws : List Content) :
    (formContents op ws).length = ws.length + 3 := by
  simp [formContents]

theorem Forms.unary (op : UnaryOp) (h : Forms ws e) :
    Forms (formContents (.unary op) ws) (.unary op e) := by
  intro ts pre post hts
  obtain ⟨hopen, ⟨front, hfront, hinside⟩, hclose⟩ := formContents_parts hts
  have he := h ts front _ hinside
  rw [hfront] at he
  have hend : pre.length + (ws.length + 3) = pre.length + 2 + ws.length + 1 := by omega
  rw [length_formContents, hend]
  exact .unary hopen he hclose

theorem Forms.binary (op : BinaryOp) (hl : Forms wl l) (hr : Forms wr r) :
    Forms (formContents (.binary op) (wl ++ wr)) (.binary op l r) := by
  intro ts pre post hts
  obtain ⟨hopen, ⟨front, hfront, hinside⟩, hclose⟩ := formContents_parts hts
  rw [List.append_assoc] at hinside
  have hleft := hl ts front _ hinside
  rw [← List.append_assoc] at hinside
  have hright := hr ts (front ++ wl) _ hinside
  rw [List.length_append, hfront] at hright
  rw [hfront] at hleft
  rw [List.length_append, ← Nat.add_assoc] at hclose
  have hend : pre.length + (wl.length + wr.length + 3) =
      pre.length + 2 + wl.length + wr.length + 1 := by omega
  rw [length_formContents, List.length_append, hend]
  exact .binary hopen hleft hright hclose

end Forms

end CondLang
