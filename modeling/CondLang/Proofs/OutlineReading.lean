import CondLang.Expr.Outline
import CondLang.Proofs.Literal
import CondLang.Proofs.TreeIdentity

/-! Outlines tell which tree they show. A quoted text ends at the first quote that is not escaped,
so it can hold even what looks like an outline. -/

namespace CondLang

namespace Quoted

theorem digitChar_inj : ∀ i < 16, ∀ j < 16, Nat.digitChar i = Nat.digitChar j → i = j := by
  decide

theorem digitChar_ne_brace : ∀ i < 16, Nat.digitChar i ≠ '\x7d' := by
  decide

theorem brace_notMem_hexDigits (n : Nat) : '\x7d' ∉ Nat.toDigits 16 n := by
  induction n using Nat.strongRecOn with
  | _ n ih =>
  rw [Nat.toDigits_eq_if (by decide)]
  split
  · next hn =>
    rw [List.mem_singleton]
    exact (digitChar_ne_brace n hn).symm
  · next hn =>
    have hlast := digitChar_ne_brace (n % 16) (Nat.mod_lt n (by decide))
    rw [List.mem_append, List.mem_singleton, not_or]
    exact ⟨ih (n / 16) (by omega), hlast.symm⟩

theorem hexDigits_injective : Function.Injective (Nat.toDigits 16) := by
  intro n m h
  induction n using Nat.strongRecOn generalizing m with
  | _ n ih =>
  rw [Nat.toDigits_eq_if (by decide), Nat.toDigits_eq_if (n := m) (by decide)] at h
  split at h <;> split at h
  · next hn hm => exact digitChar_inj n hn m hm (List.singleton_inj.1 h)
  · exact absurd (List.append_singleton_inj.1 h.symm).1 Nat.toDigits_ne_nil
  · exact absurd (List.append_singleton_inj.1 h).1 Nat.toDigits_ne_nil
  · next hn hm =>
    obtain ⟨hfront, hlast⟩ := List.append_singleton_inj.1 h
    have hdiv : n / 16 = m / 16 := ih (n / 16) (by omega) hfront
    have hmod : n % 16 = m % 16 :=
      digitChar_inj _ (Nat.mod_lt n (by decide)) _ (Nat.mod_lt m (by decide)) hlast
    omega

theorem selfDelimiting_hexDigits : SelfDelimiting fun n => Nat.toDigits 16 n ++ ['\x7d'] :=
  .of_notMem hexDigits_injective brace_notMem_hexDigits List.mem_cons_self

section Escape
variable (hidden : Char → Bool)

theorem escapeWith_cases (c : Char) :
    (∃ l, (c, l) ∈ letters '"' ∧ escapeWith hidden '"' c = ['\\', l]) ∨
      escapeWith hidden '"' c =
        '\\' :: 'u' :: '\x7b' :: (Nat.toDigits 16 c.toNat ++ ['\x7d']) ∨
      (c ≠ '\\' ∧ c ≠ '"') ∧ escapeWith hidden '"' c = [c] := by
  unfold escapeWith
  split
  · next l hl =>
    obtain ⟨front, back, hsplit, -⟩ := List.lookup_eq_some_iff.1 hl
    exact .inl ⟨l, hsplit ▸ List.mem_append_right front List.mem_cons_self, rfl⟩
  · next hnone =>
    split
    · exact .inr (.inl rfl)
    · have hne := List.lookup_eq_none_iff.1 hnone
      exact .inr (.inr ⟨⟨bne_iff_ne.1 (hne ('\\', '\\') (by decide)),
        bne_iff_ne.1 (hne ('"', '"') (by decide))⟩, rfl⟩)

theorem fst_inj_of_letters : ∀ p ∈ letters '"', ∀ q ∈ letters '"', p.2 = q.2 → p.1 = q.1 := by
  decide

theorem letter_ne_u : ∀ p ∈ letters '"', p.2 ≠ 'u' := by
  decide

theorem selfDelimiting_escapeWith : SelfDelimiting (escapeWith hidden '"') := by
  intro c d u v heq
  rcases escapeWith_cases hidden c with ⟨l, hl, hc⟩ | hc | ⟨⟨hcslash, -⟩, hc⟩ <;>
    rcases escapeWith_cases hidden d with ⟨k, hk, hd⟩ | hd | ⟨⟨hdslash, -⟩, hd⟩ <;>
    rw [hc, hd] at heq <;>
    obtain ⟨hfirst, hrest⟩ := List.cons.inj heq
  · exact fst_inj_of_letters _ hl _ hk (List.cons.inj hrest).1
  · exact absurd (List.cons.inj hrest).1 (letter_ne_u _ hl)
  · exact absurd hfirst.symm hdslash
  · exact absurd (List.cons.inj hrest).1.symm (letter_ne_u _ hk)
  · have hdigits := (List.cons.inj (List.cons.inj hrest).2).2
    exact Char.toNat_inj.1 (selfDelimiting_hexDigits hdigits)
  · exact absurd hfirst.symm hdslash
  · exact absurd hfirst hcslash
  · exact absurd hfirst hcslash
  · exact hfirst

theorem escapeWith_append_ne (c : Char) (u v : List Char) :
    escapeWith hidden '"' c ++ u ≠ '"' :: v := by
  intro heq
  rcases escapeWith_cases hidden c with ⟨l, -, hc⟩ | hc | ⟨⟨-, hquote⟩, hc⟩ <;>
    rw [hc] at heq <;>
    have hfirst := (List.cons.inj heq).1
  · exact absurd hfirst (by decide)
  · exact absurd hfirst (by decide)
  · exact hquote hfirst

theorem selfDelimiting_textWith : SelfDelimiting (textWith hidden) :=
  ((selfDelimiting_escapeWith hidden).flatMap_mark (escapeWith_append_ne hidden)).const_append ['"']

end Escape

end Quoted

namespace Literal

theorem int_injective : Function.Injective int := by
  intro n m h
  have hread := Decimal.readInt64?_numeral n
  rw [← int, h, int, Decimal.readInt64?_numeral, Option.some.injEq] at hread
  exact hread.symm

theorem paren_notMem_int (n : Int64) : ')' ∉ int n := by
  have hdigits : ')' ∉ Decimal.digits n.toInt.natAbs :=
    fun h => absurd (Decimal.isDigit_of_mem_digits h) (by decide)
  unfold int Decimal.numeral
  split
  · simpa using hdigits
  · exact hdigits

theorem bool_injective : Function.Injective bool := by
  intro b c h
  cases b <;> cases c <;> first | rfl | cases h

theorem paren_notMem_bool : ∀ b, ')' ∉ bool b := by
  decide

end Literal

theorem BinaryOp.name_toList_injective :
    Function.Injective fun op : BinaryOp => op.name.toList := by
  intro op op' h
  cases op <;> cases op' <;> first | rfl | exact absurd h (by decide)

theorem BinaryOp.colon_notMem_name (op : BinaryOp) : ':' ∉ op.name.toList := by
  cases op <;> decide

namespace Expr

theorem two_le_length_opening (s : Shape) : 2 ≤ s.opening.length := by
  cases s <;> decide

theorem eq_of_take_opening {s t : Shape} (h : s.opening.take 2 = t.opening.take 2) : s = t := by
  cases s <;> cases t <;> first | rfl | exact absurd h (by decide)

theorem selfDelimiting_opening : SelfDelimiting Shape.opening := by
  intro s t u v heq
  have hfirst := congrArg (List.take 2) heq
  rw [List.take_append_of_le_length (two_le_length_opening s),
    List.take_append_of_le_length (two_le_length_opening t)] at hfirst
  exact eq_of_take_opening hfirst

section Outline
variable (hidden : Char → Bool) (layout : Layout)

theorem exists_outlineOnto_eq (depth : Nat) (tail : List Char) (e : Expr) :
    ∃ rest, e.outlineOnto hidden layout depth tail = e.shape.opening ++ rest := by
  cases e <;> exact ⟨_, rfl⟩

variable {hidden layout}

theorem Layout.leafOnto_inj {α : Type} {content : α → List Char} {depth : Nat}
    (h : SelfDelimiting fun a => content a ++ (layout.leafClose depth ++ [')'])) {a b : α}
    {u v : List Char}
    (heq : layout.leafOnto depth u (content a) = layout.leafOnto depth v (content b)) :
    a = b ∧ u = v := by
  have hsplit (tail content : List Char) : layout.leafOnto depth tail content =
      layout.leafOpen depth ++ ((content ++ (layout.leafClose depth ++ [')'])) ++ tail) := by
    simp [leafOnto]
  rw [hsplit, hsplit] at heq
  exact h.eq_and_eq (List.append_cancel_left heq)

theorem Layout.textOnto_inj {depth : Nat} {s s' : String} {u v : List Char}
    (heq : layout.leafOnto depth u (Quoted.textWith hidden s.toList) =
      layout.leafOnto depth v (Quoted.textWith hidden s'.toList)) : s = s' ∧ u = v := by
  have htext := (Quoted.selfDelimiting_textWith hidden).comp fun _ _ => String.toList_injective
  exact leafOnto_inj (htext.append_const _) heq

theorem outlineOnto_inj {a b : Expr} {depth : Nat} {u v : List Char}
    (heq : a.outlineOnto hidden layout depth u = b.outlineOnto hidden layout depth v) :
    a = b ∧ u = v := by
  induction a, b using pair_induction generalizing depth u v with
  | differ a b hne =>
    obtain ⟨rest, ha⟩ := exists_outlineOnto_eq hidden layout depth u a
    obtain ⟨rest', hb⟩ := exists_outlineOnto_eq hidden layout depth v b
    rw [ha, hb] at heq
    exact absurd (selfDelimiting_opening heq) hne
  | var name name' =>
    obtain ⟨rfl, htail⟩ := Layout.textOnto_inj (List.append_cancel_left heq)
    exact ⟨rfl, htail⟩
  | int n n' =>
    have hint : SelfDelimiting fun n => Literal.int n ++ (layout.leafClose depth ++ [')']) :=
      .of_notMem Literal.int_injective Literal.paren_notMem_int (by simp)
    obtain ⟨rfl, htail⟩ := Layout.leafOnto_inj hint (List.append_cancel_left heq)
    exact ⟨rfl, htail⟩
  | str s s' =>
    obtain ⟨rfl, htail⟩ := Layout.textOnto_inj (List.append_cancel_left heq)
    exact ⟨rfl, htail⟩
  | bool c c' =>
    have hbool : SelfDelimiting fun c => Literal.bool c ++ (layout.leafClose depth ++ [')']) :=
      .of_notMem Literal.bool_injective Literal.paren_notMem_bool (by simp)
    obtain ⟨rfl, htail⟩ := Layout.leafOnto_inj hbool (List.append_cancel_left heq)
    exact ⟨rfl, htail⟩
  | unary op op' e e' ih =>
    cases op
    cases op'
    simp only [outlineOnto, List.append_cancel_left_eq] at heq
    obtain ⟨rfl, hclose⟩ := ih heq
    exact ⟨rfl, (List.cons.inj (List.append_cancel_left hclose)).2⟩
  | binary op op' l l' r r' ihl ihr =>
    simp only [outlineOnto, List.append_cancel_left_eq] at heq
    have hname : SelfDelimiting fun op : BinaryOp =>
        op.name.toList ++ (layout.formNext depth ++ "left: ".toList) :=
      .of_notMem BinaryOp.name_toList_injective BinaryOp.colon_notMem_name (by simp)
    rw [← List.append_assoc (layout.formNext depth) "left: ".toList,
      ← List.append_assoc (layout.formNext depth) "left: ".toList,
      ← List.append_assoc op.name.toList, ← List.append_assoc op'.name.toList] at heq
    obtain ⟨rfl, hleft⟩ := hname.eq_and_eq heq
    obtain ⟨rfl, hright⟩ := ihl hleft
    simp only [List.append_cancel_left_eq] at hright
    obtain ⟨rfl, hclose⟩ := ihr hright
    exact ⟨rfl, (List.cons.inj (List.append_cancel_left hclose)).2⟩

theorem outlineWith_eq_iff {a b : Expr} :
    a.outlineWith hidden layout = b.outlineWith hidden layout ↔ a.same b = true := by
  rw [same_iff]
  constructor
  · intro heq
    exact (outlineOnto_inj (String.ofList_injective heq)).1
  · rintro rfl
    rfl

end Outline

/-- Two trees have the same outline just when they are the same tree, on one line as well as on
several, whichever characters are written by their code points. -/
theorem outlines_identify_trees (a b : Expr) :
    (a.outline = b.outline ↔ a.same b = true) ∧
      (a.indentedOutline = b.indentedOutline ↔ a.same b = true) ∧
      ∀ (hidden : Char → Bool) (layout : Layout),
        a.outlineWith hidden layout = b.outlineWith hidden layout ↔ a.same b = true :=
  ⟨outlineWith_eq_iff, outlineWith_eq_iff, fun _ _ => outlineWith_eq_iff⟩

example : (unary .not (str "a\"),\n")).indentedOutline =
    "Unary \x7b\n    op: Not,\n    operand: Str(\n        \"a\\\"),\\n\",\n    ),\n\x7d" := by
  decide +kernel

end Expr

end CondLang
