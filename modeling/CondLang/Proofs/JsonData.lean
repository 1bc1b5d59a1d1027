import CondLang.Codec.Expr
import CondLang.Codec.Token
import CondLang.Codec.Value
import CondLang.Proofs.JsonTrees
import Mathlib.Data.List.Nodup

/-! Decoding undoes encoding, for data of any size and depth: a record whose fields have different
names gives back the value of each, and an integer that fits is read as itself. -/

namespace CondLang

namespace Json

variable {members : List (String × Json)} {name : String} {j : Json}

theorem mapM_map_eq_some {α β γ : Type} {f : β → Option γ} {g : α → β} {h : α → γ} {as : List α}
    (hf : ∀ a ∈ as, f (g a) = some (h a)) : (as.map g).mapM f = some (as.map h) := by
  induction as with
  | nil => rfl
  | cons a as ih =>
    obtain ⟨ha, has⟩ := List.forall_mem_cons.1 hf
    rw [List.map_cons, List.mapM_cons, ha, ih has]
    rfl

theorem filter_name_eq_nil (h : name ∉ members.map Prod.fst) :
    (members.map fun m => (some m.1, m.2)).filter (fun m => m.1 = some name) = [] := by
  rw [List.filter_eq_nil_iff]
  intro m hm hname
  obtain ⟨n, hn, rfl⟩ := List.mem_map.1 hm
  rw [decide_eq_true_eq] at hname
  exact h (List.mem_map.2 ⟨n, hn, Option.some.inj hname⟩)

theorem member?_of_mem (hnames : (members.map Prod.fst).Nodup) (h : (name, j) ∈ members) :
    member? (members.map fun m => (some m.1, m.2)) name = some j := by
  suffices hfilter : (members.map fun m => (some m.1, m.2)).filter (fun m => m.1 = some name) =
      [(some name, j)] by
    rw [member?, hfilter]
  induction members with
  | nil => cases h
  | cons m ms ih =>
    obtain ⟨hm, hms⟩ := List.nodup_cons.1 hnames
    rcases List.mem_cons.1 h with rfl | h
    · rw [List.map_cons, List.filter_cons_of_pos (by simp), filter_name_eq_nil hm]
    · have hne : m.1 ≠ name := by
        rintro rfl
        exact hm (List.mem_map.2 ⟨_, h, rfl⟩)
      rw [List.map_cons, List.filter_cons_of_neg (by simpa using hne), ih hms h]

theorem fields?_record (hnames : (members.map Prod.fst).Nodup) :
    (record members).fields? (members.map Prod.fst) = some (members.map Prod.snd) := by
  have hsome : ((members.map fun m => (some m.1, m.2)).all fun m => m.1.isSome) = true := by simp
  rw [record, fields?, hsome]
  exact mapM_map_eq_some fun m hm => member?_of_mem hnames hm

theorem IsPlain.record (h : ∀ m ∈ members, m.2.IsPlain) : (record members).IsPlain := by
  refine .obj (fun m hm => ?_) fun m hm => ?_
  · obtain ⟨n, -, rfl⟩ := List.mem_map.1 hm
    rfl
  · obtain ⟨n, hn, rfl⟩ := List.mem_map.1 hm
    exact h n hn

theorem int64?_int (n : Int64) : (int n.toInt).int64? = some n :=
  Decimal.toInt64?_toInt n

theorem offset?_int {n : Nat} (h : n < UInt64.size) : (int n).offset? = some n := by
  simp [offset?, int?, h]

end Json

open Json (IsPlain)

theorem UnaryOp.ofJson?_toJson (op : UnaryOp) : ofJson? op.toJson = some op := by
  cases op
  rfl

theorem BinaryOp.ofJson?_toJson (op : BinaryOp) : ofJson? op.toJson = some op := by
  cases op <;> rfl

theorem Arity.ofJson?_toJson (arity : Arity) : ofJson? arity.toJson = some arity := by
  cases arity <;> rfl

theorem TokenKind.ofJson?_toJson (kind : TokenKind) : ofJson? kind.toJson = some kind := by
  cases kind <;> rfl

namespace Value

theorem ofJson?_toJson (v : Value) : ofJson? v.toJson = some v := by
  cases v with
  | int n =>
    have hread : ofJson? (toJson (.int n)) = (Json.int n.toInt).int64?.map int := rfl
    rw [hread, Json.int64?_int, Option.map_some]
  | str | bool => rfl

theorem isPlain_toJson (v : Value) : v.toJson.IsPlain := by
  cases v with
  | int n => exact .record (List.forall_mem_singleton.2 (.int _))
  | str s => exact .record (List.forall_mem_singleton.2 (.text s))
  | bool b => exact .record (List.forall_mem_singleton.2 (.bool b))

end Value

namespace Expr

theorem ofJson?_leaf {shape : String} {body : Json} (hunary : shape ≠ "Unary")
    (hbinary : shape ≠ "Binary") :
    ofJson? (.record [(shape, body)]) = leafOfJson? shape body := by
  rw [ofJson?]
  split
  · next hchoice =>
    cases hchoice
    rw [if_neg hunary, if_neg hbinary]
  · next hchoice => cases hchoice

theorem ofJson?_unary (op : UnaryOp) (e : Expr) :
    ofJson? (unary op e).toJson = (ofJson? e.toJson).map (unary op) := by
  have hnames : ["op", "operand"].Nodup := by decide
  have hfields : (Json.record [("op", op.toJson), ("operand", e.toJson)]).fields?
      ["op", "operand"] = some [op.toJson, e.toJson] := Json.fields?_record hnames
  rw [toJson, ofJson?]
  split
  · next hchoice =>
    cases hchoice
    rw [if_pos rfl]
    split
    · next hread =>
      cases hfields.symm.trans hread
      rw [UnaryOp.ofJson?_toJson]
      cases ofJson? e.toJson <;> rfl
    · next hread => exact absurd hfields (hread _ _)
  · next hchoice => cases hchoice

theorem ofJson?_binary (op : BinaryOp) (l r : Expr) :
    ofJson? (binary op l r).toJson =
      (ofJson? l.toJson).bind fun l => (ofJson? r.toJson).map (binary op l) := by
  have hnames : ["op", "left", "right"].Nodup := by decide
  have hfields : (Json.record [("op", op.toJson), ("left", l.toJson), ("right", r.toJson)]).fields?
      ["op", "left", "right"] = some [op.toJson, l.toJson, r.toJson] := Json.fields?_record hnames
  have hshape : "Binary" ≠ "Unary" := by decide
  rw [toJson, ofJson?]
  split
  · next hchoice =>
    cases hchoice
    rw [if_neg hshape, if_pos rfl]
    split
    · next hread =>
      cases hfields.symm.trans hread
      rw [BinaryOp.ofJson?_toJson]
      cases ofJson? l.toJson <;> cases ofJson? r.toJson <;> rfl
    · next hread => exact absurd hfields (hread _ _ _)
  · next hchoice => cases hchoice

theorem ofJson?_toJson (e : Expr) : ofJson? e.toJson = some e := by
  induction e with
  | var | str | bool =>
    rw [toJson, ofJson?_leaf (by decide) (by decide)]
    rfl
  | int n =>
    have hread : leafOfJson? "Int" (.int n.toInt) = (Json.int n.toInt).int64?.map int := rfl
    rw [toJson, ofJson?_leaf (by decide) (by decide), hread, Json.int64?_int, Option.map_some]
  | unary op e ih => rw [ofJson?_unary, ih, Option.map_some]
  | binary op l r ihl ihr => rw [ofJson?_binary, ihl, ihr, Option.bind_some, Option.map_some]

theorem isPlain_toJson (e : Expr) : e.toJson.IsPlain := by
  induction e with
  | var name => exact .record (List.forall_mem_singleton.2 (.text name))
  | int n => exact .record (List.forall_mem_singleton.2 (.int _))
  | str s => exact .record (List.forall_mem_singleton.2 (.text s))
  | bool b => exact .record (List.forall_mem_singleton.2 (.bool b))
  | unary op e ih =>
    have hbody : (Json.record [("op", op.toJson), ("operand", e.toJson)]).IsPlain :=
      .record (List.forall_mem_cons.2 ⟨.text _, List.forall_mem_singleton.2 ih⟩)
    exact .record (List.forall_mem_singleton.2 hbody)
  | binary op l r ihl ihr =>
    have hoperands : ∀ m ∈ [("left", l.toJson), ("right", r.toJson)], m.2.IsPlain :=
      List.forall_mem_cons.2 ⟨ihl, List.forall_mem_singleton.2 ihr⟩
    have hbody : (Json.record [("op", op.toJson), ("left", l.toJson),
        ("right", r.toJson)]).IsPlain := .record (List.forall_mem_cons.2 ⟨.text _, hoperands⟩)
    exact .record (List.forall_mem_singleton.2 hbody)

end Expr

namespace Token

def OffsetsFit (t : Token) : Prop :=
  t.blankStart < UInt64.size ∧ t.blankLength < UInt64.size

theorem ofJson?_toJson {t : Token} (h : t.OffsetsFit) : ofJson? t.toJson = some t := by
  have hnames : ["kind", "whitespace_start", "whitespace_len", "text"].Nodup := by decide
  have hfields : t.toJson.fields? ["kind", "whitespace_start", "whitespace_len", "text"] =
      some [t.kind.toJson, .int t.blankStart, .int t.blankLength, .text t.text] :=
    Json.fields?_record hnames
  have htext : (Json.text t.text).text? = some t.text := rfl
  rw [ofJson?, hfields]
  simp only [TokenKind.ofJson?_toJson, Json.offset?_int h.1, Json.offset?_int h.2, htext]
  rfl

theorem isPlain_toJson (t : Token) : t.toJson.IsPlain := by
  refine .record (List.forall_mem_cons.2 ⟨.text _, ?_⟩)
  refine List.forall_mem_cons.2 ⟨.int _, List.forall_mem_cons.2 ⟨.int _, ?_⟩⟩
  exact List.forall_mem_singleton.2 (.text _)

end Token

namespace TokenList

theorem ofJson?_toJson {ts : TokenList} (h : ∀ t ∈ ts.toList, t.OffsetsFit) :
    ofJson? ts.toJson = some ts := by
  have hfields : ts.toJson.fields? ["tokens"] = some [.arr (ts.toList.map Token.toJson)] :=
    Json.fields?_record (List.nodup_singleton _)
  have hitems : (ts.toList.map Token.toJson).mapM Token.ofJson? = some (ts.toList.map id) :=
    Json.mapM_map_eq_some fun t ht => Token.ofJson?_toJson (h t ht)
  rw [ofJson?, hfields]
  simp only [hitems, List.map_id, Option.map_some]

theorem isPlain_toJson (ts : TokenList) : ts.toJson.IsPlain := by
  have hitems : (Json.arr (ts.toList.map Token.toJson)).IsPlain := by
    refine .arr fun j hj => ?_
    obtain ⟨t, -, rfl⟩ := List.mem_map.1 hj
    exact t.isPlain_toJson
  exact .record (List.forall_mem_singleton.2 hitems)

end TokenList

namespace Codec

def RoundTrips {α : Type} (toJson : α → Json) (ofJson? : Json → Option α) (a : α) : Prop :=
  (Json.parse? (toJson a).compact).bind ofJson? = some a

theorem roundTrips_of_isPlain {α : Type} {toJson : α → Json} {ofJson? : Json → Option α} {a : α}
    (hplain : (toJson a).IsPlain) (hread : ofJson? (toJson a) = some a) :
    RoundTrips toJson ofJson? a := by
  rw [RoundTrips, hplain.parse?_compact, Option.bind_some, hread]

theorem decoding_undoes_encoding :
    (∀ op, RoundTrips UnaryOp.toJson UnaryOp.ofJson? op) ∧
      (∀ op, RoundTrips BinaryOp.toJson BinaryOp.ofJson? op) ∧
      (∀ arity, RoundTrips Arity.toJson Arity.ofJson? arity) ∧
      (∀ kind, RoundTrips TokenKind.toJson TokenKind.ofJson? kind) ∧
      (∀ v, RoundTrips Value.toJson Value.ofJson? v) ∧
      (∀ e, RoundTrips Expr.toJson Expr.ofJson? e) ∧
      (∀ t : Token, t.OffsetsFit → RoundTrips Token.toJson Token.ofJson? t) ∧
      ∀ ts : TokenList, (∀ t ∈ ts.toList, t.OffsetsFit) →
        RoundTrips TokenList.toJson TokenList.ofJson? ts := by
  refine ⟨fun op => ?_, fun op => ?_, fun arity => ?_, fun kind => ?_, fun v => ?_, fun e => ?_,
    fun t ht => ?_, fun ts hts => ?_⟩
  · exact roundTrips_of_isPlain (.text _) op.ofJson?_toJson
  · exact roundTrips_of_isPlain (.text _) op.ofJson?_toJson
  · exact roundTrips_of_isPlain (.text _) arity.ofJson?_toJson
  · exact roundTrips_of_isPlain (.text _) kind.ofJson?_toJson
  · exact roundTrips_of_isPlain v.isPlain_toJson v.ofJson?_toJson
  · exact roundTrips_of_isPlain e.isPlain_toJson e.ofJson?_toJson
  · exact roundTrips_of_isPlain t.isPlain_toJson (Token.ofJson?_toJson ht)
  · exact roundTrips_of_isPlain ts.isPlain_toJson (TokenList.ofJson?_toJson hts)

theorem decoding_undoes_encoding_escaped :
    let t : Token := ⟨.stringLiteral, 18446744073709551615, 0, "\"\\\n\x01é\""⟩
    (Token.OffsetsFit t ∧ RoundTrips Token.toJson Token.ofJson? t) ∧
      (∀ u ∈ (TokenList.mk [t]).toList, u.OffsetsFit) ∧
      RoundTrips TokenList.toJson TokenList.ofJson? ⟨[t]⟩ := by
  intro t
  have ht : t.OffsetsFit := ⟨by decide, by decide⟩
  have hts : ∀ u ∈ (TokenList.mk [t]).toList, u.OffsetsFit := List.forall_mem_singleton.2 ht
  obtain ⟨-, -, -, -, -, -, htoken, hlist⟩ := decoding_undoes_encoding
  exact ⟨⟨ht, htoken t ht⟩, hts, hlist ⟨[t]⟩ hts⟩

end Codec

end CondLang
