import MsysSdk.Mipc.Requests
import MsysSdk.Mipc.Transfer
import MsysSdk.Python.JsonRoundTrip

/-! The text that `json.dumps` writes, as the bytes that the C senders write: a string is escaped
alike, an integer has the same digits, and a dict is a record of fields. -/

namespace Msys.Wire
open Python Libc Json

/-! ### Strings -/

theorem utf8_flatMap (f : CodePoint → Str) (s : Str) :
    utf8 (s.flatMap f) = s.flatMap fun c => utf8 (f c) := by
  induction s with
  | nil => rfl
  | cons c s ih => rw [List.flatMap_cons, utf8_append, ih, List.flatMap_cons]

theorem escapeByte_high {b : UInt8} (h : 0x80 ≤ b.toNat) : Mipc.escapeByte b = [b] := by
  have key : ∀ n < 0x80, Mipc.escapeByte (.ofNat (0x80 + n)) = [.ofNat (0x80 + n)] := by
    decide +kernel
  have hb := key (b.toNat - 0x80) (by have := b.toNat_lt; omega)
  rwa [Nat.add_sub_cancel' h, UInt8.ofNat_toNat] at hb

/-- The two escapers agree on every character. -/
theorem utf8_escapeChar (c : CodePoint) :
    utf8 (escapeChar c) = Mipc.writeEscaped ((encodeChar c).getD []) := by
  by_cases hlow : c.val < 0x80
  · have key : ∀ n < 0x80, utf8 (escapeChar (.ofNat n)) =
        Mipc.writeEscaped ((encodeChar (.ofNat n)).getD []) := by decide +kernel
    have hc := key c.val hlow
    rwa [ofNat_eq rfl] at hc
  · have hself : escapeChar c = [c] := by
      have hne : ∀ x : CodePoint, x.val < 0x80 → c ≠ x := by
        rintro x hx rfl
        exact hlow hx
      have hcontrol : ¬c.val < 32 := by omega
      rw [escapeChar, if_neg (hne _ (by decide)), if_neg (hne _ (by decide)),
        if_neg (hne _ (by decide)), if_neg (hne _ (by decide)), if_neg (hne _ (by decide)),
        if_neg (hne _ (by decide)), if_neg (hne _ (by decide)), if_neg hcontrol]
    rw [hself, utf8_cons, utf8_nil, List.append_nil]
    cases hform : encodeChar c with
    | none => rfl
    | some form =>
      have hhigh : ∀ b ∈ form, Mipc.escapeByte b = [b] := fun b hb =>
        escapeByte_high (encodeChar_high (Nat.le_of_not_lt hlow) hform b hb)
      rw [Option.getD_some, Mipc.writeEscaped, List.flatMap_congr hhigh]
      exact (List.flatMap_singleton' form).symm

theorem utf8_quoted (s : Str) :
    utf8 (Python.quoted s) = chr '"' :: (Mipc.writeEscaped (utf8 s) ++ [chr '"']) := by
  have hbody : utf8 (s.flatMap escapeChar) = Mipc.writeEscaped (utf8 s) := by
    rw [utf8_flatMap, Mipc.writeEscaped, utf8, List.flatMap_assoc]
    exact List.flatMap_congr fun c _ => utf8_escapeChar c
  rw [Python.quoted, List.cons_append, utf8_cons_ch (by decide), utf8_append, hbody,
    utf8_ch (by decide)]

/-- A name that is written as it is. -/
theorem utf8_quoted_key {key : String} (hascii : ∀ c ∈ key.toList, c.toNat < 0x80)
    (hplain : ∀ b ∈ Libc.text key, Mipc.escapeByte b = [b]) :
    utf8 (Python.quoted (str key)) = chr '"' :: (Libc.text key ++ [chr '"']) := by
  rw [utf8_quoted, utf8_str hascii, Mipc.writeEscaped, List.flatMap_congr hplain,
    List.flatMap_singleton']

/-! ### Integers -/

/-- The integers that the C SDK has for ids, generations and deadlines. -/
def InRange (i : Int) : Prop := 0 ≤ i ∧ i < 2 ^ 64

instance (i : Int) : Decidable (InRange i) := inferInstanceAs (Decidable (_ ∧ _))

def toU64 (i : Int) : UInt64 := .ofNat i.toNat

theorem toNat_toU64 {i : Int} (h : InRange i) : (toU64 i).toNat = i.toNat := by
  obtain ⟨hlo, hhi⟩ := h
  rw [toU64, UInt64.toNat_ofNat', Nat.mod_eq_of_lt]
  omega

theorem utf8_intRepr {i : Int} (h : InRange i) {s : Str} (hs : intRepr i = .ok s) :
    utf8 s = Mipc.decimal (toU64 i) := by
  have habs : i.natAbs = (toU64 i).toNat := by
    rw [toNat_toU64 h]
    have := h.1
    omega
  rw [intRepr] at hs
  split_ifs at hs with hlong hneg
  · exact absurd h.1 (not_le.mpr hneg)
  · rw [← Except.ok.inj hs, natRepr, utf8_map_ch, Mipc.decimal, habs]
    intro c hc
    exact ascii_of_isDigit (Nat.isDigit_of_mem_toDigits (by decide) (by decide) hc)

/-! ### Dicts -/

/-- The entry is written as the field is. -/
structure WrittenAs (allowNan : Bool) (depth : Nat) (e : Value × Value) (f : Mipc.Field) :
    Prop where
  key : e.1 = .str (str f.key)
  ascii : ∀ c ∈ f.key.toList, c.toNat < 0x80
  plain : ∀ b ∈ Libc.text f.key, Mipc.escapeByte b = [b]
  value : ∀ t, dumpValue allowNan depth e.2 = .ok t → utf8 t = f.value.text

theorem WrittenAs.entry {allowNan : Bool} {depth : Nat} {e : Value × Value} {f : Mipc.Field}
    (h : WrittenAs allowNan depth e f) {a b : Str} (ha : keyText allowNan e.1 = .ok a)
    (hb : dumpValue allowNan depth e.2 = .ok b) :
    utf8 (Python.quoted a ++ ch ':' :: b) = f.text := by
  rw [h.key] at ha
  obtain rfl := Except.ok.inj ha
  rw [utf8_append, utf8_quoted_key h.ascii h.plain, utf8_cons_ch (by decide), h.value b hb,
    Mipc.Field.text]
  simp

theorem utf8_dumpEntries {allowNan : Bool} {depth : Nat} {d : Dict} {fields : List Mipc.Field}
    (h : List.Forall₂ (WrittenAs allowNan depth) d fields) {s : Str}
    (hs : dumpEntries allowNan depth d = .ok s) :
    utf8 s = commaJoin Mipc.dialect (fields.map Mipc.Field.text) := by
  induction h generalizing s with
  | nil =>
    rw [dumpEntries] at hs
    rw [← Except.ok.inj hs]
    rfl
  | @cons e f d fields hef hrest ih =>
    obtain ⟨k, v⟩ := e
    cases hrest with
    | nil =>
      rw [dumpEntries] at hs
      obtain ⟨a, ha, hs⟩ := bind_ok hs
      obtain ⟨b, hb, hs⟩ := bind_ok hs
      rw [← Except.ok.inj hs, hef.entry ha hb]
      rfl
    | @cons e' f' d fields hef' hrest =>
      rw [dumpEntries] at hs
      obtain ⟨a, ha, hs⟩ := bind_ok hs
      obtain ⟨b, hb, hs⟩ := bind_ok hs
      obtain ⟨t, ht, hs⟩ := bind_ok hs
      rw [← Except.ok.inj hs, utf8_append, hef.entry ha hb, utf8_cons_ch (by decide), ih ht]
      rfl

/-- What `json.dumps` makes of a dict is the text of the record. -/
theorem utf8_record {allowNan : Bool} {depth : Nat} {d : Dict} {fields : List Mipc.Field}
    (h : List.Forall₂ (WrittenAs allowNan depth) d fields) {s : Str}
    (hs : dumpValue allowNan (depth + 1) (.dict d) = .ok s) :
    utf8 s = Mipc.recordText fields := by
  rw [dumpValue] at hs
  obtain ⟨body, hbody, hs⟩ := bind_ok hs
  rw [← Except.ok.inj hs, List.cons_append, utf8_cons_ch (by decide), utf8_append,
    utf8_dumpEntries h hbody, utf8_ch (by decide)]
  rfl

end Msys.Wire
