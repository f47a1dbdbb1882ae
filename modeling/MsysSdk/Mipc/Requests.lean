import MsysSdk.Json.Texts
import MsysSdk.Mipc.Escape
import MsysSdk.Mipc.Decoding

/-! What a sender transmits, seen from the accessors: a record is a list of named fields, and
each accessor returns its field's value, whatever stands in the other fields. -/

namespace Msys.Mipc
open Libc Json

/-! ### Trimming -/

theorem number_no_space {n : Number} {b : UInt8} (h : b ∈ n.text dialect) : isspace b = false := by
  have digits : ∀ {d : Digits}, b ∈ d.text dialect → isspace b = false := fun hd =>
    (ne_of_number_head (.inr (Digits.mem_text hd))).2.2.2.2.2.2.2.2
  simp only [Number.text, List.mem_append] at h
  rcases h with h | h | h | h
  · cases hneg : n.negative with
    | true =>
      rw [hneg, signText, if_pos rfl, List.mem_singleton] at h
      subst h
      decide
    | false => simp [hneg, signText] at h
  · exact digits h
  · cases hfrac : n.frac with
    | none => simp [hfrac, fracText] at h
    | some d =>
      rw [hfrac, fracText, List.mem_cons] at h
      rcases h with rfl | h
      · decide
      · exact digits h
  · cases hexp : n.exp with
    | none => simp [hexp, expText] at h
    | some e =>
      rw [hexp, expText, List.mem_cons, List.mem_append] at h
      rcases h with rfl | h | h
      · cases e.upper <;> decide
      · cases hsign : e.sign with
        | none => simp [hsign, expSignText] at h
        | some s =>
          cases s <;> rw [hsign, expSignText, List.mem_singleton] at h <;> subst h <;> decide
      · exact digits h

/-- The text of a JSON value ends in no white space. -/
theorem value_last {limit d : Nat} {v : Bytes} (h : Value dialect limit d v) :
    ∃ t b, v = t ++ [b] ∧ isspace b = false := by
  cases h with
  | string body =>
    exact ⟨chr '"' :: bodyText dialect body, chr '"', by simp [quoted], by decide⟩
  | number n =>
    have hne : n.text dialect ≠ [] := by
      obtain ⟨b, t, ht, -⟩ := number_head n
      simp [ht]
    exact ⟨(n.text dialect).dropLast, (n.text dialect).getLast hne,
      (List.dropLast_append_getLast hne).symm, number_no_space (List.getLast_mem hne)⟩
  | word hw =>
    simp only [dialect, List.mem_cons, List.not_mem_nil, or_false] at hw
    rcases hw with rfl | rfl | rfl
    · exact ⟨text "tru", chr 'e', rfl, by decide⟩
    · exact ⟨text "fals", chr 'e', rfl, by decide⟩
    · exact ⟨text "nul", chr 'l', rfl, by decide⟩
  | emptyArray ws => exact ⟨chr '[' :: ws, chr ']', rfl, by decide⟩
  | array items => exact ⟨_ :: _, chr ']', rfl, by decide⟩
  | emptyObject ws => exact ⟨chr '{' :: ws, chr '}', rfl, by decide⟩
  | object members => exact ⟨_ :: _, chr '}', rfl, by decide⟩

theorem trimSpace_value {limit d : Nat} {v ws₁ ws₂ : Bytes} (h : Value dialect limit d v)
    (h₁ : Spaces dialect ws₁) (h₂ : Spaces dialect ws₂) : trimSpace (ws₁ ++ (v ++ ws₂)) = v := by
  obtain ⟨b, t, hbt, hb, -⟩ := value_head h
  obtain ⟨u, c, huc, hc⟩ := value_last h
  have hhead : skipSpace (v ++ ws₂) = v ++ ws₂ := by
    rw [hbt]
    exact skipSpace_cons hb _
  have htail : (v ++ ws₂).rdropWhile isspace = v.rdropWhile isspace := by
    rw [List.rdropWhile, List.reverse_append, List.dropWhile_append_of_pos, List.rdropWhile]
    exact fun x hx => h₂ x (List.mem_reverse.mp hx)
  rw [trimSpace, skipSpace_append h₁, hhead, htail, huc,
    List.rdropWhile_concat_neg _ _ _ (by simp [hc])]

/-! ### Records -/

inductive FieldValue
  | string (s : Bytes)
  | integer (n : UInt64)
  /-- JSON text taken over as it is. -/
  | raw (json : Bytes)

structure Field where
  key : String
  value : FieldValue

def FieldValue.text : FieldValue → Bytes
  | .string s => chr '"' :: (writeEscaped s ++ [chr '"'])
  | .integer n => decimal n
  | .raw json => json

/-- The text is a JSON value between white space, within the depth limit of a field. -/
def ValueText (json : Bytes) : Prop :=
  ∃ rest, skipJsonValue json 1 = some rest ∧ ∀ b ∈ rest, isspace b = true

def FieldValue.Valid : FieldValue → Prop
  | .string s => s.length ≤ maxPacket
  | .integer _ => True
  | .raw json => ValueText json

def Field.text (f : Field) : Bytes :=
  chr '"' :: (Libc.text f.key ++ chr '"' :: chr ':' :: f.value.text)

def recordText (fields : List Field) : Bytes :=
  chr '{' :: (commaJoin dialect (fields.map Field.text) ++ [chr '}'])

/-- The key is spelled as it is. -/
def Field.Plain (f : Field) : Prop := ∀ b ∈ Libc.text f.key, dialect.plain b = true

/-- What the accessors return for the field. -/
def Field.ReadFrom (record : Bytes) (f : Field) : Prop :=
  match f.value with
  | .string s => ∀ (m : Buffer) (capacity : Nat), s.length < capacity →
    (jsonGetString record (Libc.text f.key) m capacity).result = .ok ∧
    Buffer.holds (jsonGetString record (Libc.text f.key) m capacity).buffer s ∧
    (jsonGetString record (Libc.text f.key) m capacity).length = s.length
  | .integer n => jsonGetU64 record (Libc.text f.key) = (.ok, n.toNat)
  | .raw json => jsonGetRaw record (Libc.text f.key) = .ok (trimSpace json)

/-! ### The fields as members of an object -/

def integerDigits (n : UInt64) : Digits where
  chars := Nat.toDigits 10 n.toNat
  nonempty := Nat.toDigits_ne_nil
  digits c hc := Nat.isDigit_of_mem_toDigits (by decide) (by decide) hc

def integerNumber (n : UInt64) : Number where
  negative := false
  int := integerDigits n
  noLeadingZero := toDigits_zero_head n.toNat
  frac := none
  exp := none

theorem integerNumber_text (n : UInt64) : (integerNumber n).text dialect = decimal n := by
  simp [integerNumber, Number.text, signText, fracText, expText, Digits.text, integerDigits,
    decimal, dialect]

theorem string_value (s : Bytes) :
    Value dialect jsonMaxDepth 1 (FieldValue.string s).text := by
  have hquoted : (FieldValue.string s).text = quoted dialect (s.map pieceOf) := by
    simp [FieldValue.text, quoted, bodyText_pieceOf]
  rw [hquoted]
  refine .string _ (by decide) fun p hp => ?_
  obtain ⟨b, -, rfl⟩ := List.mem_map.mp hp
  exact pieceOf_valid b

theorem integer_value (n : UInt64) :
    Value dialect jsonMaxDepth 1 (FieldValue.integer n).text := by
  have hnumber : (FieldValue.integer n).text = (integerNumber n).text dialect :=
    (integerNumber_text n).symm
  rw [hnumber]
  exact .number _ (by decide)

theorem FieldValue.Valid.split {value : FieldValue} (h : value.Valid) :
    ∃ ws₁ v ws₂, value.text = ws₁ ++ (v ++ ws₂) ∧ Spaces dialect ws₁ ∧ Spaces dialect ws₂ ∧
      Value dialect jsonMaxDepth 1 v := by
  have hnil : Spaces dialect [] := by simp [Spaces]
  cases value with
  | string s => exact ⟨[], _, [], by simp, hnil, hnil, string_value s⟩
  | integer n => exact ⟨[], _, [], by simp, hnil, hnil, integer_value n⟩
  | raw json =>
    obtain ⟨rest, hskip, hrest⟩ := h
    obtain ⟨ws, v, hws, hjson, hv, -⟩ := skipJsonValue_iff.mp hskip
    exact ⟨ws, v, rest, hjson, hws, hrest, hv⟩

/-- The member that the field is in the record's text. -/
structure Field.Member (f : Field) (m : Json.Member UInt8) : Prop where
  text : m.text dialect = f.text
  name : m.name = (Libc.text f.key).map .plain
  spaced : m.Spaced dialect
  value : Value dialect jsonMaxDepth 1 m.value
  trimmed : m.value = trimSpace f.value.text

theorem exists_member {f : Field} (h : f.value.Valid) : ∃ m, f.Member m := by
  obtain ⟨ws₁, v, ws₂, htext, h₁, h₂, hv⟩ := h.split
  refine ⟨⟨[], (Libc.text f.key).map .plain, [], ws₁, v, ws₂⟩, ?_, rfl, ?_, hv, ?_⟩
  · simp [Json.Member.text, Field.text, quoted, bodyText_plain, htext]
  · exact ⟨by simp [Spaces], by simp [Spaces], h₁, h₂⟩
  · rw [htext, trimSpace_value hv h₁ h₂]

theorem Field.Member.valid {f : Field} {m : Json.Member UInt8} (h : f.Member m) (hf : f.Plain) :
    ∀ p ∈ m.name, p.Valid dialect := by
  rw [h.name]
  intro p hp
  obtain ⟨b, hb, rfl⟩ := List.mem_map.mp hp
  exact hf b hb

theorem Field.Member.named_iff {f : Field} {m : Json.Member UInt8} (h : f.Member m)
    (hf : f.Plain) (key : Bytes) : named key m = true ↔ Libc.text f.key = key := by
  exact named_plain h.name (h.valid hf) key

theorem find?_eq_of_unique {α : Type} {p : α → Bool} {l : List α} {a : α} (ha : a ∈ l)
    (hp : p a = true) (huniq : ∀ b ∈ l, p b = true → b = a) : l.find? p = some a := by
  obtain ⟨b, hb⟩ := Option.isSome_iff_exists.mp (List.find?_isSome.mpr ⟨a, ha, hp⟩)
  rw [hb, huniq b (List.mem_of_find?_eq_some hb) (List.find?_some hb)]

/-- The fields of a record are found, each under its own key. -/
theorem findTopLevelValue_record {fields : List Field} (hne : fields ≠ [])
    (hvalid : ∀ f ∈ fields, f.value.Valid) (hplain : ∀ f ∈ fields, f.Plain)
    (hkeys : (fields.map fun f => Libc.text f.key).Nodup) {f : Field} (hf : f ∈ fields)
    (hkey : Libc.text f.key ≠ []) :
    ∃ tail, findTopLevelValue (recordText fields) (Libc.text f.key) =
      .ok (trimSpace f.value.text ++ tail, tail) := by
  have hex : ∀ g ∈ fields, ∃ m, g.Member m := fun g hg => exists_member (hvalid g hg)
  have : Nonempty (Json.Member UInt8) := (hex f hf).nonempty
  choose! member hmember using hex
  have htext : recordText fields = [] ++ dialect.ch '{' :: (commaJoin dialect
      ((fields.map member).map (Json.Member.text dialect)) ++ dialect.ch '}' :: []) := by
    have htexts : (fields.map member).map (Json.Member.text dialect) = fields.map Field.text := by
      rw [List.map_map]
      exact List.map_congr_left fun g hg => (hmember g hg).text
    rw [htexts]
    rfl
  have hobject : Object dialect jsonMaxDepth (fields.map member) (recordText fields) := by
    rw [htext]
    refine .members [] [] (fields.map member) (by simpa using hne) (by simp [Spaces])
      (by simp [Spaces]) ?_ ?_ ?_
    · simpa using fun g hg => (hmember g hg).spaced
    · simpa using fun g hg => (hmember g hg).valid (hplain g hg)
    · simpa using fun g hg => (hmember g hg).value
  have hfind : (fields.map member).find? (named (Libc.text f.key)) = some (member f) := by
    refine find?_eq_of_unique (List.mem_map_of_mem hf)
      (((hmember f hf).named_iff (hplain f hf) _).mpr rfl) fun m hm hnamed => ?_
    obtain ⟨g, hg, rfl⟩ := List.mem_map.mp hm
    have hsame := ((hmember g hg).named_iff (hplain g hg) _).mp hnamed
    rw [List.inj_on_of_nodup_map hkeys hg hf hsame]
  have hlookup := findTopLevelValue_object hobject hkey
  rw [hfind] at hlookup
  rw [← (hmember f hf).trimmed]
  exact hlookup

/-! ### What the accessors return -/

theorem trimSpace_self {v : Bytes} (h : Value dialect jsonMaxDepth 1 v) : trimSpace v = v := by
  have hnil : Spaces dialect [] := by simp [Spaces]
  simpa using trimSpace_value h hnil hnil

/-- Every field of a record is read back from its text. -/
theorem readFrom_record {fields : List Field} (hvalid : ∀ f ∈ fields, f.value.Valid)
    (hplain : ∀ f ∈ fields, f.Plain) (hkeys : (fields.map fun f => Libc.text f.key).Nodup)
    (hempty : ∀ f ∈ fields, Libc.text f.key ≠ []) {f : Field} (hf : f ∈ fields) :
    f.ReadFrom (recordText fields) := by
  obtain ⟨tail, hfind⟩ := findTopLevelValue_record (List.ne_nil_of_mem hf) hvalid hplain hkeys hf
    (hempty f hf)
  have hf := hvalid f hf
  obtain ⟨key, value⟩ := f
  cases value with
  | string s =>
    have hsize : s.length ≤ sizeMax := le_trans hf (by decide)
    have hrounds : Rounds (writeEscaped s) (s.map .byte) :=
      rounds_flatMap fun b _ => chunk_escapeByte b
    intro m capacity hcap
    rw [trimSpace_self (string_value s)] at hfind
    exact jsonGetString_whole hrounds hfind m hsize hcap
  | integer n =>
    rw [trimSpace_self (integer_value n)] at hfind
    have hn : n.toNat ≤ uint64Max := Nat.le_sub_one_of_lt n.toNat_lt
    have hread := jsonGetU64_digits (integerDigits n) hfind
    have hvalue : Nat.ofDigitChars 10 (integerDigits n).chars 0 = n.toNat :=
      Nat.ofDigitChars_ten_toDigits
    rwa [hvalue, if_pos hn] at hread
  | raw json =>
    show jsonGetRaw (recordText fields) (Libc.text key) = .ok (trimSpace json)
    rw [jsonGetRaw, hfind]
    exact congrArg Except.ok (between_append _ _)

end Msys.Mipc
