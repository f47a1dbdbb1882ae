import MsysSdk.Wire.Messages

/-! What the C accessors read from a packet of the Python SDK. Here a string may need any escapes,
and a payload may hold any JSON value that the C scanner is deep enough for. -/

namespace Msys.Wire
open Python

/-! ### Values as texts of the grammar -/

mutual
/-- How many levels of values lie below a value. -/
def nesting : Value → Nat
  | .list xs => nestingItems xs
  | .dict d => nestingEntries d
  | _ => 0

def nestingItems : List Value → Nat
  | [] => 0
  | x :: xs => max (nesting x + 1) (nestingItems xs)

def nestingEntries : List (Value × Value) → Nat
  | [] => 0
  | (_, v) :: d => max (nesting v + 1) (nestingEntries d)
end

section
variable {py : Interpreter} {allowNan : Bool} {limit : Nat}

theorem value_quoted {d : Nat} (hd : d ≤ limit) (s : Str) :
    Json.Value Mipc.dialect limit d (utf8 (Python.quoted s)) := by
  have hquoted : utf8 (Python.quoted s) = Json.quoted Mipc.dialect ((utf8 s).map Mipc.pieceOf) := by
    rw [utf8_quoted, Json.quoted, Mipc.bodyText_pieceOf]
    rfl
  rw [hquoted]
  refine .string _ hd fun p hp => ?_
  obtain ⟨b, -, rfl⟩ := List.mem_map.mp hp
  exact Mipc.pieceOf_valid b

theorem value_number {d : Nat} (hd : d ≤ limit) (n : Json.Number) :
    Json.Value Mipc.dialect limit d (utf8 (n.text Python.dialect)) := by
  rw [Mipc.utf8_number]
  exact .number n hd

/-- The text of a value that is no container. -/
theorem value_word {d : Nat} (hd : d ≤ limit) {w : String}
    (hw : Libc.text w ∈ Mipc.dialect.words) (hascii : ∀ c ∈ w.toList, c.toNat < 0x80) :
    Json.Value Mipc.dialect limit d (utf8 (str w)) := by
  rw [utf8_str hascii]
  exact .word hw hd

/-- The item that stands without white space. -/
def bareItem (s : Str) : Json.Item UInt8 := ⟨[], utf8 s, []⟩

theorem bareItem_text (s : Str) : (bareItem s).text = utf8 s := by simp [bareItem, Json.Item.text]

theorem bareItem_spaced (s : Str) : (bareItem s).Spaced Mipc.dialect :=
  ⟨Json.Spaces.nil, Json.Spaces.nil⟩

def bareMember (k s : Str) : Json.Member UInt8 where
  before := []
  name := (utf8 k).map Mipc.pieceOf
  afterName := []
  beforeValue := []
  value := utf8 s
  after := []

theorem bareMember_text (k s : Str) :
    (bareMember k s).text Mipc.dialect = utf8 (Python.quoted k ++ ch ':' :: s) := by
  rw [utf8_append, utf8_quoted, utf8_cons_ch (by decide)]
  simp [bareMember, Json.Member.text, Json.quoted, Mipc.bodyText_pieceOf]

theorem bareMember_valid (k s : Str) : (bareMember k s).Spaced Mipc.dialect ∧
    ∀ p ∈ (bareMember k s).name, p.Valid Mipc.dialect := by
  refine ⟨⟨Json.Spaces.nil, Json.Spaces.nil, Json.Spaces.nil, Json.Spaces.nil⟩, fun p hp => ?_⟩
  obtain ⟨b, -, rfl⟩ := List.mem_map.mp hp
  exact Mipc.pieceOf_valid b

/-- What stands between the brackets or the braces. -/
def JoinedItems (limit d : Nat) (s : Str) : Prop :=
  ∃ items : List (Json.Item UInt8), items ≠ [] ∧ (∀ i ∈ items, i.Spaced Mipc.dialect) ∧
    (∀ i ∈ items, Json.Value Mipc.dialect limit (d + 1) i.value) ∧
    utf8 s = Json.commaJoin Mipc.dialect (items.map Json.Item.text)

def JoinedMembers (limit d : Nat) (s : Str) : Prop :=
  ∃ members : List (Json.Member UInt8), members ≠ [] ∧
    (∀ m ∈ members, m.Spaced Mipc.dialect ∧ ∀ p ∈ m.name, p.Valid Mipc.dialect) ∧
    (∀ m ∈ members, Json.Value Mipc.dialect limit (d + 1) m.value) ∧
    utf8 s = Json.commaJoin Mipc.dialect (members.map (Json.Member.text Mipc.dialect))

theorem JoinedItems.one {d : Nat} {s : Str}
    (h : Json.Value Mipc.dialect limit (d + 1) (utf8 s)) : JoinedItems limit d s :=
  ⟨[bareItem s], by simp, by simpa using bareItem_spaced s, List.forall_mem_singleton.mpr h,
    (bareItem_text s).symm⟩

theorem JoinedItems.cons {d : Nat} {s t : Str}
    (h : Json.Value Mipc.dialect limit (d + 1) (utf8 s)) (ht : JoinedItems limit d t) :
    JoinedItems limit d (s ++ ch ',' :: t) := by
  obtain ⟨items, hne, hspaced, hvalues, hjoin⟩ := ht
  refine ⟨bareItem s :: items, by simp, List.forall_mem_cons.mpr ⟨bareItem_spaced s, hspaced⟩,
    List.forall_mem_cons.mpr ⟨h, hvalues⟩, ?_⟩
  rw [List.map_cons, Json.commaJoin_cons _ (by simpa using hne), bareItem_text, ← hjoin,
    utf8_append, utf8_cons_ch (by decide)]
  rfl

theorem JoinedMembers.one {d : Nat} {k s : Str}
    (h : Json.Value Mipc.dialect limit (d + 1) (utf8 s)) :
    JoinedMembers limit d (Python.quoted k ++ ch ':' :: s) :=
  ⟨[bareMember k s], by simp, by simpa using bareMember_valid k s,
    List.forall_mem_singleton.mpr h,
    (bareMember_text k s).symm⟩

theorem JoinedMembers.cons {d : Nat} {k s t : Str}
    (h : Json.Value Mipc.dialect limit (d + 1) (utf8 s)) (ht : JoinedMembers limit d t) :
    JoinedMembers limit d (Python.quoted k ++ ch ':' :: s ++ ch ',' :: t) := by
  obtain ⟨members, hne, hvalid, hvalues, hjoin⟩ := ht
  refine ⟨bareMember k s :: members, by simp,
    List.forall_mem_cons.mpr ⟨bareMember_valid k s, hvalid⟩,
    List.forall_mem_cons.mpr ⟨h, hvalues⟩, ?_⟩
  rw [List.map_cons, Json.commaJoin_cons _ (by simpa using hne), bareMember_text, ← hjoin,
    utf8_append, utf8_append, utf8_cons_ch (by decide)]
  rfl

theorem JoinedItems.bracketed {d : Nat} {s : Str} (h : JoinedItems limit d s) (hd : d ≤ limit) :
    Json.Value Mipc.dialect limit d (utf8 (ch '[' :: s ++ [ch ']'])) := by
  obtain ⟨items, hne, hspaced, hvalues, hjoin⟩ := h
  rw [List.cons_append, utf8_cons_ch (by decide), utf8_append, hjoin, utf8_ch (by decide)]
  exact .array items hne hd hspaced hvalues

theorem JoinedMembers.braced {d : Nat} {s : Str} (h : JoinedMembers limit d s) (hd : d ≤ limit) :
    Json.Value Mipc.dialect limit d (utf8 (ch '{' :: s ++ [ch '}'])) := by
  obtain ⟨members, hne, hvalid, hvalues, hjoin⟩ := h
  rw [List.cons_append, utf8_cons_ch (by decide), utf8_append, hjoin, utf8_ch (by decide)]
  exact .object members hne hd (fun m hm => (hvalid m hm).1) (fun m hm => (hvalid m hm).2) hvalues

def isScalar : Value → Bool
  | .none | .bool _ | .int _ | .float _ | .str _ => true
  | _ => false

/-- The encoder writes a value that is no container as a text of the grammar. -/
theorem scalar_dumped {depth d : Nat} {v : Value} {s : Str} (h : dumpValue allowNan depth v = .ok s)
    (hv : v.IsJson py) (hfinite : v.finite = true) (hscalar : isScalar v = true) (hd : d ≤ limit) :
    Json.Value Mipc.dialect limit d (utf8 s) := by
  unfold dumpValue at h
  cases v with
  | none =>
    rw [← Except.ok.inj h]
    exact value_word hd (by decide +kernel) (ascii_of_all rfl)
  | bool b =>
    rw [← Except.ok.inj h]
    cases b with
    | false => exact value_word hd (by decide +kernel) (ascii_of_all rfl)
    | true => exact value_word hd (by decide +kernel) (ascii_of_all rfl)
  | int i =>
    obtain ⟨n, rfl, -⟩ := intRepr_number py h
    exact value_number hd n
  | float f =>
    cases f with
    | finite r =>
      unfold floatRepr at h
      unfold Value.IsJson at hv
      obtain ⟨⟨n, hn, -⟩, -⟩ := hv
      rw [← Except.ok.inj h, hn]
      exact value_number hd n
    | nan => cases hfinite
    | infinity _ => cases hfinite
  | str t =>
    rw [← Except.ok.inj h]
    exact value_quoted hd t
  | _ => cases hscalar

mutual
/-- The encoder writes texts of the grammar, as deep as the value is nested. -/
theorem value_dumped : ∀ {depth d : Nat} {v : Value} {s : Str}, dumpValue allowNan depth v = .ok s →
    v.IsJson py → v.finite = true → d + nesting v ≤ limit →
    Json.Value Mipc.dialect limit d (utf8 s)
  | _, _, .none, _, h, hv, hfinite, hd => scalar_dumped h hv hfinite rfl hd
  | _, _, .bool _, _, h, hv, hfinite, hd => scalar_dumped h hv hfinite rfl hd
  | _, _, .int _, _, h, hv, hfinite, hd => scalar_dumped h hv hfinite rfl hd
  | _, _, .float _, _, h, hv, hfinite, hd => scalar_dumped h hv hfinite rfl hd
  | _, _, .str _, _, h, hv, hfinite, hd => scalar_dumped h hv hfinite rfl hd
  | 0, _, .list _, _, h, _, _, _ | 0, _, .dict _, _, h, _, _, _ => by
    unfold dumpValue at h
    cases h
  | depth + 1, d, .list [], s, h, _, _, hd => by
    unfold dumpValue at h
    obtain ⟨body, hbody, h⟩ := bind_ok h
    unfold dumpItems at hbody
    rw [← Except.ok.inj h, ← Except.ok.inj hbody]
    exact .emptyArray [] (Nat.le_of_add_right_le hd) Json.Spaces.nil
  | depth + 1, d, .list (x :: xs), s, h, hv, hfinite, hd => by
    unfold dumpValue at h
    unfold Value.IsJson at hv
    unfold Value.finite at hfinite
    unfold nesting at hd
    obtain ⟨body, hbody, h⟩ := bind_ok h
    rw [← Except.ok.inj h]
    exact (items_dumped hbody hv hfinite hd).bracketed (Nat.le_of_add_right_le hd)
  | depth + 1, d, .dict [], s, h, _, _, hd => by
    unfold dumpValue at h
    obtain ⟨body, hbody, h⟩ := bind_ok h
    unfold dumpEntries at hbody
    rw [← Except.ok.inj h, ← Except.ok.inj hbody]
    exact .emptyObject [] (Nat.le_of_add_right_le hd) Json.Spaces.nil
  | depth + 1, d, .dict (e :: es), s, h, hv, hfinite, hd => by
    unfold dumpValue at h
    unfold Value.IsJson at hv
    unfold Value.finite at hfinite
    unfold nesting at hd
    obtain ⟨body, hbody, h⟩ := bind_ok h
    rw [← Except.ok.inj h]
    exact (entries_dumped hbody hv.2 hfinite hd).braced (Nat.le_of_add_right_le hd)
termination_by _ _ v => sizeOf v

theorem items_dumped : ∀ {depth d : Nat} {x : Value} {xs : List Value} {s : Str},
    dumpItems allowNan depth (x :: xs) = .ok s → ItemsJson py (x :: xs) →
    finiteItems (x :: xs) = true → d + nestingItems (x :: xs) ≤ limit → JoinedItems limit d s
  | depth, d, x, [], s, h, hv, hfinite, hd => by
    unfold dumpItems at h
    rw [finiteItems, Bool.and_eq_true] at hfinite
    rw [nestingItems] at hd
    exact .one (value_dumped h hv.1 hfinite.1 (by omega))
  | depth, d, x, y :: ys, s, h, hv, hfinite, hd => by
    unfold dumpItems at h
    rw [finiteItems, Bool.and_eq_true] at hfinite
    rw [nestingItems] at hd
    obtain ⟨a, ha, h⟩ := bind_ok h
    obtain ⟨b, hb, h⟩ := bind_ok h
    rw [← Except.ok.inj h]
    exact .cons (value_dumped ha hv.1 hfinite.1 (by omega))
      (items_dumped hb hv.2 hfinite.2 (by omega))
termination_by _ _ x xs => sizeOf (x :: xs)

theorem entries_dumped : ∀ {depth d : Nat} {e : Value × Value} {es : Dict} {s : Str},
    dumpEntries allowNan depth (e :: es) = .ok s → EntriesJson py (e :: es) →
    finiteEntries (e :: es) = true → d + nestingEntries (e :: es) ≤ limit → JoinedMembers limit d s
  | depth, d, (k, v), [], s, h, hv, hfinite, hd => by
    unfold dumpEntries at h
    obtain ⟨⟨t, rfl⟩, hv, -⟩ := hv
    rw [finiteEntries, Bool.and_eq_true] at hfinite
    rw [nestingEntries] at hd
    obtain ⟨a, ha, h⟩ := bind_ok h
    obtain ⟨b, hb, h⟩ := bind_ok h
    rw [← Except.ok.inj h]
    exact .one (value_dumped hb hv hfinite.1 (by omega))
  | depth, d, (k, v), e :: es, s, h, hv, hfinite, hd => by
    unfold dumpEntries at h
    obtain ⟨⟨t, rfl⟩, hv, hes⟩ := hv
    rw [finiteEntries, Bool.and_eq_true] at hfinite
    rw [nestingEntries] at hd
    obtain ⟨a, ha, h⟩ := bind_ok h
    obtain ⟨b, hb, h⟩ := bind_ok h
    obtain ⟨c, hc, h⟩ := bind_ok h
    rw [← Except.ok.inj h]
    exact .cons (value_dumped hb hv hfinite.1 (by omega)) (entries_dumped hc hes hfinite.2 (by omega))
termination_by _ _ e es => sizeOf (e :: es)
end

end

/-! ### The fields of a packet -/

def Message.payload : Message → Option Dict
  | .hello _ _ | .ready | .subscribe _ | .failure _ _ => none
  | .event _ payload => some (payload.getD [])
  | .call _ args _ => some (args.payload.getD [])
  | .reply _ payload => some payload

/-- JSON without the constants, that the scanner of a field goes down to the bottom of. -/
structure Scannable (py : Interpreter) (payload : Dict) : Prop where
  json : (Value.dict payload).IsJson py
  finite : (Value.dict payload).finite = true
  nested : 1 + nesting (.dict payload) ≤ Mipc.jsonMaxDepth

theorem Scannable.valueText {py : Interpreter} {allowNan : Bool} {payload : Dict}
    (h : Scannable py payload) {t : Str}
    (ht : dumpValue allowNan (py.recursionLimit - 1) (.dict payload) = .ok t) :
    Mipc.ValueText (compact py allowNan payload) := by
  have hbytes : compact py allowNan payload = utf8 t := by rw [compact, ht]
  have hvalue := value_dumped ht h.json h.finite h.nested
  rw [hbytes]
  refine ⟨[], Mipc.skipJsonValue_iff.mpr ⟨[], utf8 t, Json.Spaces.nil, by simp, hvalue, ?_⟩,
    fun b hb => absurd hb List.not_mem_nil⟩
  rintro ⟨n, hn⟩
  exact ⟨n, hn, by simp [Json.Number.Stops, Json.begins]⟩

/-- The names of the fields, and that a string takes no more room than the packet. -/
theorem Message.wellNamed (m : Message) (text : Dict → Bytes) :
    Mipc.wellNamed ((m.fields text).map Mipc.Field.key) = true := by
  rw [Message.fields]
  split
  · exact Mipc.Request.wellNamed _
  · decide +kernel

theorem string_fits {fields : List Mipc.Field} (h : (Mipc.recordText fields).length ≤ maxPacket)
    {f : Mipc.Field} (hf : f ∈ fields) {s : Libc.Bytes} (hs : f.value = .string s) :
    s.length ≤ Mipc.maxPacket := by
  have hfield := field_length_le hf
  have hescaped := length_le_writeEscaped s
  rw [hs] at hfield
  simp only [Mipc.FieldValue.text, List.length_cons, List.length_append] at hfield
  unfold maxPacket at h
  unfold Mipc.maxPacket
  omega

theorem Message.payload_mem {m : Message} {payload : Dict} (h : m.payload = some payload) :
    (.str (str "payload"), .dict payload) ∈ m.record := by
  cases m with
  | hello _ _ | ready | subscribe _ | failure _ _ => cases h
  | event topic payload =>
    cases h
    exact .tail _ (.tail _ (.head _))
  | call id args deadline =>
    cases h
    exact .tail _ (.tail _ (.tail _ (.tail _ (.head _))))
  | reply id payload =>
    cases h
    exact .tail _ (.tail _ (.head _))

theorem Message.fields_valid {py : Interpreter} {allowNan : Bool} {m : Message}
    (hpayload : ∀ payload ∈ m.payload, Scannable py payload) {data : Bytes}
    (hdata : dumps py allowNan (.dict m.record) = .ok data)
    (hlen : (Mipc.recordText (m.fields (compact py allowNan))).length ≤ maxPacket) :
    ∀ f ∈ m.fields (compact py allowNan), f.value.Valid := by
  cases hq : m.request (compact py allowNan) with
  | none =>
    have hready : (Libc.text "ready").length ≤ Mipc.maxPacket := by decide +kernel
    rw [Message.fields, hq, List.forall_mem_singleton]
    exact hready
  | some q =>
    rw [Message.fields, hq] at hlen ⊢
    refine Mipc.Request.values_valid (fun json hjson => ?_) fun f hf s hs => string_fits hlen hf hs
    have hwhole : ∃ payload, m.payload = some payload ∧ json = compact py allowNan payload := by
      cases m <;> cases hq <;> cases hjson <;> exact ⟨_, rfl, rfl⟩
    obtain ⟨payload, hsome, rfl⟩ := hwhole
    obtain ⟨t, ht, -⟩ := dumps_values hdata (Message.payload_mem hsome)
    exact (hpayload payload hsome).valueText ht

/-- The C accessors read every field of a packet of the Python SDK. -/
theorem read_by_c (py : Interpreter) (allowNan : Bool) {m : Message} (hm : m.Expressible)
    (hpayload : ∀ payload ∈ m.payload, Scannable py payload) {data : Bytes}
    (hdata : dumps py allowNan (.dict m.record) = .ok data) (hlen : data.length ≤ maxPacket) :
    ∀ f ∈ m.fields (compact py allowNan), f.ReadFrom data := by
  have hpacket := m.packet hm.integers hdata
  rw [hpacket] at hlen ⊢
  obtain ⟨hkeys, hempty, hplain⟩ := Mipc.fields_of_wellNamed (m.wellNamed (compact py allowNan))
  intro f hf
  exact Mipc.readFrom_record (Message.fields_valid hpayload hdata hlen) hplain hkeys hempty hf

/-- The payload `{"k":[1]}` of an event, and its topic, which needs an escape. -/
theorem read_by_c_event :
    Mipc.jsonGetRaw (Libc.text ("\x7b\"type\":\"event\",\"topic\":\"a\\\"b\"," ++
        "\"payload\":\x7b\"k\":[1]\x7d\x7d")) (Libc.text "payload") =
      .ok (Libc.text "\x7b\"k\":[1]\x7d") := by
  have hm : (Message.event (str "a\"b") (some [(.str (str "k"), .list [.int 1])])).Expressible :=
    ⟨by decide, by decide +kernel⟩
  have hpayload : Scannable plain [(.str (str "k"), .list [.int 1])] :=
    ⟨⟨by decide, ⟨_, rfl⟩, ⟨trivial, trivial⟩, trivial⟩, by decide, by decide⟩
  have hdata : dumps plain false (.dict (Message.event (str "a\"b")
      (some [(.str (str "k"), .list [.int 1])])).record) = .ok (Libc.text
        ("\x7b\"type\":\"event\",\"topic\":\"a\\\"b\"," ++
          "\"payload\":\x7b\"k\":[1]\x7d\x7d")) := by
    decide +kernel
  have hread := read_by_c plain false hm (by simpa [Message.payload] using hpayload) hdata
    (by decide +kernel) ⟨"payload", .raw (compact plain false [(.str (str "k"), .list [.int 1])])⟩
    (by simp [Message.fields, Message.request, Mipc.Request.fields])
  have htrim : Mipc.trimSpace (compact plain false [(.str (str "k"), .list [.int 1])]) =
      Libc.text "\x7b\"k\":[1]\x7d" := by decide +kernel
  rw [← htrim]
  exact hread

end Msys.Wire
