import MsysSdk.Component.Packets
import MsysSdk.Wire.Decoding
import MsysSdk.Wire.Reading

/-! A call from the Python SDK to the C component and its answer back: the packet that `call` sends
is read by the loop, and the record that answers it is read by every Python endpoint. -/

namespace Msys.Component
open Python Wire

/-! ### What the loop reads from the call -/

/-- A string field is read whole if it fits, and is refused if it does not. -/
theorem string_field (key : String) {fields : List Mipc.Field} (hvalid : ∀ f ∈ fields, f.value.Valid)
    (hnamed : Mipc.wellNamed (fields.map Mipc.Field.key) = true) {s : Libc.Bytes}
    (hf : ⟨key, .string s⟩ ∈ fields) (hnul : 0 ∉ s) (m : Libc.Buffer) (capacity : Nat)
    (hc : 1 ≤ capacity) :
    (s.length < capacity →
      (Mipc.jsonGetString (Mipc.recordText fields) (Libc.text key) m capacity).result = .ok ∧
        (Mipc.jsonGetString (Mipc.recordText fields) (Libc.text key) m capacity).buffer.string
          capacity = s) ∧
    (capacity ≤ s.length →
      (Mipc.jsonGetString (Mipc.recordText fields) (Libc.text key) m capacity).result =
        .bufferTooSmall) := by
  obtain ⟨hkeys, hempty, hplain⟩ := Mipc.fields_of_wellNamed hnamed
  have hshort : s.length ≤ Mipc.maxPacket := hvalid _ hf
  refine ⟨fun hroom => ?_, fun hlong => ?_⟩
  · obtain ⟨hok, hholds, -⟩ := Mipc.readFrom_record hvalid hplain hkeys hempty hf m capacity hroom
    refine ⟨hok, ?_⟩
    rw [Mipc.string_of_holds hholds hroom]
    exact List.takeWhile_eq_self_iff.mpr fun b hb => by
      simpa using ne_of_mem_of_not_mem hb hnul
  · obtain ⟨tail, hfind⟩ := Mipc.findTopLevelValue_record (List.ne_nil_of_mem hf) hvalid hplain
      hkeys hf (hempty _ hf)
    have hrounds : Mipc.Rounds (Mipc.writeEscaped s) (s.map .byte) :=
      Mipc.rounds_flatMap fun b _ => Mipc.chunk_escapeByte b
    have hsize : (Mipc.decodedBytes (s.map .byte)).length ≤ Mipc.sizeMax := by
      rw [Mipc.decodedBytes_bytes]
      exact hshort.trans (by decide)
    rw [Mipc.trimSpace_self (Mipc.string_value s)] at hfind
    rw [Mipc.jsonGetString_rounds hrounds hfind m hsize hc, Mipc.outcome_whole s hc,
      if_neg (Nat.not_lt.mpr hlong)]

/-- What the component says to a call, from the arguments of `call`. -/
def reply (id : Int) (method : Str) : Option Mipc.Request :=
  if (utf8 method).length < 64 then
    some (if utf8 method = Libc.text "ping" then .result (toU64 id) pongPayload
      else .error (toU64 id) (Libc.text "NO_METHOD") (utf8 method))
  else none

section
variable {py : Interpreter} {allowNan : Bool} {id deadline : Int} {args : CallArgs} {data : Bytes}

theorem handle_call (hm : (Message.call id args deadline).Expressible)
    (hpayload : Scannable py (args.payload.getD []))
    (hdata : dumps py allowNan (.dict (callRecord id args deadline)) = .ok data)
    (hlen : data.length ≤ maxPacket) (m m' : Libc.Buffer) :
    handle m m' data = match reply id args.method with
      | some q => .reply q
      | none => .ignore := by
  have hpacket := Message.packet hm.integers hdata
  have hfits := hlen
  rw [hpacket] at hfits
  have hvalid := Message.fields_valid (m := .call id args deadline)
    (by simpa [Message.payload] using hpayload) hdata hfits
  have hnamed := Message.wellNamed (.call id args deadline) (compact py allowNan)
  have hmethodNul : 0 ∉ utf8 args.method := utf8_no_nul (hm.strings _ (by simp [Message.strings]))
  obtain ⟨htype, htypeString⟩ := (string_field "type" hvalid hnamed
    (s := Libc.text "call") (.head _) (by decide) m 32 (by decide)).1 (by decide)
  have hmethod := string_field "method" hvalid hnamed
    (.tail _ (.tail _ (.tail _ (.head _)))) hmethodNul m' 64 (by decide)
  have hid : Mipc.jsonGetU64 data (Libc.text "id") = (.ok, (toU64 id).toNat) :=
    read_by_c py allowNan hm (by simpa [Message.payload] using hpayload) hdata hlen
      ⟨"id", .integer (toU64 id)⟩ (.tail _ (.head _))
  rw [← hpacket] at htype htypeString hmethod
  have hcall : Libc.text "call" ≠ Libc.text "shutdown" ∧ Libc.text "call" ≠ Libc.text "event" := by
    decide
  unfold handle reply
  simp only [htype, htypeString, hcall, hid, ne_eq, not_true_eq_false, if_false, if_true,
    UInt64.ofNat_toNat]
  by_cases hroom : (utf8 args.method).length < 64
  · obtain ⟨hok, hstring⟩ := hmethod.1 hroom
    simp only [hok, hstring, hroom]
    split_ifs <;> simp_all
  · simp [hmethod.2 (Nat.not_lt.mp hroom), hroom]

/-! ### What Python reads from the answer -/

def pong : Dict := [(.str (str "ok"), .bool true), (.str (str "runtime"), .str (str "native-c"))]

/-- The record of the answer, as Python reads it. -/
def replyRecord (id : Int) (method : Str) : Dict :=
  if method = str "ping" then Channel.returnRecord id (.dict pong)
  else [(.str (str "type"), .str (str "error")), (.str (str "id"), .int id),
    (.str (str "code"), .str (str "NO_METHOD")), (.str (str "message"), .str method)]

theorem loadsWithin_dumped {finiteOnly : Bool} {v : Value} {t : Str} {json : Libc.Bytes}
    (ht : dumpValue true (py.recursionLimit - 1) v = .ok t) (hv : v.IsJson py)
    (hfinite : v.finite = true) (hjson : encodeUtf8 t = some json) :
    loadsWithin py finiteOnly json = .ok v := by
  have hcloses : Closes [] := by simp [Closes]
  have hscan : scanValue py finiteOnly (t.length + 1) (py.recursionLimit - 1) (t ++ []) = _ :=
    scanValue_dump ht hv (Nat.lt_succ_self _) hcloses
  rw [List.append_nil, hfinite, readBack_finite] at hscan
  rw [loadsWithin, decode_of_encode hjson]
  show (scanValue py finiteOnly (t.length + 1) (py.recursionLimit - 1) (skipSpace t) >>= _) = _
  rw [(dumpValue_opens ht hv).skipSpace, hscan]
  rfl

theorem denotes_pong (py : Interpreter) : Denotes py (.dict pong) (.raw pongPayload) := by
  intro finiteOnly
  obtain ⟨depth, hdepth⟩ : ∃ depth, py.recursionLimit - 1 = depth + 1 :=
    ⟨py.recursionLimit - 2, by have := py.recursionLimit_pos; omega⟩
  have hpong : dumpValue true (py.recursionLimit - 1) (.dict pong) =
      .ok (str "\x7b\"ok\":true,\"runtime\":\"native-c\"\x7d") := by
    rw [hdepth]
    rfl
  exact loadsWithin_dumped hpong ⟨by decide, ⟨_, rfl⟩, trivial, ⟨_, rfl⟩, trivial, trivial⟩ rfl
    (by decide +kernel)

theorem denotes_text {name : String} (h : decodeUtf8 (Libc.text name) = some (str name)) :
    Denotes py (.str (str name)) (.string (Libc.text name)) := ⟨_, h, rfl⟩

theorem reply_fields {method : Str} (hid : InRange id) (hmethod : Encodable method)
    {q : Mipc.Request} (hq : reply id method = some q) :
    List.Forall₂ (FieldDenotes py) q.fields (replyRecord id method) := by
  have hback : ((toU64 id).toNat : Int) = id := by
    rw [toNat_toU64 hid]
    exact Int.toNat_of_nonneg hid.1
  have hping : utf8 method = Libc.text "ping" ↔ method = str "ping" := by
    have hascii : ∀ c ∈ ("ping" : String).toList, c.toNat < 0x80 := ascii_of_all rfl
    rw [← utf8_str hascii]
    exact utf8_inj hmethod (encodable_map_ch hascii)
  rw [reply] at hq
  split_ifs at hq with hshort hname
  · obtain rfl := Option.some.inj hq
    rw [replyRecord, if_pos (hping.mp hname)]
    exact .cons ⟨rfl, denotes_text (by decide +kernel)⟩ (.cons ⟨rfl, congrArg Value.int hback.symm⟩
      (.cons ⟨rfl, denotes_pong py⟩ .nil))
  · obtain rfl := Option.some.inj hq
    rw [replyRecord, if_neg fun h => hname (hping.mpr h)]
    exact .cons ⟨rfl, denotes_text (by decide +kernel)⟩ (.cons ⟨rfl, congrArg Value.int hback.symm⟩
      (.cons ⟨rfl, denotes_text (by decide +kernel)⟩
        (.cons ⟨rfl, _, decode_of_encode (encodable_iff.mp hmethod), rfl⟩ .nil)))

theorem length_writeEscaped_le (s : Libc.Bytes) : (Mipc.writeEscaped s).length ≤ 6 * s.length := by
  induction s with
  | nil => exact Nat.zero_le _
  | cons b s ih =>
    have hadd : Mipc.addition b ≤ 6 := by
      rw [Mipc.addition]
      split_ifs <;> omega
    rw [Mipc.writeEscaped, List.flatMap_cons, List.length_append, Mipc.length_escapeByte,
      List.length_cons]
    exact (Nat.add_le_add hadd ih).trans_eq (by ring)

theorem length_decimal (n : UInt64) : (Mipc.decimal n).length ≤ 20 := by
  rw [Mipc.decimal, List.length_map]
  exact Nat.toDigits_length 10 _ _ (by decide)
    (lt_of_lt_of_le n.toNat_lt (by decide : 2 ^ 64 ≤ 10 ^ 20))

/-- An answer is short. -/
theorem reply_fits {method : Str} {q : Mipc.Request} (hq : reply id method = some q) :
    (Mipc.recordText q.fields).length ≤ maxPacket := by
  have hid := length_decimal (toU64 id)
  have hmethod := length_writeEscaped_le (utf8 method)
  have hpong : pongPayload.length ≤ 100 := by decide +kernel
  have hnames : (Mipc.writeEscaped (Libc.text "return")).length ≤ 6 ∧
      (Mipc.writeEscaped (Libc.text "error")).length ≤ 6 ∧
      (Mipc.writeEscaped (Libc.text "NO_METHOD")).length ≤ 9 := by decide +kernel
  have hkeys : (Libc.text "type").length = 4 ∧ (Libc.text "id").length = 2 ∧
      (Libc.text "payload").length = 7 ∧ (Libc.text "code").length = 4 ∧
      (Libc.text "message").length = 7 := by decide
  unfold maxPacket
  rw [reply] at hq
  split_ifs at hq with hshort hname <;> obtain rfl := Option.some.inj hq
  all_goals
    simp only [Mipc.recordText, Mipc.Request.fields, List.map_cons, List.map_nil, Json.commaJoin,
      Mipc.Field.text, Mipc.FieldValue.text, List.length_cons, List.length_append, List.length_nil]
    omega

/-- A call of the Python SDK is answered with a record that every Python endpoint reads: the
method's result, or that there is no such method. A method of 64 bytes or more gets no answer. -/
theorem call_answered (py : Interpreter) (allowNan : Bool)
    (hm : (Message.call id args deadline).Expressible)
    (hpayload : Scannable py (args.payload.getD []))
    (hdata : dumps py allowNan (.dict (callRecord id args deadline)) = .ok data)
    (hlen : data.length ≤ maxPacket) :
    ((utf8 args.method).length < 64 → ∃ record, answer (content data) = some record ∧
      Accepted py record (replyRecord id args.method)) ∧
    (64 ≤ (utf8 args.method).length → answer (content data) = none) := by
  have hcontent : content data = data := by
    refine List.takeWhile_eq_self_iff.mpr fun b hb => ?_
    have hjson : (Value.dict (callRecord id args deadline)).IsJson py :=
      ⟨by simp [callRecord]; decide, ⟨_, rfl⟩, trivial, ⟨_, rfl⟩, trivial, ⟨_, rfl⟩, trivial,
        ⟨_, rfl⟩, trivial, ⟨_, rfl⟩, hpayload.json, ⟨_, rfl⟩, trivial, ⟨_, rfl⟩, trivial, trivial⟩
    have hprintable := dumps_printable hjson hdata b hb
    rw [decide_eq_true_iff]
    rintro rfl
    exact absurd hprintable (by decide)
  have hhandle := handle_call hm hpayload hdata hlen zeroed zeroed
  rw [hcontent, answer, hhandle]
  refine ⟨fun hshort => ?_, fun hlong => ?_⟩
  · have hmethod : Encodable args.method := by
      have hmem : (.str (str "method"), .str args.method) ∈ callRecord id args deadline :=
        .tail _ (.tail _ (.tail _ (.head _)))
      obtain ⟨t, ht, hencodable⟩ := dumps_values hdata hmem
      rw [dumpValue] at ht
      obtain rfl := Except.ok.inj ht
      exact encodable_of_quoted hencodable
    obtain ⟨q, hq⟩ : ∃ q, reply id args.method = some q := ⟨_, if_pos hshort⟩
    obtain ⟨hkeys, -, -⟩ := Mipc.fields_of_wellNamed q.wellNamed
    have hid : InRange id := hm.integers id (by simp [Message.integers])
    have hfields : List.Forall₂ (FieldDenotes py) q.fields _ := reply_fields hid hmethod hq
    have hread := loads_record hfields
      (by cases q <;> simp [Mipc.Request.fields]) (plain_fields q) hkeys
    rw [hq]
    exact ⟨_, rfl, accepted_of_loads (List.cons_ne_nil _ _) (reply_fits hq) (hread false)
      (hread true)⟩
  · rw [reply, if_neg (Nat.not_lt.mpr hlong)]

/-- A ping. -/
theorem call_answered_ping :
    ∃ record, answer (content (Libc.text ("\x7b\"type\":\"call\",\"id\":1,\"target\":\"a\"," ++
        "\"method\":\"ping\",\"payload\":\x7b\x7d,\"deadline_ms\":5,\"idempotent\":false\x7d"))) =
        some record ∧
      Accepted plain record (Channel.returnRecord 1 (.dict pong)) := by
  have hm : (Message.call 1 ⟨str "a", str "ping", none, none, false⟩ 5).Expressible :=
    ⟨by decide, by decide +kernel⟩
  have hpayload : Scannable plain [] := ⟨⟨by decide, trivial⟩, rfl, by decide⟩
  have hdata : dumps plain true (.dict (callRecord 1 ⟨str "a", str "ping", none, none, false⟩ 5)) =
      .ok (Libc.text ("\x7b\"type\":\"call\",\"id\":1,\"target\":\"a\"," ++
        "\"method\":\"ping\",\"payload\":\x7b\x7d,\"deadline_ms\":5,\"idempotent\":false\x7d")) := by
    decide +kernel
  exact (call_answered plain true hm hpayload hdata (by decide +kernel)).1 (by decide +kernel)

end

end Msys.Component
