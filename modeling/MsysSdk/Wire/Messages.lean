import MsysSdk.Channel.Model
import MsysSdk.Mipc.RoundTrip
import MsysSdk.Wire.Quoting

/-! What the two SDKs put on a component channel for the same request: the packet of the Python SDK
and that of the C SDK are the same bytes. -/

namespace Msys.Wire
open Python

/-! ### The records of the Python SDK -/

/-- `hello` of the client, and the first record of the channel's `handshake`. -/
def helloRecord (component : Str) (generation : Int) : Dict :=
  [(.str (str "type"), .str (str "hello")), (.str (str "component"), .str component),
    (.str (str "generation"), .int generation)]

def readyRecord : Dict := [(.str (str "type"), .str (str "ready"))]

def subscribeRecord (topic : Str) : Dict :=
  [(.str (str "type"), .str (str "subscribe")), (.str (str "topic"), .str topic)]

def eventRecord (topic : Str) (payload : Option Dict) : Dict :=
  [(.str (str "type"), .str (str "event")), (.str (str "topic"), .str topic),
    (.str (str "payload"), .dict (payload.getD []))]

/-- What the two Python clients send. `reply` and `failure` are the pump's answers to a call. -/
inductive Message
  | hello (component : Str) (generation : Int)
  | ready
  | subscribe (topic : Str)
  | event (topic : Str) (payload : Option Dict)
  | call (id : Int) (args : CallArgs) (deadline : Int)
  | reply (id : Int) (payload : Dict)
  | failure (id : Int) (text : Str)

def Message.record : Message → Dict
  | .hello component generation => helloRecord component generation
  | .ready => readyRecord
  | .subscribe topic => subscribeRecord topic
  | .event topic payload => eventRecord topic payload
  | .call id args deadline => callRecord id args deadline
  | .reply id payload => Channel.returnRecord id (.dict payload)
  | .failure id text => Channel.errorRecord id text

/-! ### The same request in C -/

/-- The JSON text of a payload inside a record. -/
def compact (py : Interpreter) (allowNan : Bool) (payload : Dict) : Bytes :=
  match dumpValue allowNan (py.recursionLimit - 1) (.dict payload) with
  | .ok t => utf8 t
  | .error _ => []

/-- The arguments of the C sender, given the JSON texts of payloads; `ready` has none. -/
def Message.request (text : Dict → Bytes) : Message → Option Mipc.Request
  | .hello component generation => some (.hello (utf8 component) (toU64 generation))
  | .ready => none
  | .subscribe topic => some (.subscribe (utf8 topic))
  | .event topic payload => some (.event (utf8 topic) (text (payload.getD [])))
  | .call id args deadline =>
    some (.call (toU64 id) (utf8 args.target) (utf8 args.method) (text (args.payload.getD []))
      (toU64 deadline) args.idempotent)
  | .reply id payload => some (.result (toU64 id) (text payload))
  | .failure id t =>
    some (.error (toU64 id) (Libc.text "CALL_FAILED") (utf8 (t.take 256)))

def Message.fields (text : Dict → Bytes) (m : Message) : List Mipc.Field :=
  match m.request text with
  | some q => q.fields
  | none => [⟨"type", .string (Libc.text "ready")⟩]

def Message.send (sys : Mipc.System) (client : Option Mipc.Client) (text : Dict → Bytes)
    (m : Message) : Option Mipc.SendReply :=
  match m.request text with
  | some q => q.send sys client
  | none => Mipc.sendReady sys client

/-- The strings that become arguments of the C sender. -/
def Message.strings : Message → List Str
  | .hello component _ => [component]
  | .ready | .reply _ _ => []
  | .subscribe topic | .event topic _ => [topic]
  | .call _ args _ => [args.target, args.method]
  | .failure _ t => [t.take 256]

def Message.integers : Message → List Int
  | .hello _ generation => [generation]
  | .ready | .subscribe _ | .event _ _ => []
  | .call id _ deadline => [id, deadline]
  | .reply id _ | .failure id _ => [id]

/-- The request can be made in C: its integers are `uint64_t`s and its strings C strings. -/
structure Message.Expressible (m : Message) : Prop where
  integers : ∀ i ∈ m.integers, InRange i
  strings : ∀ s ∈ m.strings, .ofNat 0 ∉ s

/-! ### The packets -/

section
variable {allowNan : Bool} {depth : Nat} {key : String}

/-- The key is ASCII and stands for itself in a literal. -/
def plainKey (key : String) : Bool :=
  key.toList.all (fun c => c.toNat < 0x80) &&
    (Libc.text key).all fun b => Mipc.escapeByte b = [b]

theorem writtenAs {value : Value} {f : Mipc.FieldValue} (hk : plainKey key = true)
    (hv : ∀ t, dumpValue allowNan depth value = .ok t → utf8 t = f.text) :
    WrittenAs allowNan depth (.str (str key), value) ⟨key, f⟩ := by
  obtain ⟨hascii, hplain⟩ := Bool.and_eq_true_iff.mp hk
  exact ⟨rfl, ascii_of_all hascii, fun b hb => of_decide_eq_true (List.all_eq_true.mp hplain b hb),
    hv⟩

theorem written_string (hk : plainKey key = true) (s : Str) :
    WrittenAs allowNan depth (.str (str key), .str s) ⟨key, .string (utf8 s)⟩ := by
  refine writtenAs hk fun t ht => ?_
  rw [dumpValue] at ht
  rw [← Except.ok.inj ht, utf8_quoted]
  rfl

/-- A string that the code spells out. -/
theorem written_name (hk : plainKey key = true) {name : String} (hn : plainKey name = true) :
    WrittenAs allowNan depth (.str (str key), .str (str name))
      ⟨key, .string (Libc.text name)⟩ := by
  have hname : WrittenAs allowNan depth (.str (str key), .str (str name)) _ :=
    written_string hk (str name)
  rwa [utf8_str (ascii_of_all (Bool.and_eq_true_iff.mp hn).1)] at hname

theorem written_int (hk : plainKey key = true) {i : Int} (hi : InRange i) :
    WrittenAs allowNan depth (.str (str key), .int i) ⟨key, .integer (toU64 i)⟩ := by
  refine writtenAs hk fun t ht => ?_
  rw [dumpValue] at ht
  exact utf8_intRepr hi ht

theorem written_bool (hk : plainKey key = true) (b : Bool) :
    WrittenAs allowNan depth (.str (str key), .bool b)
      ⟨key, .raw (if b then Libc.text "true" else Libc.text "false")⟩ := by
  refine writtenAs hk fun t ht => ?_
  rw [dumpValue] at ht
  rw [← Except.ok.inj ht]
  cases b <;> rfl

end

theorem written_payload {py : Interpreter} {allowNan : Bool} (payload : Dict) :
    WrittenAs allowNan (py.recursionLimit - 1) (.str (str "payload"), .dict payload)
      ⟨"payload", .raw (compact py allowNan payload)⟩ := by
  refine writtenAs (by decide +kernel) fun t ht => ?_
  rw [Mipc.FieldValue.text, compact, ht]

theorem Message.written {py : Interpreter} {allowNan : Bool} {m : Message}
    (h : ∀ i ∈ m.integers, InRange i) :
    List.Forall₂ (WrittenAs allowNan (py.recursionLimit - 1)) m.record
      (m.fields (compact py allowNan)) := by
  have htype : plainKey "type" = true := by decide +kernel
  have hid : plainKey "id" = true := by decide +kernel
  have htopic : plainKey "topic" = true := by decide +kernel
  cases m with
  | hello component generation =>
    exact .cons (written_name htype (by decide +kernel))
      (.cons (written_string (by decide +kernel) _)
        (.cons (written_int (by decide +kernel) (h _ (by simp [integers]))) .nil))
  | ready => exact .cons (written_name htype (by decide +kernel)) .nil
  | subscribe topic =>
    exact .cons (written_name htype (by decide +kernel)) (.cons (written_string htopic _) .nil)
  | event topic payload =>
    exact .cons (written_name htype (by decide +kernel)) (.cons (written_string htopic _)
      (.cons (written_payload _) .nil))
  | call id args deadline =>
    exact .cons (written_name htype (by decide +kernel))
      (.cons (written_int hid (h _ (by simp [integers])))
        (.cons (written_string (by decide +kernel) _)
          (.cons (written_string (by decide +kernel) _)
            (.cons (written_payload _)
              (.cons (written_int (by decide +kernel) (h _ (by simp [integers])))
                (.cons (written_bool (by decide +kernel) _) .nil))))))
  | reply id payload =>
    exact .cons (written_name htype (by decide +kernel))
      (.cons (written_int hid (h _ (by simp [integers]))) (.cons (written_payload _) .nil))
  | failure id text =>
    exact .cons (written_name htype (by decide +kernel))
      (.cons (written_int hid (h _ (by simp [integers])))
        (.cons (written_name (by decide +kernel) (by decide +kernel))
          (.cons (written_string (by decide +kernel) _) .nil)))

/-- The packet of the Python SDK, as a record of fields. -/
theorem Message.packet {py : Interpreter} {allowNan : Bool} {m : Message}
    (h : ∀ i ∈ m.integers, InRange i) {data : Bytes}
    (hdata : dumps py allowNan (.dict m.record) = .ok data) :
    data = Mipc.recordText (m.fields (compact py allowNan)) := by
  obtain ⟨s, hs, hencode⟩ := dumps_text hdata
  obtain ⟨depth, hdepth⟩ : ∃ depth, py.recursionLimit = depth + 1 :=
    ⟨py.recursionLimit - 1, by have := py.recursionLimit_pos; omega⟩
  have hwritten : List.Forall₂ (WrittenAs allowNan (py.recursionLimit - 1)) m.record _ :=
    Message.written h
  rw [hdepth] at hs
  have hbytes : py.recursionLimit - 1 = depth := by omega
  rw [hbytes] at hwritten
  rw [← utf8_of_encode hencode, utf8_record hwritten hs]

/-! ### The C senders on the same request -/

/-- Memory and `vsnprintf` do not fail, and `send` takes all of `n` bytes in the end. -/
structure Healthy (sys : Mipc.System) (n : Nat) : Prop where
  allocates : ∀ k, sys.allocates k = true
  prints : ∀ k, sys.prints k = true
  sends : Mipc.sendAgain sys.sends = some (.bytes n)

theorem recordText_shape (fields : List Mipc.Field) :
    Mipc.jsonObjectShape (Mipc.recordText fields) = true := by
  have htrim : Mipc.trimSpace (Mipc.recordText fields) = Mipc.recordText fields := by
    rw [Mipc.trimSpace, Mipc.recordText, Mipc.skipSpace_cons (by decide), ← List.cons_append,
      List.rdropWhile_concat_neg _ _ _ (by decide)]
  have hlast : (Mipc.recordText fields).getLast? = some (Libc.chr '}') := by
    rw [Mipc.recordText, ← List.cons_append]
    exact List.getLast?_concat
  rw [Mipc.jsonObjectShape, htrim, hlast, Mipc.recordText]
  simp

section
variable {sys : Mipc.System} {client : Option Mipc.Client}

theorem sendJson_healthy {fields : List Mipc.Field} (hclient : Mipc.validClient client = true)
    (hlen : (Mipc.recordText fields).length ≤ maxPacket)
    (hsys : Healthy sys (Mipc.recordText fields).length) :
    Mipc.sendJson sys client (some (Mipc.recordText fields)) =
      some (Mipc.setResult client .ok 0 (some (Mipc.recordText fields))) := by
  have hnil : (Mipc.recordText fields).length ≠ 0 := by simp [Mipc.recordText]
  have hlarge : ¬(Mipc.recordText fields).length > Mipc.maxPacket := Nat.not_lt.mpr hlen
  rw [Mipc.sendJson]
  simp [hclient, hnil, hlarge, recordText_shape, hsys.sends]

theorem sendFormat_healthy {print alloc : Nat} {pieces : List Libc.Bytes}
    {fields : List Mipc.Field} (hpieces : pieces.flatten = Mipc.recordText fields)
    (hclient : Mipc.validClient client = true)
    (hlen : (Mipc.recordText fields).length ≤ maxPacket)
    (hsys : Healthy sys (Mipc.recordText fields).length) :
    Mipc.sendFormat sys print alloc client pieces =
      some (Mipc.setResult client .ok 0 (some (Mipc.recordText fields))) := by
  have hsome : client.isNone = false := by
    cases client with
    | none => cases hclient
    | some c => rfl
  have hlarge : ¬(Mipc.recordText fields).length > Mipc.maxPacket := Nat.not_lt.mpr hlen
  rw [Mipc.sendFormat]
  simp only [hpieces, hsome, hsys.prints, hsys.allocates, hlarge, Bool.false_eq_true,
    Bool.true_eq_false, if_false]
  exact sendJson_healthy hclient hlen hsys

theorem addition_pos (b : UInt8) : 1 ≤ Mipc.addition b := by
  rw [Mipc.addition]
  split_ifs <;> omega

theorem escapedLength_fits {n : Nat} {s : Libc.Bytes}
    (h : n + (Mipc.writeEscaped s).length ≤ Mipc.maxPacket) :
    Mipc.escapedLength n s = some (n + (Mipc.writeEscaped s).length) := by
  induction s generalizing n with
  | nil => rfl
  | cons b s ih =>
    have hcons : (Mipc.writeEscaped (b :: s)).length =
        Mipc.addition b + (Mipc.writeEscaped s).length := by
      rw [Mipc.writeEscaped, List.flatMap_cons, List.length_append, Mipc.length_escapeByte]
      rfl
    rw [hcons] at h ⊢
    rw [Mipc.escapedLength, if_neg (by omega), ih (by omega), Nat.add_assoc]

theorem length_le_writeEscaped (s : Libc.Bytes) : s.length ≤ (Mipc.writeEscaped s).length := by
  induction s with
  | nil => exact Nat.zero_le _
  | cons b s ih =>
    have := addition_pos b
    rw [Mipc.writeEscaped, List.flatMap_cons, List.length_append, Mipc.length_escapeByte,
      List.length_cons]
    exact (Nat.add_le_add this ih).trans_eq' (Nat.add_comm _ _)

theorem escapedJsonString_fits {s : Libc.Bytes}
    (h : (Mipc.writeEscaped s).length ≤ Mipc.maxPacket) :
    Mipc.escapedJsonString true (some s) = .ok (Mipc.writeEscaped s) := by
  have hlen := length_le_writeEscaped s
  have hsize := escapedLength_fits (n := 0) (s := s) (by omega)
  rw [Mipc.escapedJsonString, if_neg (by omega), hsize]
  rfl

/-- A field's text is part of the record. -/
theorem field_length_le {fields : List Mipc.Field} {f : Mipc.Field} (h : f ∈ fields) :
    f.value.text.length ≤ (Mipc.recordText fields).length := by
  have hfield : f.value.text.length ≤ f.text.length := by
    rw [Mipc.Field.text]
    simp only [List.length_cons, List.length_append]
    omega
  have hjoin : f.text <:+: Json.commaJoin Mipc.dialect (fields.map Mipc.Field.text) :=
    Json.infix_commaJoin (List.mem_map_of_mem h)
  have hjoin := hjoin.length_le
  rw [Mipc.recordText]
  simp only [List.length_cons, List.length_append]
  omega

theorem escaped_of_field (key : String) {fields : List Mipc.Field} {s : Libc.Bytes}
    (h : ⟨key, .string s⟩ ∈ fields) (hlen : (Mipc.recordText fields).length ≤ maxPacket) :
    Mipc.escapedJsonString true (some s) = .ok (Mipc.writeEscaped s) := by
  have hfield := field_length_le h
  simp only [Mipc.FieldValue.text, List.length_cons, List.length_append] at hfield
  exact escapedJsonString_fits (by unfold maxPacket at hlen; unfold Mipc.maxPacket; omega)

theorem validateRawValue_field {fields : List Mipc.Field} {json : Libc.Bytes}
    (h : ⟨"payload", .raw json⟩ ∈ fields) (hlen : (Mipc.recordText fields).length ≤ maxPacket)
    (hjson : Mipc.skipSpace json ≠ []) : Mipc.validateRawValue (some json) = none := by
  have hfield : json.length ≤ _ := field_length_le h
  have hlarge : ¬json.length > Mipc.maxPacket := by
    unfold maxPacket at hlen
    unfold Mipc.maxPacket
    omega
  rw [Mipc.validateRawValue, if_neg hlarge, if_neg hjson]

/-- What a C sender needs besides memory: the record fits, a payload is not blank, and a call has
a target and a method. -/
structure Sendable (q : Mipc.Request) : Prop where
  fits : (Mipc.recordText q.fields).length ≤ maxPacket
  payload : ∀ json ∈ q.payload, Mipc.skipSpace json ≠ []
  named : ∀ id target method payload deadline idempotent,
    q = .call id target method payload deadline idempotent → target ≠ [] ∧ method ≠ []

theorem Sendable.sends {q : Mipc.Request} (h : Sendable q)
    (hclient : Mipc.validClient client = true)
    (hsys : Healthy sys (Mipc.recordText q.fields).length) :
    q.send sys client = some (Mipc.setResult client .ok 0 (some (Mipc.recordText q.fields))) := by
  obtain ⟨hfits, hpayload, hnamed⟩ := h
  cases q with
  | hello componentId generation =>
    rw [Mipc.Request.send, Mipc.sendHello, hsys.allocates,
      escaped_of_field "component" (by simp [Mipc.Request.fields]) hfits]
    refine sendFormat_healthy ?_ hclient hfits hsys
    simp only [Mipc.recordText, Mipc.Request.fields, List.map_cons, Mipc.Field.text,
      Mipc.FieldValue.text, Mipc.type_names]
    simp [Json.commaJoin, Libc.text]
  | subscribe topic =>
    rw [Mipc.Request.send, Mipc.sendSubscribe, hsys.allocates,
      escaped_of_field "topic" (by simp [Mipc.Request.fields]) hfits]
    refine sendFormat_healthy ?_ hclient hfits hsys
    simp only [Mipc.recordText, Mipc.Request.fields, List.map_cons, Mipc.Field.text,
      Mipc.FieldValue.text, Mipc.type_names]
    simp [Json.commaJoin, Libc.text]
  | call requestId target method payload deadlineMs idempotent =>
    obtain ⟨htarget, hmethod⟩ := hnamed _ _ _ _ _ _ rfl
    rw [Mipc.Request.send, Mipc.sendCallJson, Option.getD_some,
      validateRawValue_field (by simp [Mipc.Request.fields]) hfits
        (hpayload _ rfl)]
    simp only [Option.getD_some, htarget, hmethod, decide_false, Bool.or_self,
      Bool.false_eq_true, if_false, hsys.allocates]
    rw [escaped_of_field "target" (by simp [Mipc.Request.fields]) hfits,
      escaped_of_field "method" (by simp [Mipc.Request.fields]) hfits]
    refine sendFormat_healthy ?_ hclient hfits hsys
    simp only [Mipc.recordText, Mipc.Request.fields, List.map_cons, Mipc.Field.text,
      Mipc.FieldValue.text, Mipc.type_names]
    simp [Json.commaJoin, Libc.text]
  | event topic payload =>
    rw [Mipc.Request.send, Mipc.sendEventJson, Option.getD_some,
      validateRawValue_field (by simp [Mipc.Request.fields]) hfits
        (hpayload _ rfl)]
    simp only [hsys.allocates]
    rw [escaped_of_field "topic" (by simp [Mipc.Request.fields]) hfits]
    refine sendFormat_healthy ?_ hclient hfits hsys
    simp only [Mipc.recordText, Mipc.Request.fields, List.map_cons, Mipc.Field.text,
      Mipc.FieldValue.text, Mipc.type_names]
    simp [Json.commaJoin, Libc.text]
  | result requestId payload =>
    rw [Mipc.Request.send, Mipc.sendReturnJson, Option.getD_some,
      validateRawValue_field (by simp [Mipc.Request.fields]) hfits
        (hpayload _ rfl)]
    refine sendFormat_healthy ?_ hclient hfits hsys
    simp only [Mipc.recordText, Mipc.Request.fields, List.map_cons, Mipc.Field.text,
      Mipc.FieldValue.text, Mipc.type_names]
    simp [Json.commaJoin, Libc.text]
  | error requestId code message =>
    rw [Mipc.Request.send, Mipc.sendError, hsys.allocates, hsys.allocates, Option.getD_some,
      Option.getD_some, escaped_of_field "code" (by simp [Mipc.Request.fields]) hfits]
    simp only
    rw [escaped_of_field "message" (by simp [Mipc.Request.fields]) hfits]
    refine sendFormat_healthy ?_ hclient hfits hsys
    simp only [Mipc.recordText, Mipc.Request.fields, List.map_cons, Mipc.Field.text,
      Mipc.FieldValue.text, Mipc.type_names]
    simp [Json.commaJoin, Libc.text]

end

/-! ### The same bytes -/

/-- In the text of a dict stand the texts of its values. -/
theorem dumpEntries_values {allowNan : Bool} {depth : Nat} {d : Dict} {s : Str}
    (h : dumpEntries allowNan depth d = .ok s) :
    ∀ e ∈ d, ∃ t, dumpValue allowNan depth e.2 = .ok t ∧ t <:+: s := by
  induction d generalizing s with
  | nil => simp
  | cons e d ih =>
    obtain ⟨k, v⟩ := e
    cases d with
    | nil =>
      rw [dumpEntries] at h
      obtain ⟨a, -, h⟩ := bind_ok h
      obtain ⟨b, hb, h⟩ := bind_ok h
      rw [List.forall_mem_singleton]
      refine ⟨b, hb, Python.quoted a ++ [ch ':'], [], ?_⟩
      rw [← Except.ok.inj h]
      simp
    | cons e' d =>
      rw [dumpEntries] at h
      obtain ⟨a, -, h⟩ := bind_ok h
      obtain ⟨b, hb, h⟩ := bind_ok h
      obtain ⟨t, ht, h⟩ := bind_ok h
      have hs := Except.ok.inj h
      refine List.forall_mem_cons.mpr ⟨⟨b, hb, Python.quoted a ++ [ch ':'], ch ',' :: t, ?_⟩,
        fun e he => ?_⟩
      · rw [← hs]
        simp
      · obtain ⟨u, hu, hwithin⟩ := ih ht e he
        refine ⟨u, hu, hwithin.trans ⟨Python.quoted a ++ ch ':' :: b ++ [ch ','], [], ?_⟩⟩
        rw [← hs]
        simp

/-- The text of a dict that has been sent has no surrogate, nor have the texts of its values. -/
theorem dumps_values {py : Interpreter} {allowNan : Bool} {d : Dict} {data : Bytes}
    (hdata : dumps py allowNan (.dict d) = .ok data) {key value : Value} (h : (key, value) ∈ d) :
    ∃ t, dumpValue allowNan (py.recursionLimit - 1) value = .ok t ∧ Encodable t := by
  obtain ⟨s, hs, hencode⟩ := dumps_text hdata
  obtain ⟨depth, hdepth⟩ : ∃ depth, py.recursionLimit = depth + 1 :=
    ⟨py.recursionLimit - 1, by have := py.recursionLimit_pos; omega⟩
  have hall : Encodable s := by rw [encodable_iff, utf8_of_encode hencode, hencode]
  rw [hdepth, dumpValue] at hs
  obtain ⟨body, hbody, hs⟩ := bind_ok hs
  obtain ⟨t, ht, hwithin⟩ := dumpEntries_values hbody _ h
  rw [hdepth, Nat.add_sub_cancel]
  refine ⟨t, ht, fun c hc => hall c ?_⟩
  rw [← Except.ok.inj hs]
  exact List.mem_append_left _ (List.mem_cons_of_mem _ (hwithin.subset hc))

theorem encodable_of_quoted {s : Str} (h : Encodable (Python.quoted s)) : Encodable s := by
  intro c hc
  have hescaped : encodable (escapeChar c) = true := by
    refine List.all_eq_true.mpr fun x hx => ?_
    rw [h x (List.mem_append_left _ (List.mem_cons_of_mem _ (List.mem_flatMap.mpr ⟨c, hc, hx⟩)))]
    rfl
  rw [encodable_escapeChar] at hescaped
  simpa using hescaped

/-- The text of a payload that has been written opens a brace. -/
theorem compact_not_blank {py : Interpreter} {allowNan : Bool} {payload : Dict} {t : Str}
    (h : dumpValue allowNan (py.recursionLimit - 1) (.dict payload) = .ok t) :
    Mipc.skipSpace (compact py allowNan payload) ≠ [] := by
  have hbytes : compact py allowNan payload = utf8 t := by rw [compact, h]
  rw [hbytes]
  cases hdepth : py.recursionLimit - 1 with
  | zero =>
    rw [hdepth, dumpValue] at h
    cases h
  | succ depth =>
    rw [hdepth, dumpValue] at h
    obtain ⟨body, -, h⟩ := bind_ok h
    rw [← Except.ok.inj h, List.cons_append, utf8_cons_ch (by decide),
      Mipc.skipSpace_cons (by decide)]
    exact List.cons_ne_nil _ _

/-- The checks that `call` makes of its arguments before it sends. -/
def Message.named : Message → Prop
  | .call _ args _ => args.target ≠ [] ∧ args.method ≠ []
  | _ => True

theorem utf8_ne_nil {s : Str} (hs : Encodable s) (hne : s ≠ []) : utf8 s ≠ [] := fun h =>
  hne ((utf8_inj hs fun _ hc => absurd hc List.not_mem_nil).mp (h.trans utf8_nil.symm))

theorem argument_ne_nil {py : Interpreter} {allowNan : Bool} {d : Dict} {data : Bytes}
    (hdata : dumps py allowNan (.dict d) = .ok data) {k : Value} {s : Str}
    (h : (k, .str s) ∈ d) (hne : s ≠ []) : utf8 s ≠ [] := by
  obtain ⟨t, ht, hencodable⟩ := dumps_values hdata h
  rw [dumpValue] at ht
  obtain rfl := Except.ok.inj ht
  exact utf8_ne_nil (encodable_of_quoted hencodable) hne

theorem Message.sendable {py : Interpreter} {allowNan : Bool} {m : Message} {data : Bytes}
    {q : Mipc.Request} (hq : m.request (compact py allowNan) = some q) (hnamed : m.named)
    (hdata : dumps py allowNan (.dict m.record) = .ok data)
    (hfits : (Mipc.recordText q.fields).length ≤ maxPacket) : Sendable q := by
  refine ⟨hfits, fun json hjson => ?_, ?_⟩
  · cases m with
    | hello component generation | subscribe topic | failure id text =>
      cases hq
      cases hjson
    | ready => cases hq
    | event topic payload =>
      cases hq
      cases hjson
      have hmem : (.str (str "payload"), .dict (payload.getD [])) ∈
          (Message.event topic payload).record := .tail _ (.tail _ (.head _))
      obtain ⟨t, ht, -⟩ := dumps_values hdata hmem
      exact compact_not_blank ht
    | call id args deadline =>
      cases hq
      cases hjson
      have hmem : (.str (str "payload"), .dict (args.payload.getD [])) ∈
          (Message.call id args deadline).record :=
        .tail _ (.tail _ (.tail _ (.tail _ (.head _))))
      obtain ⟨t, ht, -⟩ := dumps_values hdata hmem
      exact compact_not_blank ht
    | reply id payload =>
      cases hq
      cases hjson
      have hmem : (.str (str "payload"), .dict payload) ∈ (Message.reply id payload).record :=
        .tail _ (.tail _ (.head _))
      obtain ⟨t, ht, -⟩ := dumps_values hdata hmem
      exact compact_not_blank ht
  · rintro id target method payload deadline idempotent rfl
    cases m with
    | call id args deadline =>
      cases hq
      have htarget : (.str (str "target"), .str args.target) ∈
          (Message.call id args deadline).record := .tail _ (.tail _ (.head _))
      have hmethod : (.str (str "method"), .str args.method) ∈
          (Message.call id args deadline).record := .tail _ (.tail _ (.tail _ (.head _)))
      exact ⟨argument_ne_nil hdata htarget hnamed.1, argument_ne_nil hdata hmethod hnamed.2⟩
    | _ => cases hq

/-- What the Python SDK sends for a request the C SDK sends too, and nothing else; and the C SDK
does send it, if its system does its part. -/
theorem same_bytes (py : Interpreter) (allowNan : Bool) {m : Message} (hm : m.Expressible)
    {data : Bytes} (hdata : dumps py allowNan (.dict m.record) = .ok data) (sys : Mipc.System)
    (client : Option Mipc.Client) :
    (∀ reply, m.send sys client (compact py allowNan) = some reply → reply.result = .ok →
      reply.record = some data) ∧
    (Mipc.validClient client = true → m.named → data.length ≤ maxPacket →
      Healthy sys data.length →
      ∃ reply, m.send sys client (compact py allowNan) = some reply ∧ reply.result = .ok ∧
        reply.record = some data) := by
  have hpacket := m.packet hm.integers hdata
  cases hq : m.request (compact py allowNan) with
  | none =>
    have hready : data = Libc.text "\x7b\"type\":\"ready\"\x7d" := by
      rw [hpacket, Message.fields, hq]
      decide +kernel
    rw [Message.fields, hq] at hpacket
    simp only [Message.send, hq, Mipc.sendReady, ← hready]
    refine ⟨fun reply h hok => (Mipc.sendJson_ok h hok).1, fun hclient _ hlen hsys => ?_⟩
    rw [hpacket] at hlen hsys ⊢
    exact ⟨_, sendJson_healthy hclient hlen hsys, rfl, rfl⟩
  | some q =>
    rw [Message.fields, hq] at hpacket
    simp only [Message.send, hq]
    refine ⟨fun reply h hok => ?_, fun hclient hnamed hlen hsys => ?_⟩
    · rw [hpacket]
      exact (q.transmitted h hok).1.1
    · rw [hpacket] at hlen hsys ⊢
      exact ⟨_, (Message.sendable hq hnamed hdata hlen).sends hclient hsys, rfl, rfl⟩

/-- The refusal of a call, with a quote in its text. -/
theorem same_bytes_failure :
    ∃ reply, (Message.failure 7 (str "no \"x\"")).send ⟨fun _ => true, fun _ => true, [.bytes 65]⟩
        (some ⟨3, 0⟩) (compact plain true) = some reply ∧ reply.result = .ok ∧
      reply.record = some (bytes ("\x7b\"type\":\"error\",\"id\":7,\"code\":\"CALL_FAILED\"," ++
        "\"message\":\"no \\\"x\\\"\"\x7d")) := by
  have hm : (Message.failure 7 (str "no \"x\"")).Expressible :=
    ⟨by decide +kernel, by decide +kernel⟩
  refine (same_bytes plain true hm (by decide +kernel) _ _).2 rfl trivial (by decide +kernel)
    ⟨fun _ => rfl, fun _ => rfl, ?_⟩
  have hlen : (bytes ("\x7b\"type\":\"error\",\"id\":7,\"code\":\"CALL_FAILED\"," ++
      "\"message\":\"no \\\"x\\\"\"\x7d")).length = 65 := by decide +kernel
  rw [hlen]
  rfl

end Msys.Wire
