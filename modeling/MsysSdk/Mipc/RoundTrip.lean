import MsysSdk.Mipc.Requests

/-! The senders and the accessors are inverse to each other. -/

namespace Msys.Mipc
open Libc Json

/-- The arguments of a sender, none of them NULL. -/
inductive Request
  | hello (componentId : Bytes) (generation : UInt64)
  | subscribe (topic : Bytes)
  | call (requestId : UInt64) (target method payload : Bytes) (deadlineMs : UInt64)
    (idempotent : Bool)
  | event (topic payload : Bytes)
  | result (requestId : UInt64) (payload : Bytes)
  | error (requestId : UInt64) (code message : Bytes)

def Request.send (sys : System) (client : Option Client) : Request → Option SendReply
  | .hello componentId generation => sendHello sys client (some componentId) generation
  | .subscribe topic => sendSubscribe sys client (some topic)
  | .call requestId target method payload deadlineMs idempotent =>
    sendCallJson sys client requestId (some target) (some method) (some payload) deadlineMs
      idempotent
  | .event topic payload => sendEventJson sys client (some topic) (some payload)
  | .result requestId payload => sendReturnJson sys client requestId (some payload)
  | .error requestId code message => sendError sys client requestId (some code) (some message)

def Request.payload : Request → Option Bytes
  | .call _ _ _ payload _ _ => some payload
  | .event _ payload => some payload
  | .result _ payload => some payload
  | _ => none

/-- Each argument under the name it has in the record. -/
def Request.fields : Request → List Field
  | .hello componentId generation =>
    [⟨"type", .string (text "hello")⟩, ⟨"component", .string componentId⟩,
      ⟨"generation", .integer generation⟩]
  | .subscribe topic => [⟨"type", .string (text "subscribe")⟩, ⟨"topic", .string topic⟩]
  | .call requestId target method payload deadlineMs idempotent =>
    [⟨"type", .string (text "call")⟩, ⟨"id", .integer requestId⟩, ⟨"target", .string target⟩,
      ⟨"method", .string method⟩, ⟨"payload", .raw payload⟩,
      ⟨"deadline_ms", .integer deadlineMs⟩,
      ⟨"idempotent", .raw (if idempotent then text "true" else text "false")⟩]
  | .event topic payload =>
    [⟨"type", .string (text "event")⟩, ⟨"topic", .string topic⟩, ⟨"payload", .raw payload⟩]
  | .result requestId payload =>
    [⟨"type", .string (text "return")⟩, ⟨"id", .integer requestId⟩, ⟨"payload", .raw payload⟩]
  | .error requestId code message =>
    [⟨"type", .string (text "error")⟩, ⟨"id", .integer requestId⟩, ⟨"code", .string code⟩,
      ⟨"message", .string message⟩]

/-! ### What a successful call has transmitted -/

/-- The call has put this record, and nothing else, on the socket. -/
def SendReply.Sent (reply : SendReply) (json : Bytes) : Prop :=
  reply.record = some json ∧ json.length ≤ maxPacket

theorem not_ok_of_refused {client : Option Client} {e : Result} {errno : Nat}
    {record : Option Bytes} {reply : SendReply}
    (h : some (setResult client e errno record) = some reply) (he : e ≠ .ok) :
    reply.result ≠ .ok := by
  rw [← Option.some.inj h]
  exact he

theorem sendJson_ok {sys : System} {client : Option Client} {json : Bytes} {reply : SendReply}
    (h : sendJson sys client (some json) = some reply) (hok : reply.result = .ok) :
    reply.Sent json := by
  rw [sendJson] at h
  by_cases hvalid : validClient client = false
  · rw [if_pos hvalid] at h
    exact absurd hok (not_ok_of_refused h (by decide))
  rw [if_neg hvalid] at h
  by_cases hshape : (json.length = 0 || jsonObjectShape json = false) = true
  · simp only [if_pos hshape] at h
    exact absurd hok (not_ok_of_refused h (by decide))
  simp only [if_neg hshape] at h
  by_cases hsize : json.length > maxPacket
  · rw [if_pos hsize] at h
    exact absurd hok (not_ok_of_refused h (by decide))
  rw [if_neg hsize] at h
  cases hsent : sendAgain sys.sends with
  | none => simp [hsent] at h
  | some sent =>
    rw [hsent, Option.map_some] at h
    cases sent with
    | error errno => exact absurd hok (not_ok_of_refused h (by decide))
    | bytes n =>
      by_cases hn : n ≠ json.length
      · simp only [if_pos hn] at h
        exact absurd hok (not_ok_of_refused h (by decide))
      · simp only [if_neg hn] at h
        rw [← Option.some.inj h]
        exact ⟨rfl, not_lt.mp hsize⟩

theorem sendFormat_ok {sys : System} {print alloc : Nat} {client : Option Client}
    {pieces : List Bytes} {reply : SendReply}
    (h : sendFormat sys print alloc client pieces = some reply) (hok : reply.result = .ok) :
    reply.Sent pieces.flatten := by
  rw [sendFormat] at h
  split_ifs at h
  all_goals first
    | exact sendJson_ok h hok
    | exact absurd hok (not_ok_of_refused h (by decide))

theorem escapedJsonString_error {allocated : Bool} {input : Option Bytes} {e : Result}
    (h : escapedJsonString allocated input = .error e) : e ≠ .ok := by
  cases input with
  | none =>
    cases h
    decide
  | some s =>
    rw [escapedJsonString] at h
    split at h
    · cases h
      decide
    split at h
    · cases h
      decide
    split at h
    · cases h
    · cases h
      decide

/-- A sender that escapes an argument gets to its format only with the escaped argument. -/
theorem escape_then {allocated : Bool} {client : Option Client} {input : Bytes}
    {next : Bytes → Option SendReply} {reply : SendReply}
    (h : (match escapedJsonString allocated (some input) with
      | .error e => escapeFailed client e
      | .ok escaped => next escaped) = some reply) (hok : reply.result = .ok) :
    input.length ≤ maxPacket ∧ next (writeEscaped input) = some reply := by
  cases hescaped : escapedJsonString allocated (some input) with
  | error e =>
    rw [hescaped] at h
    exact absurd hok (not_ok_of_refused h (escapedJsonString_error hescaped))
  | ok escaped =>
    rw [hescaped] at h
    obtain ⟨s, hs, hsize, rfl⟩ := escapedJsonString_ok hescaped
    cases hs
    exact ⟨hsize, h⟩

theorem validate_then {client : Option Client} {payload : Bytes} {next : Option SendReply}
    {reply : SendReply}
    (h : (match validateRawValue (some payload) with
      | some e => some (setResult client e 0 none)
      | none => next) = some reply) (hok : reply.result = .ok) : next = some reply := by
  cases hvalid : validateRawValue (some payload) with
  | none => rwa [hvalid] at h
  | some e =>
    rw [hvalid] at h
    have he : e ≠ .ok := by
      rintro rfl
      rw [validateRawValue] at hvalid
      split_ifs at hvalid <;> cases hvalid
    exact absurd hok (not_ok_of_refused h he)

/-- The record is the text of these fields, whose strings were short enough to be escaped. -/
def SendReply.Transmitted (reply : SendReply) (fields : List Field) : Prop :=
  reply.Sent (recordText fields) ∧
    ∀ f ∈ fields, ∀ s, f.value = .string s → s.length ≤ maxPacket

theorem type_names : writeEscaped (text "hello") = text "hello" ∧
    writeEscaped (text "subscribe") = text "subscribe" ∧
    writeEscaped (text "call") = text "call" ∧ writeEscaped (text "event") = text "event" ∧
    writeEscaped (text "return") = text "return" ∧
    writeEscaped (text "error") = text "error" := by decide +kernel

theorem short_types : (text "hello").length ≤ maxPacket ∧ (text "subscribe").length ≤ maxPacket ∧
    (text "call").length ≤ maxPacket ∧ (text "event").length ≤ maxPacket ∧
    (text "return").length ≤ maxPacket ∧ (text "error").length ≤ maxPacket := by decide +kernel

theorem hello_transmitted {sys : System} {client : Option Client} {componentId : Bytes}
    {generation : UInt64} {reply : SendReply}
    (h : sendHello sys client (some componentId) generation = some reply)
    (hok : reply.result = .ok) :
    reply.Transmitted (Request.hello componentId generation).fields := by
  obtain ⟨hsize, h⟩ := escape_then h hok
  refine ⟨?_, by simp [Request.fields, hsize, short_types]⟩
  convert sendFormat_ok h hok using 1
  simp only [recordText, Request.fields, List.map_cons, Field.text, FieldValue.text, type_names]
  simp [commaJoin, text]

theorem subscribe_transmitted {sys : System} {client : Option Client} {topic : Bytes}
    {reply : SendReply} (h : sendSubscribe sys client (some topic) = some reply)
    (hok : reply.result = .ok) : reply.Transmitted (Request.subscribe topic).fields := by
  obtain ⟨hsize, h⟩ := escape_then h hok
  refine ⟨?_, by simp [Request.fields, hsize, short_types]⟩
  convert sendFormat_ok h hok using 1
  simp only [recordText, Request.fields, List.map_cons, Field.text, FieldValue.text, type_names]
  simp [commaJoin, text]

theorem call_transmitted {sys : System} {client : Option Client} {requestId : UInt64}
    {target method payload : Bytes} {deadlineMs : UInt64} {idempotent : Bool} {reply : SendReply}
    (h : sendCallJson sys client requestId (some target) (some method) (some payload) deadlineMs
      idempotent = some reply) (hok : reply.result = .ok) :
    reply.Transmitted
      (Request.call requestId target method payload deadlineMs idempotent).fields := by
  have h := validate_then h hok
  by_cases hempty : ((some target).getD [] = [] || (some method).getD [] = []) = true
  · rw [if_pos hempty] at h
    exact absurd hok (not_ok_of_refused h (by decide))
  rw [if_neg hempty] at h
  obtain ⟨htarget, h⟩ := escape_then h hok
  obtain ⟨hmethod, h⟩ := escape_then h hok
  refine ⟨?_, by simp [Request.fields, htarget, hmethod, short_types]⟩
  convert sendFormat_ok h hok using 1
  simp only [recordText, Request.fields, List.map_cons, Field.text, FieldValue.text, type_names]
  simp [commaJoin, text]

theorem event_transmitted {sys : System} {client : Option Client} {topic payload : Bytes}
    {reply : SendReply} (h : sendEventJson sys client (some topic) (some payload) = some reply)
    (hok : reply.result = .ok) : reply.Transmitted (Request.event topic payload).fields := by
  obtain ⟨htopic, h⟩ := escape_then (validate_then h hok) hok
  refine ⟨?_, by simp [Request.fields, htopic, short_types]⟩
  convert sendFormat_ok h hok using 1
  simp only [recordText, Request.fields, List.map_cons, Field.text, FieldValue.text, type_names]
  simp [commaJoin, text]

theorem result_transmitted {sys : System} {client : Option Client} {requestId : UInt64}
    {payload : Bytes} {reply : SendReply}
    (h : sendReturnJson sys client requestId (some payload) = some reply)
    (hok : reply.result = .ok) : reply.Transmitted (Request.result requestId payload).fields := by
  have h := validate_then h hok
  refine ⟨?_, by simp [Request.fields, short_types]⟩
  convert sendFormat_ok h hok using 1
  simp only [recordText, Request.fields, List.map_cons, Field.text, FieldValue.text, type_names]
  simp [commaJoin, text]

theorem error_transmitted {sys : System} {client : Option Client} {requestId : UInt64}
    {code message : Bytes} {reply : SendReply}
    (h : sendError sys client requestId (some code) (some message) = some reply)
    (hok : reply.result = .ok) :
    reply.Transmitted (Request.error requestId code message).fields := by
  obtain ⟨hcode, h⟩ := escape_then h hok
  obtain ⟨hmessage, h⟩ := escape_then h hok
  rw [Option.getD_some] at hcode hmessage
  refine ⟨?_, by simp [Request.fields, hcode, hmessage, short_types]⟩
  convert sendFormat_ok h hok using 1
  simp only [recordText, Request.fields, List.map_cons, Field.text, FieldValue.text, type_names]
  simp [commaJoin, text]

theorem Request.transmitted {sys : System} {client : Option Client} {q : Request}
    {reply : SendReply} (h : q.send sys client = some reply) (hok : reply.result = .ok) :
    reply.Transmitted q.fields := by
  cases q with
  | hello => exact hello_transmitted h hok
  | subscribe => exact subscribe_transmitted h hok
  | call => exact call_transmitted h hok
  | event => exact event_transmitted h hok
  | result => exact result_transmitted h hok
  | error => exact error_transmitted h hok

/-! ### The keys and values of a request -/

/-- Names that stand for themselves in a record, no two the same. -/
def wellNamed (keys : List String) : Bool :=
  decide (keys.map text).Nodup && keys.all fun key => text key ≠ [] && (text key).all dialect.plain

def recordKeys : List (List String) :=
  [["type", "component", "generation"], ["type", "topic"],
    ["type", "id", "target", "method", "payload", "deadline_ms", "idempotent"],
    ["type", "topic", "payload"], ["type", "id", "payload"], ["type", "id", "code", "message"]]

theorem Request.wellNamed (q : Request) : wellNamed (q.fields.map Field.key) = true := by
  have hall : ∀ keys ∈ recordKeys, Mipc.wellNamed keys = true := by decide +kernel
  refine hall _ ?_
  cases q <;> simp [Request.fields, recordKeys]

theorem fields_of_wellNamed {fields : List Field} (h : wellNamed (fields.map Field.key) = true) :
    (fields.map fun f => text f.key).Nodup ∧ (∀ f ∈ fields, text f.key ≠ []) ∧
      ∀ f ∈ fields, f.Plain := by
  rw [Mipc.wellNamed, Bool.and_eq_true, decide_eq_true_eq, List.map_map, List.all_eq_true] at h
  refine ⟨h.1, fun f hf => ?_, fun f hf => ?_⟩
  · have hkey := h.2 f.key (List.mem_map_of_mem hf)
    simp only [Bool.and_eq_true, decide_eq_true_eq] at hkey
    exact hkey.1
  · have hkey := h.2 f.key (List.mem_map_of_mem hf)
    rw [Bool.and_eq_true, List.all_eq_true] at hkey
    exact hkey.2

theorem bool_valueText (b : Bool) : ValueText (if b then text "true" else text "false") := by
  cases b <;> exact ⟨[], by decide +kernel, by simp⟩

theorem Request.values_valid {q : Request} (hpayload : ∀ json ∈ q.payload, ValueText json)
    (hshort : ∀ f ∈ q.fields, ∀ s, f.value = .string s → s.length ≤ maxPacket) :
    ∀ f ∈ q.fields, f.value.Valid := by
  cases q with
  | hello | subscribe | error =>
    simp only [Request.fields, List.forall_mem_cons, FieldValue.Valid] at hshort ⊢
    simpa using hshort
  | call requestId target method payload deadlineMs idempotent =>
    have hpayload := hpayload payload rfl
    simp only [Request.fields, List.forall_mem_cons, FieldValue.Valid] at hshort ⊢
    simpa [hpayload, bool_valueText] using hshort
  | event topic payload | result requestId payload =>
    have hpayload := hpayload payload rfl
    simp only [Request.fields, List.forall_mem_cons, FieldValue.Valid] at hshort ⊢
    simpa [hpayload] using hshort

/-- Whenever a sender succeeds, its record is within the packet limit and every argument is
read back from it; and what the escaper writes is as long as it has counted. -/
theorem sent_reads_back (sys : System) (client : Option Client) (q : Request)
    (hpayload : ∀ json ∈ q.payload, ValueText json) {reply : SendReply}
    (h : q.send sys client = some reply) (hok : reply.result = .ok) :
    (∃ record, reply.record = some record ∧ record.length ≤ maxPacket ∧
      ∀ f ∈ q.fields, f.ReadFrom record) ∧
    ∀ input n, escapedLength 0 input = some n → (writeEscaped input).length = n := by
  obtain ⟨⟨hrecord, hsize⟩, hshort⟩ := q.transmitted h hok
  obtain ⟨hkeys, hempty, hplain⟩ := fields_of_wellNamed q.wellNamed
  refine ⟨⟨_, hrecord, hsize, fun f hf => ?_⟩, fun input n hlength => ?_⟩
  · exact readFrom_record (q.values_valid hpayload hshort) hplain hkeys hempty hf
  · simpa using length_writeEscaped hlength

/-- The payload of an event, sent as ` 1 `, is read back as `1`. -/
theorem sent_reads_back_event :
    jsonGetRaw (text "\x7b\"type\":\"event\",\"topic\":\"a\",\"payload\": 1 \x7d")
      (text "payload") = .ok (text "1") := by
  have hpayload : ∀ json ∈ (Request.event (text "a") (text " 1 ")).payload, ValueText json := by
    rintro json ⟨rfl⟩
    exact ⟨text " ", by decide +kernel, List.all_eq_true.mp rfl⟩
  obtain ⟨⟨record, hrecord, -, hread⟩, -⟩ :=
    sent_reads_back ⟨fun _ => true, fun _ => true, [.bytes 42]⟩ (some ⟨3, 0⟩)
      (.event (text "a") (text " 1 ")) hpayload rfl rfl
  cases hrecord
  exact hread ⟨"payload", .raw (text " 1 ")⟩ (by simp [Request.fields])

end Msys.Mipc
