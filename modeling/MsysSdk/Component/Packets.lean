import MsysSdk.Component.Model
import MsysSdk.Mipc.Dispatch

/-! What the loop makes of a packet does not depend on what its stack buffers held, and what a
sender has put on the socket is its record, cut off at most. -/

namespace Msys.Component
open Libc Mipc Json

/-! ### The stack buffers -/

theorem string_exact {json key : CString} {body : List (Piece UInt8)} (h : StringAt json key body)
    (m : Buffer) {capacity : Nat} (hc : 1 ≤ capacity) :
    (jsonGetString json.bytes key.bytes m capacity).result = .ok ↔
      ∃ s : Bytes, decode body = s.map .byte ∧ s.length < capacity := by
  have hexact := jsonGetString_exact h m hc
  cases hpaired : unpaired (decode body) with
  | true =>
    rw [hexact.broken hpaired]
    refine iff_of_false (by decide) ?_
    rintro ⟨s, hs, -⟩
    rw [hs, unpaired, List.any_map] at hpaired
    obtain ⟨b, -, hb⟩ := List.any_eq_true.mp hpaired
    cases hb
  | false =>
    obtain ⟨s, hs, -, -, hresult⟩ := hexact.whole hpaired
    rw [hresult, hs]
    constructor
    · intro hok
      by_cases hroom : s.length < capacity
      · exact ⟨s, rfl, hroom⟩
      · rw [if_neg hroom] at hok
        cases hok
    · rintro ⟨t, ht, hroom⟩
      rw [(List.map_injective_iff.mpr byte_injective) ht, if_pos hroom]

/-- A string is found or not, and is the same, whatever was in the buffer. -/
theorem jsonGetString_buffer (json key : CString) (m m' : Buffer) {capacity : Nat}
    (hc : 1 ≤ capacity) :
    ((jsonGetString json.bytes key.bytes m capacity).result = .ok ↔
      (jsonGetString json.bytes key.bytes m' capacity).result = .ok) ∧
    ((jsonGetString json.bytes key.bytes m capacity).result = .ok →
      (jsonGetString json.bytes key.bytes m capacity).buffer.string capacity =
        (jsonGetString json.bytes key.bytes m' capacity).buffer.string capacity) := by
  by_cases h : ∃ body, StringAt json key body
  · obtain ⟨body, hbody⟩ := h
    have hiff := (string_exact hbody m hc).trans (string_exact hbody m' hc).symm
    refine ⟨hiff, fun hok => ?_⟩
    obtain ⟨-, -, hstring⟩ := Reading.string_eq (a := ⟨json, key, m, capacity, hok⟩) hbody
    obtain ⟨-, -, hstring'⟩ := Reading.string_eq (a := ⟨json, key, m', capacity, hiff.mp hok⟩) hbody
    exact List.map_injective_iff.mpr byte_injective (hstring.trans hstring'.symm)
  · obtain ⟨e, he, -, hcall⟩ := jsonGetString_other (not_exists.mp h) m hc
    obtain ⟨e', he', -, hcall'⟩ := jsonGetString_other (not_exists.mp h) m' hc
    rw [hcall, hcall']
    exact ⟨iff_of_false he he', fun hok => absurd hok he⟩

/-- Memory that has been cleared. -/
def zeroed : Buffer := fun _ => 0

theorem handle_buffers (packet : CString) (m m' : Buffer) :
    handle m m' packet.bytes = handle zeroed zeroed packet.bytes := by
  have htype := jsonGetString_buffer packet (cstring "type" (by decide +kernel)) m zeroed
    (by decide : 1 ≤ 32)
  have hmethod := jsonGetString_buffer packet (cstring "method" (by decide +kernel)) m' zeroed
    (by decide : 1 ≤ 64)
  simp only [cstring] at htype hmethod
  unfold handle
  by_cases hok : (jsonGetString packet.bytes (text "type") m 32).result = .ok
  swap
  · have hzero : (jsonGetString packet.bytes (text "type") zeroed 32).result ≠ .ok :=
      fun h => hok (htype.1.mpr h)
    simp only [ne_eq, hok, hzero, not_false_eq_true, if_true]
  simp only [ne_eq, hok, htype.1.mp hok, not_true_eq_false, if_false, htype.2 hok]
  by_cases hid : (jsonGetU64 packet.bytes (text "id")).1 = .ok
  swap
  · simp only [hid, not_false_eq_true, decide_true, Bool.true_or, if_true]
  by_cases hread : (jsonGetString packet.bytes (text "method") m' 64).result = .ok
  · simp only [hid, hread, hmethod.1.mp hread, hmethod.2 hread]
  · have hzero : (jsonGetString packet.bytes (text "method") zeroed 64).result ≠ .ok :=
      fun h => hread (hmethod.1.mpr h)
    simp [hid, hread, hzero]

/-- The packet as a C string. -/
def content (packet : Bytes) : Bytes := packet.takeWhile (· ≠ 0)

theorem content_terminated (packet : Bytes) : 0 ∉ content packet := fun h => by
  simpa using List.mem_takeWhile_imp h

theorem content_length (packet : Bytes) : (content packet).length ≤ packet.length :=
  (List.takeWhile_prefix _).length_le

/-- The record that answers a packet, if any does. -/
def answer (packet : Bytes) : Option Bytes :=
  match handle zeroed zeroed packet with
  | .reply q => some (recordText q.fields)
  | _ => none

/-- The packet ends the loop. -/
def Stops (packet : Bytes) : Prop := handle zeroed zeroed packet = .stop

/-! ### What a sender puts on the socket -/

/-- Nothing, or the record up to some byte. -/
def Within (json : Bytes) (reply : SendReply) : Prop :=
  ∀ record ∈ reply.record, record <+: json

theorem within_setResult {json : Bytes} {client : Option Client} {e : Result} {errno : Nat} :
    Within json (setResult client e errno none) := fun _ h => absurd h (by simp [setResult])

section
variable {sys : System} {client : Option Client} {reply : SendReply}

theorem sendJson_within {json : Bytes} (h : sendJson sys client (some json) = some reply) :
    Within json reply := by
  rw [sendJson] at h
  split_ifs at h
  · cases h
    exact within_setResult
  · cases h
    exact within_setResult
  · cases h
    exact within_setResult
  · obtain ⟨sent, -, h⟩ := Option.map_eq_some_iff.mp h
    cases sent with
    | error errno =>
      cases h
      exact within_setResult
    | bytes n =>
      dsimp only at h
      split_ifs at h
      · cases h
        rintro record ⟨⟩
        exact List.take_prefix n json
      · cases h
        rintro record ⟨⟩
        exact List.prefix_rfl

theorem sendFormat_within {print alloc : Nat} {pieces : List Bytes}
    (h : sendFormat sys print alloc client pieces = some reply) : Within pieces.flatten reply := by
  rw [sendFormat] at h
  split_ifs at h
  all_goals first
    | exact sendJson_within h
    | exact Option.some.inj h ▸ within_setResult

theorem escape_within {allocated : Bool} {input json : Bytes}
    {next : Bytes → Option SendReply}
    (h : (match escapedJsonString allocated (some input) with
      | .error e => escapeFailed client e
      | .ok escaped => next escaped) = some reply)
    (hnext : next (writeEscaped input) = some reply → Within json reply) : Within json reply := by
  cases hescaped : escapedJsonString allocated (some input) with
  | error e =>
    rw [hescaped] at h
    exact Option.some.inj h ▸ within_setResult
  | ok escaped =>
    rw [hescaped] at h
    obtain ⟨s, hs, -, rfl⟩ := escapedJsonString_ok hescaped
    cases hs
    exact hnext h

theorem validate_within {payload json : Bytes} {next : Option SendReply}
    (h : (match validateRawValue (some payload) with
      | some e => some (setResult client e 0 none)
      | none => next) = some reply) (hnext : next = some reply → Within json reply) :
    Within json reply := by
  cases hvalid : validateRawValue (some payload) with
  | none =>
    rw [hvalid] at h
    exact hnext h
  | some e =>
    rw [hvalid] at h
    exact Option.some.inj h ▸ within_setResult

/-- A request is on the socket as far as the kernel took it. -/
theorem send_within {q : Request} (h : q.send sys client = some reply) :
    Within (recordText q.fields) reply := by
  have finish : ∀ {print alloc : Nat} {pieces : List Bytes},
      pieces.flatten = recordText q.fields →
      sendFormat sys print alloc client pieces = some reply → Within (recordText q.fields) reply :=
    fun hpieces h => hpieces ▸ sendFormat_within h
  cases q with
  | hello componentId generation =>
    refine escape_within h (finish ?_)
    simp only [recordText, Request.fields, List.map_cons, Field.text, FieldValue.text, type_names]
    simp [commaJoin, text]
  | subscribe topic =>
    refine escape_within h (finish ?_)
    simp only [recordText, Request.fields, List.map_cons, Field.text, FieldValue.text, type_names]
    simp [commaJoin, text]
  | call requestId target method payload deadlineMs idempotent =>
    refine validate_within h fun h => ?_
    by_cases hempty : ((some target).getD [] = [] || (some method).getD [] = []) = true
    · rw [if_pos hempty] at h
      exact Option.some.inj h ▸ within_setResult
    rw [if_neg hempty] at h
    refine escape_within h fun h => escape_within h (finish ?_)
    simp only [recordText, Request.fields, List.map_cons, Field.text, FieldValue.text, type_names]
    simp [commaJoin, text]
  | event topic payload =>
    refine validate_within h fun h => escape_within h (finish ?_)
    simp only [recordText, Request.fields, List.map_cons, Field.text, FieldValue.text, type_names]
    simp [commaJoin, text]
  | result requestId payload =>
    refine validate_within h (finish ?_)
    simp only [recordText, Request.fields, List.map_cons, Field.text, FieldValue.text, type_names]
    simp [commaJoin, text]
  | error requestId code message =>
    refine escape_within h fun h => escape_within h (finish ?_)
    simp only [recordText, Request.fields, List.map_cons, Field.text, FieldValue.text, type_names]
    simp [commaJoin, text]

/-- The fields as they are formatted, for a request that needs no arguments. -/
theorem sendReady_within (h : sendReady sys client = some reply) :
    Within (text "\x7b\"type\":\"ready\"\x7d") reply := sendJson_within h

/-- The hello is the one of some generation. -/
theorem sendHelloFromEnv_cases {getenv : String → Option Bytes}
    (h : sendHelloFromEnv sys getenv client = some reply) :
    ∃ n, (reply.result = .ok →
        reply.Transmitted (Request.hello (environmentComponent getenv) n).fields) ∧
      Within (recordText (Request.hello (environmentComponent getenv) n).fields) reply := by
  have sent : ∀ n, sendHello sys client (some (environmentComponent getenv)) n = some reply →
      ∃ n, (reply.result = .ok →
          reply.Transmitted (Request.hello (environmentComponent getenv) n).fields) ∧
        Within (recordText (Request.hello (environmentComponent getenv) n).fields) reply :=
    fun n h => ⟨n, fun hok => hello_transmitted h hok,
      send_within (q := .hello (environmentComponent getenv) n) h⟩
  have refused : ∀ {e : Nat}, some (setResult client .invalidArgument e none) = some reply →
      ∃ n, (reply.result = .ok →
          reply.Transmitted (Request.hello (environmentComponent getenv) n).fields) ∧
        Within (recordText (Request.hello (environmentComponent getenv) n).fields) reply := by
    intro e h
    refine ⟨0, fun hok => absurd hok (not_ok_of_refused h (by decide)), ?_⟩
    exact Option.some.inj h ▸ within_setResult
  unfold sendHelloFromEnv at h
  dsimp only at h
  split at h
  · exact sent 0 h
  · split_ifs at h
    · exact refused h
    · exact refused h
    · exact sent _ h

end

end Msys.Component
