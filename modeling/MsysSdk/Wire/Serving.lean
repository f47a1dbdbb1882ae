import MsysSdk.Channel.Answering
import MsysSdk.Wire.Decoding
import MsysSdk.Wire.Reading

/-! A C client calls a Python component: the pump answers the calls in turn, and the C accessors
find in each answer the id of its call and what the handler made of it. -/

namespace Msys.Wire
open Python Transition

/-! ### The call -/

/-- The arguments of `msys_mipc_send_call_json`. -/
structure Call where
  id : UInt64
  target : Libc.Bytes
  method : Libc.Bytes
  payload : Libc.Bytes
  deadline : UInt64
  idempotent : Bool

def Call.request (c : Call) : Mipc.Request :=
  .call c.id c.target c.method c.payload c.deadline c.idempotent

def Call.packet (c : Call) : Bytes := Mipc.recordText c.request.fields

/-- The call was transmitted, and its arguments denote Python values. -/
structure Call.Sound (py : Interpreter) (c : Call) : Prop where
  sent : ∃ sys client reply, c.request.send sys client = some reply ∧ reply.result = .ok
  fields : ∃ d, List.Forall₂ (FieldDenotes py) c.request.fields d

/-- The pump finds the id of the call. -/
theorem Call.Sound.inboundCall {py : Interpreter} {c : Call} (h : c.Sound py) :
    Channel.inboundCall py (.data c.packet) = some (c.id.toNat : Int) := by
  obtain ⟨sys, client, reply, hsend, hok⟩ := h.sent
  obtain ⟨⟨-, hlen⟩, -⟩ := c.request.transmitted hsend hok
  obtain ⟨d, hd⟩ := h.fields
  obtain ⟨hkeys, -, -⟩ := Mipc.fields_of_wellNamed c.request.wellNamed
  have hread := loads_record hd (by simp [Call.request, Mipc.Request.fields])
    (plain_fields c.request) hkeys
  have haccepted : Accepted py c.packet d :=
    accepted_of_loads (List.cons_ne_nil _ _) hlen (hread false) (hread true)
  rw [Channel.inboundCall_of_ok haccepted.channel]
  rw [Call.request, Mipc.Request.fields] at hd
  -- the first two fields are the type and the id
  obtain ⟨⟨k, v⟩, d₁, htype, hrest, rfl⟩ := List.forall₂_cons_left_iff.mp hd
  obtain ⟨⟨k', v'⟩, d₂, hid, -, rfl⟩ := List.forall₂_cons_left_iff.mp hrest
  obtain ⟨rfl, u, hu, rfl⟩ := htype
  obtain ⟨rfl, rfl⟩ := hid
  have hcall : decodeUtf8 (Libc.text "call") = some (str "call") := by decide +kernel
  obtain rfl := Option.some.inj (hcall.symm.trans hu)
  have hne : str "id" ≠ str "type" := by decide
  simp [Channel.callId, field, Dict.get, Value.isKey, Value.asInt, hne.symm]

/-! ### The answer -/

/-- The message that answers a call: the return if it can be encoded, else an error. -/
def answer (py : Interpreter) (id : Int) : Channel.Handled → Message
  | .returned (.dict p) =>
    match Channel.encode py (.dict (Channel.returnRecord id (.dict p))) with
    | .ok _ => .reply id p
    | .error e => .failure id e.text
  | .returned _ => .failure id Channel.notObject
  | .raised text => .failure id text
  | .escaped => .ready

theorem answer_record (py : Interpreter) (id : Int) {h : Channel.Handled}
    (hp : Channel.printable h = true) :
    (answer py id h).record = Channel.replyRecord py id h := by
  cases h with
  | escaped => cases hp
  | raised text => rfl
  | returned v =>
    cases v with
    | dict p =>
      rw [answer, Channel.replyRecord]
      cases Channel.encode py (.dict (Channel.returnRecord id (.dict p))) <;> rfl
    | _ => rfl

theorem answer_integers (py : Interpreter) {id : Int} (hid : InRange id) (h : Channel.Handled) :
    ∀ i ∈ (answer py id h).integers, InRange i := by
  unfold answer
  split
  · split <;> simp [Message.integers, hid]
  · simp [Message.integers, hid]
  · simp [Message.integers, hid]
  · simp [Message.integers]

/-- What was read can be told: the answer is a record that can be encoded. -/
theorem answer_encodes (py : Interpreter) {id : Int} (hid : InRange id) {h : Channel.Handled}
    (hp : Channel.printable h = true) :
    ∃ data, Channel.encode py (.dict (answer py id h).record) = .ok data := by
  have hshort : id.natAbs < 10 ^ intMaxStrDigits := by
    have habs : id.natAbs < 2 ^ 64 := by
      have := hid.1
      have := hid.2
      omega
    exact habs.trans_le ((by norm_num : 2 ^ 64 ≤ 10 ^ 20).trans
      (Nat.pow_le_pow_right (by decide) (by decide)))
  have failure : ∀ text, encodable (text.take 256) = true →
      ∃ data, Channel.encode py (.dict (Channel.errorRecord id text)) = .ok data :=
    fun text => (Channel.encode_errorRecord py hshort).mpr
  cases h with
  | escaped => cases hp
  | raised text => exact failure text hp
  | returned v =>
    cases v with
    | dict p =>
      rw [answer]
      split
      next data hdata => exact ⟨data, hdata⟩
      next e he => exact failure _ (Channel.encodable_take 256 (Channel.encode_error he))
    | _ => exact failure _ (Channel.encodable_take 256 (encodable_str _))

theorem dumps_of_encode {py : Interpreter} {v : Value} {data : Bytes}
    (h : Channel.encode py v = .ok data) : dumps py false v = .ok data ∧ data.length ≤ maxPacket := by
  unfold Channel.encode at h
  split at h
  · cases h
  · cases h
  next data' hdata =>
    split_ifs at h with hlarge
    cases h
    exact ⟨hdata, Nat.le_of_not_lt hlarge⟩

/-- The handler's end can be told to a C client: an exception has a text, without a NUL, that can be
encoded, and the dict it returns is not too deep for the scanner. -/
structure Tellable (py : Interpreter) (id : Int) (h : Channel.Handled) : Prop where
  printable : Channel.printable h = true
  strings : ∀ s ∈ (answer py id h).strings, .ofNat 0 ∉ s
  payload : ∀ payload ∈ (answer py id h).payload, Scannable py payload

/-- The answer is a packet in which the C accessors read every field. -/
theorem Tellable.readByC {py : Interpreter} {id : Int} {h : Channel.Handled}
    (ht : Tellable py id h) (hid : InRange id) :
    ∃ data, Channel.encode py (.dict (answer py id h).record) = .ok data ∧
      ∀ f ∈ (answer py id h).fields (compact py false), f.ReadFrom data := by
  obtain ⟨data, hdata⟩ := answer_encodes py hid ht.printable
  obtain ⟨hdumps, hlen⟩ := dumps_of_encode hdata
  have hm : (answer py id h).Expressible := ⟨answer_integers py hid h, ht.strings⟩
  refine ⟨data, hdata, ?_⟩
  have hpacket := Message.packet hm.integers hdumps
  rw [hpacket] at hlen ⊢
  obtain ⟨hkeys, hempty, hplain⟩ :=
    Mipc.fields_of_wellNamed ((answer py id h).wellNamed (compact py false))
  intro f hf
  exact Mipc.readFrom_record (Message.fields_valid ht.payload hdumps hlen) hplain hkeys hempty hf

/-! ### Every run of the pump -/

theorem inboundCalls {py : Interpreter} {wire : List Channel.Received} {calls : List Call}
    (hsound : ∀ c ∈ calls, c.Sound py)
    (hwire : wire.filter (fun r => (Channel.inboundCall py r).isSome) =
      calls.map fun c => .data c.packet) :
    wire.filterMap (Channel.inboundCall py) = calls.map fun c => (c.id.toNat : Int) := by
  have hfilter : wire.filterMap (Channel.inboundCall py) =
      (wire.filter fun r => (Channel.inboundCall py r).isSome).filterMap
        (Channel.inboundCall py) := by
    rw [List.filterMap_filter]
    refine List.filterMap_congr fun r _ => ?_
    cases Channel.inboundCall py r <;> rfl
  rw [hfilter, hwire, List.filterMap_map]
  have hcalls : calls.filterMap (Channel.inboundCall py ∘ fun c => .data c.packet) =
      calls.filterMap fun c => some (c.id.toNat : Int) :=
    List.filterMap_congr fun c hc => (hsound c hc).inboundCall
  rw [hcalls, List.filterMap_eq_map']

/-- However the pump's steps mix with the other threads, the calls of C clients are handled in the
order they came, each is answered by its own packet, C reads every field of that packet, and the
pump can always get it out and come back. -/
theorem c_calls_answered (cfg : Channel.Config) (hh : cfg.handles = true) (s : Channel.State)
    (h : Reach (Channel.step cfg) (Channel.Serving cfg) Channel.init s) (calls : List Call)
    (hsound : ∀ c ∈ calls, c.Sound cfg.py)
    (hwire : s.wire.filter (fun r => (Channel.inboundCall cfg.py r).isSome) =
      calls.map fun c => .data c.packet)
    (htell : ∀ p ∈ s.handled, Tellable cfg.py p.1 p.2) :
    (∃ waiting, s.handled.map Prod.fst ++ waiting = calls.map (fun c => (c.id.toNat : Int)) ∧
      waiting.length ≤ 1) ∧
    Channel.sentBy .pump s.transmitted ++ Channel.inFlight s.pump (s.send .pump) =
      s.handled.map (fun p => .dict (answer cfg.py p.1 p.2).record) ∧
    (∀ p ∈ s.handled, ∃ data,
      Channel.encode cfg.py (.dict (answer cfg.py p.1 p.2).record) = .ok data ∧
      ∀ f ∈ (answer cfg.py p.1 p.2).fields (compact cfg.py false), f.ReadFrom data) ∧
    (s.pump.replies = true → Channel.ComesBack cfg s s.handled) := by
  have hprintable := fun p hp => (htell p hp).printable
  obtain ⟨-, hcalls, hreplies⟩ := (Channel.reach_server hh h).inTurn hprintable
  rw [inboundCalls hsound hwire] at hcalls
  refine ⟨⟨s.pump.call?.toList, hcalls.symm, ?_⟩, ?_, fun p hp => (htell p hp).readByC ?_,
    fun hp => Channel.comesBack_of_replying hh h hp hprintable⟩
  · cases s.pump.call? <;> simp
  · rw [hreplies]
    exact List.map_congr_left fun p hp => by rw [answer_record _ _ (hprintable p hp)]
  · have hmem : p.1 ∈ calls.map fun c => (c.id.toNat : Int) := by
      rw [hcalls]
      exact List.mem_append_left _ (List.mem_map_of_mem hp)
    obtain ⟨c, -, hc⟩ := List.mem_map.mp hmem
    rw [← hc]
    have hlt := c.id.toNat_lt
    exact ⟨Int.natCast_nonneg _, by omega⟩

/-- A call of the method `a` with an empty payload. -/
def emptyCall : Call := ⟨7, Libc.text "t", Libc.text "a", Libc.text "{}", 0, false⟩

theorem emptyCall_sound : emptyCall.Sound plain where
  sent := ⟨⟨fun _ => true, fun _ => true, [.bytes 96]⟩, some ⟨3, 0⟩, _, rfl, by decide +kernel⟩
  fields := by
    refine ⟨[(.str (str "type"), .str (str "call")), (.str (str "id"), .int 7),
      (.str (str "target"), .str (str "t")), (.str (str "method"), .str (str "a")),
      (.str (str "payload"), .dict []), (.str (str "deadline_ms"), .int 0),
      (.str (str "idempotent"), .bool false)], ?_⟩
    exact .cons ⟨rfl, _, by decide +kernel, rfl⟩ (.cons ⟨rfl, rfl⟩
      (.cons ⟨rfl, _, by decide +kernel, rfl⟩ (.cons ⟨rfl, _, by decide +kernel, rfl⟩
        (.cons ⟨rfl, fun finiteOnly => by cases finiteOnly <;> decide +kernel⟩
          (.cons ⟨rfl, rfl⟩ (.cons ⟨rfl, fun finiteOnly => by
            cases finiteOnly <;> decide +kernel⟩ .nil))))))

def emptyReturn : Channel.Handled := .returned (.dict [])

theorem emptyReturn_answer : answer plain 7 emptyReturn = .reply 7 [] := by
  have hencode : Channel.encode plain (.dict (Channel.returnRecord 7 (.dict []))) =
      .ok (bytes "\x7b\"type\":\"return\",\"id\":7,\"payload\":\x7b\x7d\x7d") := by
    decide +kernel
  rw [emptyReturn, answer, hencode]

theorem emptyReturn_tellable : Tellable plain 7 emptyReturn where
  printable := rfl
  strings := by simp [emptyReturn_answer, Message.strings]
  payload := by
    rw [emptyReturn_answer]
    rintro payload ⟨rfl⟩
    exact ⟨⟨by simp, trivial⟩, rfl, by decide⟩

/-- The pump is back at its loop, and the answer has been sent. -/
theorem c_calls_answered_return : ∃ s data,
    Reach (Channel.step (Channel.withTimeout 5)) (Channel.Serving (Channel.withTimeout 5))
      Channel.init s ∧
    s.handled = [(7, emptyReturn)] ∧ s.pump = .loop ∧
    Channel.sentBy .pump s.transmitted = [.dict (answer plain 7 emptyReturn).record] ∧
    Channel.encode plain (.dict (answer plain 7 emptyReturn).record) = .ok data ∧
    ∀ f ∈ (answer plain 7 emptyReturn).fields (compact plain false), f.ReadFrom data := by
  have h : (runWhere (Channel.step (Channel.withTimeout 5))
      (Channel.Serving (Channel.withTimeout 5)) Channel.init
      (Channel.oneRecord emptyCall.packet ++ Channel.answerWith emptyReturn 37)).map
        (fun s => decide (s.handled = [(7, emptyReturn)] ∧ s.pump = .loop ∧
          s.wire = [.data emptyCall.packet])) = some true := by
    decide +kernel
  obtain ⟨s, hs, hp⟩ := Option.map_eq_some_iff.mp h
  obtain ⟨hhandled, hloop, hwire⟩ := of_decide_eq_true hp
  have hr := Reach.of_runWhere hs
  have hcalls : s.wire.filter (fun r => (Channel.inboundCall plain r).isSome) =
      [emptyCall].map fun c => .data c.packet := by
    rw [hwire, List.filter_cons_of_pos (by rw [emptyCall_sound.inboundCall]; rfl)]
    rfl
  obtain ⟨-, hsent, hread, -⟩ := c_calls_answered (Channel.withTimeout 5) rfl s hr [emptyCall]
    (List.forall_mem_singleton.mpr emptyCall_sound) hcalls
    (hhandled ▸ List.forall_mem_singleton.mpr emptyReturn_tellable)
  obtain ⟨data, hdata, hfields⟩ := hread (7, emptyReturn) (by rw [hhandled]; exact .head _)
  rw [hloop, hhandled, Channel.inFlight_of_idle rfl, List.append_nil] at hsent
  exact ⟨s, data, hr, hhandled, hloop, hsent, hdata, hfields⟩

end Msys.Wire
