import MsysSdk.Channel.Handling
import MsysSdk.Wire.Serving

/-! The Back button of an application. The window manager calls `navigation_back`; the handlers of
the two SDKs answer in the same bytes. -/

namespace Msys.Navigation
open Python Transition Channel Wire

/-! ### The two handlers -/

def navigationBackMethod : Str := str "navigation_back"

def handledPayload (handled : Bool) : Dict := [(.str (str "handled"), .bool handled)]

def unsupportedPayload : Dict :=
  [(.str (str "handled"), .bool false), (.str (str "reason"), .str (str "method-not-supported"))]

/-- `handle` of `application_navigation_handler`, given how `navigate_back()` ends: with a value, or
with the exception of this text. -/
def handle (py : Interpreter) (navigateBack : Except Str Value) (m : Dict) : Handled :=
  if textOr py m "method" [] ≠ navigationBackMethod then .returned (.dict unsupportedPayload)
  else match navigateBack with
    -- `is True`: a value that only counts as true is not enough
    | .ok v => .returned (.dict (handledPayload (v = .bool true)))
    | .error text => .raised text

/-- `msys_mipc_send_navigation_back_result`. -/
def sendNavigationBackResult (sys : Mipc.System) (client : Option Mipc.Client)
    (requestId : UInt64) (handled : Int) : Option Mipc.SendReply :=
  Mipc.sendReturnJson sys client requestId (some (if handled ≠ 0
    then Libc.text "\x7b\"handled\":true\x7d" else Libc.text "\x7b\"handled\":false\x7d"))

/-! ### The answers -/

/-- A call, and how `navigate_back()` ends for it. -/
structure Request where
  id : Int
  message : Dict
  navigateBack : Except Str Value

def Request.call (r : Request) : Int × Dict := (r.id, r.message)

/-- The record that answers the call. -/
def Request.answer (py : Interpreter) (r : Request) : Dict :=
  if textOr py r.message "method" [] ≠ navigationBackMethod then
    returnRecord r.id (.dict unsupportedPayload)
  else match r.navigateBack with
    | .ok v => returnRecord r.id (.dict (handledPayload (v = .bool true)))
    | .error text => errorRecord r.id text

/-- The text of a return around the text of its payload. -/
def returnText (id payload : Str) : Str :=
  ch '{' :: (quoted (str "type") ++ ch ':' :: quoted (str "return") ++ ch ',' ::
    (quoted (str "id") ++ ch ':' :: id ++ ch ',' ::
      (quoted (str "payload") ++ ch ':' :: payload))) ++ [ch '}']

theorem dumpValue_returnRecord {id : Int} {s t : Str} {payload : Dict} {depth : Nat}
    (h : intRepr id = .ok s) (hp : dumpValue false depth (.dict payload) = .ok t) :
    dumpValue false (depth + 1) (.dict (returnRecord id (.dict payload))) =
      .ok (returnText s t) := by
  have hstr : dumpValue false depth (.str (str "return")) = .ok (quoted (str "return")) := by
    rw [dumpValue]
  have hint : dumpValue false depth (.int id) = .ok s := by rw [dumpValue, h]
  rw [returnRecord, dumpValue]
  simp only [dumpEntries, keyText, hstr, hint, hp]
  rfl

theorem encodable_returnText {id payload : Str} (h : encodable id = true) :
    encodable (returnText id payload) = encodable payload := by
  simp [returnText, h]

theorem returnText_length (id payload : Str) :
    (returnText id payload).length ≤ id.length + payload.length + 50 := by
  have htype : (quoted (str "type")).length = 6 := by decide
  have hreturn : (quoted (str "return")).length = 8 := by decide
  have hid : (quoted (str "id")).length = 4 := by decide
  have hpayload : (quoted (str "payload")).length = 9 := by decide
  simp only [returnText, List.length_cons, List.length_append, List.length_nil, htype, hreturn,
    hid, hpayload]
  omega

/-- A small payload is returned to every call that was read. -/
theorem encode_returnRecord (py : Interpreter) {id : Int} {t : Str} {payload : Dict}
    (hid : id.natAbs < 10 ^ intMaxStrDigits)
    (hp : ∀ depth, dumpValue false (depth + 1) (.dict payload) = .ok t)
    (ht : encodable t = true) (hlen : t.length ≤ 100) :
    ∃ data, encode py (.dict (returnRecord id (.dict payload))) = .ok data := by
  obtain ⟨s, hs, hdigits⟩ := intRepr_short hid
  obtain ⟨depth, hdepth⟩ : ∃ d, py.recursionLimit = d + 2 :=
    ⟨py.recursionLimit - 2, by have := py.recursionLimit_pos; omega⟩
  have hdump := dumpValue_returnRecord hs (hp depth)
  obtain ⟨data, hdata⟩ : ∃ data, encodeUtf8 (returnText s t) = some data := by
    refine Option.isSome_iff_exists.mp ?_
    rw [encodeUtf8_isSome]
    exact (encodable_returnText (encodable_intRepr hs)).trans ht
  have hsmall : data.length ≤ maxPacket := by
    have hfour := encodeUtf8_length hdata
    have htext := returnText_length s t
    have hmax : intMaxStrDigits = 4300 := rfl
    have hpacket : maxPacket = 262144 := rfl
    omega
  refine ⟨data, ?_⟩
  simp [encode, dumps, hdepth, hdump, hdata, bind, Except.bind, pure, Except.pure,
    Nat.not_lt.mpr hsmall]

def handledText (handled : Bool) : Str :=
  if handled then str "\x7b\"handled\":true\x7d" else str "\x7b\"handled\":false\x7d"

theorem dumpValue_handled (handled : Bool) (depth : Nat) :
    dumpValue false (depth + 1) (.dict (handledPayload handled)) = .ok (handledText handled) := by
  rw [handledPayload, dumpValue]
  simp only [dumpEntries, keyText, dumpValue]
  cases handled <;> rfl

theorem dumpValue_unsupported (depth : Nat) :
    dumpValue false (depth + 1) (.dict unsupportedPayload) =
      .ok (str "\x7b\"handled\":false,\"reason\":\"method-not-supported\"\x7d") := by
  rw [unsupportedPayload, dumpValue]
  simp only [dumpEntries, keyText, dumpValue]
  rfl

section
variable (py : Interpreter) {id : Int} (hid : id.natAbs < 10 ^ intMaxStrDigits)
include hid

theorem encode_handled (handled : Bool) :
    ∃ data, encode py (.dict (returnRecord id (.dict (handledPayload handled)))) = .ok data := by
  refine encode_returnRecord py hid (dumpValue_handled handled) ?_ ?_
  · cases handled <;> exact encodable_str _
  · cases handled <;> decide

theorem encode_unsupported :
    ∃ data, encode py (.dict (returnRecord id (.dict unsupportedPayload))) = .ok data :=
  encode_returnRecord py hid dumpValue_unsupported (encodable_str _) (by decide)

/-- None of the returns has to be replaced by an error. -/
theorem replyRecord_handle (m : Dict) (navigateBack : Except Str Value) :
    replyRecord py id (handle py navigateBack m) = Request.answer py ⟨id, m, navigateBack⟩ := by
  unfold handle Request.answer
  dsimp only
  split_ifs
  · obtain ⟨data, hdata⟩ := encode_unsupported py hid
    simp only [replyRecord, hdata]
  · cases navigateBack with
    | ok v =>
      obtain ⟨data, hdata⟩ := encode_handled py hid (decide (v = .bool true))
      simp only [replyRecord, hdata]
    | error text => rfl

end

/-! ### The same answer in C -/

theorem compact_handled (py : Interpreter) (handled : Bool) :
    compact py false (handledPayload handled) =
      if handled then Libc.text "\x7b\"handled\":true\x7d"
      else Libc.text "\x7b\"handled\":false\x7d" := by
  obtain ⟨depth, hdepth⟩ : ∃ d, py.recursionLimit - 1 = d + 1 :=
    ⟨py.recursionLimit - 2, by have := py.recursionLimit_pos; omega⟩
  rw [compact, hdepth, dumpValue_handled]
  cases handled <;> decide +kernel

/-- The C sender puts the same bytes on its channel. -/
theorem sends_handled {py : Interpreter} {id : Int} (hid : InRange id) {b : Bool} {data : Bytes}
    (hdata : encode py (.dict (returnRecord id (.dict (handledPayload b)))) = .ok data)
    {handled : Int} (hb : handled ≠ 0 ↔ b = true) {sys : Mipc.System}
    {client : Option Mipc.Client} (hclient : Mipc.validClient client = true)
    (hsys : Healthy sys data.length) :
    ∃ reply, sendNavigationBackResult sys client (toU64 id) handled = some reply ∧
      reply.result = .ok ∧ reply.record = some data := by
  obtain ⟨hdumps, hfits⟩ := dumps_of_encode hdata
  have hsend : sendNavigationBackResult sys client (toU64 id) handled =
      (Mipc.Request.result (toU64 id) (compact py false (handledPayload b))).send sys client := by
    rw [Mipc.Request.send, compact_handled, sendNavigationBackResult]
    simp only [hb]
  have hpacket : data = Mipc.recordText
      (Mipc.Request.result (toU64 id) (compact py false (handledPayload b))).fields :=
    (Message.reply id (handledPayload b)).packet (List.forall_mem_singleton.mpr hid) hdumps
  rw [hpacket] at hfits hsys
  have hsendable : Sendable (.result (toU64 id) (compact py false (handledPayload b))) :=
    Message.sendable (m := .reply id (handledPayload b)) rfl trivial hdumps hfits
  rw [hsend, hsendable.sends hclient hsys, hpacket]
  exact ⟨_, rfl, rfl, rfl⟩

/-! ### Every run of the pump -/

/-- The handler is that of `application_navigation_handler`, and the text of an exception of
`navigate_back` can be encoded. -/
def Navigates (py : Interpreter) (m : Dict) (h : Handled) : Prop :=
  printable h = true ∧ ∃ navigateBack, h = handle py navigateBack m

theorem exists_requests {py : Interpreter} {calls : List (Int × Dict)}
    {handled : List (Int × Handled)}
    (h : List.Forall₂ (fun c r => r.1 = c.1 ∧ Navigates py c.2 r.2) calls handled) :
    ∃ requests : List Request, calls = requests.map Request.call ∧
      handled = requests.map fun r => (r.id, handle py r.navigateBack r.message) := by
  induction h with
  | nil => exact ⟨[], rfl, rfl⟩
  | @cons c r calls handled hc _ ih =>
    obtain ⟨id, m⟩ := c
    obtain ⟨id', h⟩ := r
    obtain ⟨hid, -, navigateBack, hhandle⟩ := hc
    obtain rfl : id' = id := hid
    obtain rfl : h = handle py navigateBack m := hhandle
    obtain ⟨requests, rfl, rfl⟩ := ih
    exact ⟨⟨id', m, navigateBack⟩ :: requests, rfl, rfl⟩

theorem printable_all {py : Interpreter} {calls : List (Int × Dict)}
    {handled : List (Int × Handled)}
    (h : List.Forall₂ (fun c r => r.1 = c.1 ∧ Navigates py c.2 r.2) calls handled) :
    ∀ p ∈ handled, printable p.2 = true := by
  induction h with
  | nil => simp
  | cons hc _ ih =>
    obtain ⟨-, hprintable, -⟩ := hc
    exact List.forall_mem_cons.mpr ⟨hprintable, ih⟩

/-- The id of a call that was read can be written again. -/
theorem inboundMessage_short {py : Interpreter} {r : Received} {id : Int} {m : Dict}
    (h : inboundMessage py r = some (id, m)) : id.natAbs < 10 ^ intMaxStrDigits := by
  unfold inboundMessage at h
  split at h
  next b =>
    split at h
    next m' hm =>
      obtain ⟨i, hi, hpair⟩ := Option.map_eq_some_iff.mp h
      obtain ⟨rfl, rfl⟩ := Prod.mk.inj hpair
      unfold callId at hi
      split_ifs at hi
      refine (decode_short hm).field "id" i ?_
      revert hi
      cases field m' "id" <;> simp [Value.asInt]
    next => cases h
  next => cases h

/-- In every run in which the socket takes the replies, each call is answered in its turn: with what
`navigate_back` says, if its method is `navigation_back`, and as not supported else. Where the
callback returned, the C sender would put the same bytes on the channel. -/
theorem navigation_answered {cfg : Config} (hh : cfg.handles = true) {s : State}
    (h : Reach (step cfg) (ServingBy cfg (Navigates cfg.py)) init s) :
    s.pump ≠ .raised ∧ ∃ requests : List Request,
      s.wire.filterMap (inboundMessage cfg.py) =
        requests.map Request.call ++ s.pump.callMessage?.toList ∧
      sentBy .pump s.transmitted ++ inFlight s.pump (s.send .pump) =
        requests.map (fun r => .dict (r.answer cfg.py)) ∧
      ∀ r ∈ requests, ∀ v, textOr cfg.py r.message "method" [] = navigationBackMethod →
        r.navigateBack = .ok v → InRange r.id → ∃ data,
          encode cfg.py (.dict (r.answer cfg.py)) = .ok data ∧
          ∀ sys client (handled : Int), (handled ≠ 0 ↔ v = .bool true) →
            Mipc.validClient client = true → Healthy sys data.length →
            ∃ reply, sendNavigationBackResult sys client (toU64 r.id) handled = some reply ∧
              reply.result = .ok ∧ reply.record = some data := by
  obtain ⟨hserver, calls, hwire, hhandled⟩ := reach_tracked hh h
  obtain ⟨hrun, -, hreplies⟩ := hserver.inTurn (printable_all hhandled)
  obtain ⟨requests, rfl, hrequests⟩ := exists_requests hhandled
  have hshort : ∀ r ∈ requests, r.id.natAbs < 10 ^ intMaxStrDigits := by
    intro r hr
    have hmem : r.call ∈ s.wire.filterMap (inboundMessage cfg.py) := by
      rw [hwire]
      exact List.mem_append_left _ (List.mem_map_of_mem hr)
    obtain ⟨packet, -, hpacket⟩ := List.mem_filterMap.mp hmem
    exact inboundMessage_short hpacket
  refine ⟨hrun, requests, hwire, ?_, fun r hr v hmethod hback hid => ?_⟩
  · rw [hreplies, hrequests, List.map_map]
    exact List.map_congr_left fun r hr =>
      congrArg Value.dict (replyRecord_handle cfg.py (hshort r hr) r.message r.navigateBack)
  · have hanswer : r.answer cfg.py =
        returnRecord r.id (.dict (handledPayload (v = .bool true))) := by
      rw [Request.answer, if_neg (not_not.mpr hmethod), hback]
    obtain ⟨data, hdata⟩ := encode_handled cfg.py (hshort r hr) (decide (v = .bool true))
    refine ⟨data, by rw [hanswer, hdata], fun sys client handled hv hclient hsys => ?_⟩
    exact sends_handled hid hdata (hv.trans decide_eq_true_iff.symm) hclient hsys

def backCall : Bytes :=
  bytes "\x7b\"type\":\"call\",\"id\":41,\"method\":\"navigation_back\",\"payload\":\x7b\x7d\x7d"

def backAnswer : Bytes :=
  bytes "\x7b\"type\":\"return\",\"id\":41,\"payload\":\x7b\"handled\":true\x7d\x7d"

/-- Back is consumed inside the application. -/
def consumes (s : State) (a : Action) : Bool :=
  match a, s.pump with
  | .pumpHandle h, .handling _ m _ => h = handle plain (.ok (.bool true)) m
  | _, _ => true

theorem consumes_navigates {s : State} {a : Action} (h : consumes s a = true) :
    ∀ r n m id, a = .pumpHandle r → s.pump = .handling n m id → Navigates plain m r := by
  rintro r n m id rfl pc
  unfold consumes at h
  rw [pc] at h
  obtain rfl := of_decide_eq_true h
  refine ⟨?_, _, rfl⟩
  unfold handle
  split_ifs <;> rfl

/-- Only a callback that returned `True` is answered so. -/
theorem Request.of_handled {py : Interpreter} {id : Int} (r : Request)
    (h : r.answer py = returnRecord id (.dict (handledPayload true))) :
    r.id = id ∧ textOr py r.message "method" [] = navigationBackMethod ∧
      r.navigateBack = .ok (.bool true) := by
  unfold answer at h
  split_ifs at h with hmethod
  · simp [returnRecord, unsupportedPayload, handledPayload] at h
  · cases hback : r.navigateBack with
    | ok v =>
      rw [hback] at h
      obtain ⟨hid, hv⟩ : r.id = id ∧ v = .bool true := by
        simpa [returnRecord, handledPayload] using h
      exact ⟨hid, not_not.mp hmethod, congrArg Except.ok hv⟩
    | error text =>
      rw [hback] at h
      simp [returnRecord, errorRecord] at h

/-- The call that the tests of both SDKs answer; the pump is back at its loop. -/
theorem navigation_answered_back : ∃ s reply,
    Reach (step (withTimeout 5)) (ServingBy (withTimeout 5) (Navigates plain)) init s ∧
      s.wire = [.data backCall] ∧ s.pump = .loop ∧
      sentBy .pump s.transmitted = [.dict (returnRecord 41 (.dict (handledPayload true)))] ∧
      encode plain (.dict (returnRecord 41 (.dict (handledPayload true)))) = .ok backAnswer ∧
      sendNavigationBackResult ⟨fun _ => true, fun _ => true, [.bytes 52]⟩ (some ⟨3, 0⟩) 41 1 =
        some reply ∧ reply.record = some backAnswer := by
  have hrun : (runWhere (step (withTimeout 5))
      (fun s a => Serving (withTimeout 5) s a ∧ consumes s a = true) init
      (oneRecord backCall ++ answerWith (.returned (.dict (handledPayload true))) 52)).map
        (fun s => decide (s.wire = [.data backCall] ∧ s.pump = .loop ∧
          sentBy .pump s.transmitted =
            [.dict (returnRecord 41 (.dict (handledPayload true)))])) = some true := by
    decide +kernel
  obtain ⟨s, hs, hp⟩ := Option.map_eq_some_iff.mp hrun
  obtain ⟨hwire, hloop, hsent⟩ := of_decide_eq_true hp
  have hreach : Reach (step (withTimeout 5)) (ServingBy (withTimeout 5) (Navigates plain)) init s :=
    (Reach.of_runWhere hs).mono fun _ _ h => ⟨h.1, consumes_navigates h.2⟩
  have hencode : encode plain (.dict (returnRecord 41 (.dict (handledPayload true)))) =
      .ok backAnswer := by decide +kernel
  obtain ⟨-, requests, -, hanswers, hsame⟩ := navigation_answered rfl hreach
  rw [hloop, inFlight_of_idle rfl, List.append_nil, hsent] at hanswers
  obtain ⟨r, rfl, hanswer⟩ := List.map_eq_singleton_iff.mp hanswers.symm
  obtain ⟨hid, hmethod, hback⟩ := r.of_handled (Value.dict.inj hanswer)
  have hrange : InRange r.id := by
    rw [hid]
    decide
  obtain ⟨data, hdata, hsends⟩ := hsame r (.head _) (.bool true) hmethod hback hrange
  rw [Value.dict.inj hanswer, show (withTimeout 5).py = plain from rfl, hencode] at hdata
  obtain rfl := Except.ok.inj hdata
  have hlen : backAnswer.length = 52 := by decide +kernel
  obtain ⟨reply, hreply, -, hrecord⟩ := hsends ⟨fun _ => true, fun _ => true, [.bytes 52]⟩
    (some ⟨3, 0⟩) 1 (by decide) rfl ⟨fun _ => rfl, fun _ => rfl, by rw [hlen]; rfl⟩
  rw [hid] at hreply
  exact ⟨s, reply, hreach, hwire, hloop, hsent, hencode, hreply, hrecord⟩

end Msys.Navigation
