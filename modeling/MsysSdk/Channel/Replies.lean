import MsysSdk.Channel.Delivery
import MsysSdk.Python.JsonText

/-! Inbound calls. Each is answered by one record, unless the text of the handler's exception
cannot be encoded: then the error reply fails too, and the pump with it. -/

namespace Msys.Channel
open Python Transition

/-! ### The replies -/

/-- Every integer in the record is short enough to be written again. -/
def Short (m : Dict) : Prop := ∀ e ∈ m, e.2.short

theorem decode_short {py : Interpreter} {b : Bytes} {m : Dict} (h : decode py b = .ok m) :
    Short m := by
  unfold decode at h
  split_ifs at h
  split at h
  · cases h
  next d hd =>
    cases h
    exact loads_short hd
  · cases h

theorem Short.field {m : Dict} (h : Short m) (name : String) : (field m name).short := by
  unfold Msys.field Dict.get
  split
  next e he => exact h e (List.mem_of_find?_eq_some he)
  next => simp [Value.short]

def errorText (id text : Str) : Str :=
  ch '{' :: (quoted (str "type") ++ ch ':' :: quoted (str "error") ++ ch ',' ::
    (quoted (str "id") ++ ch ':' :: id ++ ch ',' ::
      (quoted (str "code") ++ ch ':' :: quoted (str "CALL_FAILED") ++ ch ',' ::
        (quoted (str "message") ++ ch ':' :: quoted text)))) ++ [ch '}']

theorem dumpValue_errorRecord {id : Int} {s : Str} (text : Str) (depth : Nat)
    (h : intRepr id = .ok s) :
    dumpValue false (depth + 1) (.dict (errorRecord id text)) =
      .ok (errorText s (text.take 256)) := by
  simp only [errorRecord, dumpValue, dumpEntries, keyText, h]
  rfl

theorem encodable_errorText {id text : Str} (h : encodable id = true) :
    encodable (errorText id text) = encodable text := by
  simp [errorText, h]

theorem errorText_length (id text : Str) :
    (errorText id text).length ≤ id.length + 6 * text.length + 200 := by
  have hquoted := quoted_length text
  have htype : (quoted (str "type")).length = 6 := by decide
  have herror : (quoted (str "error")).length = 7 := by decide
  have hid : (quoted (str "id")).length = 4 := by decide
  have hcode : (quoted (str "code")).length = 6 := by decide
  have hfailed : (quoted (str "CALL_FAILED")).length = 13 := by decide
  have hmessage : (quoted (str "message")).length = 9 := by decide
  simp only [errorText, List.length_cons, List.length_append, List.length_nil, htype, herror, hid,
    hcode, hfailed, hmessage]
  omega

/-- The error reply to a call that was read can be encoded exactly if its text can. -/
theorem encode_errorRecord (py : Interpreter) {id : Int} {text : Str}
    (h : id.natAbs < 10 ^ intMaxStrDigits) :
    (∃ data, encode py (.dict (errorRecord id text)) = .ok data) ↔
      encodable (text.take 256) = true := by
  obtain ⟨s, hs, hlen⟩ := intRepr_short h
  obtain ⟨depth, hdepth⟩ : ∃ d, py.recursionLimit = d + 1 :=
    ⟨py.recursionLimit - 1, by have := py.recursionLimit_pos; omega⟩
  have hdump := dumpValue_errorRecord text depth hs
  have henc : (encodeUtf8 (errorText s (text.take 256))).isSome = encodable (text.take 256) := by
    rw [encodeUtf8_isSome]
    exact encodable_errorText (encodable_intRepr hs)
  cases hb : encodeUtf8 (errorText s (text.take 256)) with
  | none =>
    rw [hb] at henc
    have hbad : ∀ data, encode py (.dict (errorRecord id text)) ≠ .ok data := by
      intro data hdata
      simp [encode, dumps, hdepth, hdump, hb, bind, Except.bind, throw, throwThe,
        MonadExceptOf.throw] at hdata
    simp [← henc, hbad]
  | some b =>
    have hsmall : b.length ≤ maxPacket := by
      have h4 := encodeUtf8_length hb
      have ht := errorText_length s (text.take 256)
      have h256 : (text.take 256).length ≤ 256 := List.length_take_le ..
      have hmax : intMaxStrDigits = 4300 := rfl
      have hpacket : maxPacket = 262144 := rfl
      omega
    rw [hb] at henc
    refine ⟨fun _ => henc.symm, fun _ => ⟨b, ?_⟩⟩
    simp [encode, dumps, hdepth, hdump, hb, bind, Except.bind, pure, Except.pure,
      Nat.not_lt.mpr hsmall]

theorem encodable_take {text : Str} (n : Nat) (h : encodable text = true) :
    encodable (text.take n) = true := by
  simp only [encodable, List.all_eq_true] at h ⊢
  exact fun c hc => h c (List.mem_of_mem_take hc)

theorem encode_error {py : Interpreter} {v : Value} {e : Exc} (h : encode py v = .error e) :
    encodable e.text = true := by
  unfold encode at h
  split at h
  next t ht =>
    rw [← Except.error.inj h]
    exact dumps_error ht
  next d hd =>
    rw [← Except.error.inj h, Exc.text, encodable_append, encodable_str, Bool.true_and]
    exact dumps_error hd
  next data hdata =>
    split_ifs at h
    rw [← Except.error.inj h, Exc.text]
    exact encodable_str _

theorem beginSend_of_ok {py : Interpreter} {v : Value} {data : Bytes} (h : encode py v = .ok data) :
    beginSend py v = ⟨v, data, .lock⟩ := by
  simp [beginSend, h]

theorem beginSend_of_error {py : Interpreter} {v : Value} {e : Exc} (h : encode py v = .error e) :
    beginSend py v = ⟨v, [], .raised e⟩ := by
  simp [beginSend, h]

/-- What the handler's end can be told to the peer in. -/
def printable : Handled → Bool
  | .returned _ => true
  | .raised text => encodable (text.take 256)
  | .escaped => false

/-- The one record that answers a call: the return when it can be encoded, else an error. -/
def replyRecord (py : Interpreter) (id : Int) : Handled → Dict
  | .returned (.dict p) =>
    match encode py (.dict (returnRecord id (.dict p))) with
    | .ok _ => returnRecord id (.dict p)
    | .error e => errorRecord id e.text
  | .returned _ => errorRecord id notObject
  | .raised text => errorRecord id text
  | .escaped => []

theorem errorFrame_some (py : Interpreter) {id : Int} {text : Str}
    (h : id.natAbs < 10 ^ intMaxStrDigits) (ht : encodable (text.take 256) = true) :
    ∃ data, errorFrame py id text = some ⟨.dict (errorRecord id text), data, .lock⟩ := by
  obtain ⟨data, hdata⟩ := (encode_errorRecord py h).mpr ht
  exact ⟨data, by simp [errorFrame, beginSend_of_ok hdata]⟩

theorem errorFrame_none {py : Interpreter} {id : Int} {text : Str}
    (h : id.natAbs < 10 ^ intMaxStrDigits) (ht : encodable (text.take 256) = false) :
    errorFrame py id text = none := by
  cases hd : encode py (.dict (errorRecord id text)) with
  | ok data => simp [(encode_errorRecord py h).mp ⟨data, hd⟩] at ht
  | error e => simp [errorFrame, beginSend_of_error hd]

theorem replyFrame_some (py : Interpreter) {id : Int} {h : Handled}
    (hid : id.natAbs < 10 ^ intMaxStrDigits) (hp : printable h = true) :
    ∃ data b, replyFrame py id h = some (⟨.dict (replyRecord py id h), data, .lock⟩, b) := by
  have error : ∀ text, encodable (text.take 256) = true →
      ∃ data b, (errorFrame py id text).map (·, true) =
        some ((⟨.dict (errorRecord id text), data, .lock⟩ : SendFrame), b) := by
    intro text ht
    obtain ⟨data, hd⟩ := errorFrame_some py hid ht
    exact ⟨data, true, by simp [hd]⟩
  cases h with
  | escaped => cases hp
  | raised text => exact error text hp
  | returned v =>
    cases v with
    | dict p =>
      cases hd : encode py (.dict (returnRecord id (.dict p))) with
      | ok data => exact ⟨data, false, by simp [replyFrame, replyRecord, beginSend_of_ok hd, hd]⟩
      | error e =>
        obtain ⟨data, b, hf⟩ := error e.text (encodable_take 256 (encode_error hd))
        exact ⟨data, b, by simpa [replyFrame, replyRecord, beginSend_of_error hd, hd] using hf⟩
    | _ => exact error notObject (encodable_take 256 (encodable_str _))

theorem replyFrame_none {py : Interpreter} {id : Int} {h : Handled}
    (hid : id.natAbs < 10 ^ intMaxStrDigits) (hp : printable h = false) :
    replyFrame py id h = none := by
  cases h with
  | escaped => rfl
  | raised text => simp [replyFrame, errorFrame_none hid hp]
  | returned v => cases hp

/-! ### The pump at work -/

/-- What a thread has handed to the socket in full. -/
def sentBy (t : Thread) (transmitted : List (Thread × Value)) : List Value :=
  transmitted.filterMap fun p => if p.1 = t then some p.2 else none

/-- The pump's reply that has still to be handed to the socket. -/
def inFlight (pump : PumpPc) (frame : Option SendFrame) : List Value :=
  match pump, frame with
  | .replying _ _, some ⟨m, _, .lock⟩ => [m]
  | .replying _ _, some ⟨m, _, .sending⟩ => [m]
  | _, _ => []

/-- The id of an inbound call. -/
def callId (m : Dict) : Option Int :=
  if (field m "type").isKey (str "call") then (field m "id").asInt else none

def inboundCall (py : Interpreter) : Received → Option Int
  | .data b =>
    match decode py b with
    | .ok m => callId m
    | .error _ => none
  | _ => none

/-- The call that the pump has read and not yet handled. -/
def PumpPc.call? : PumpPc → Option Int
  | .message _ m => callId m
  | .handling _ _ id => some id
  | _ => none

/-- The socket takes every reply in full, the handler raises Exceptions only, no record has a
`type` without a hash, and nobody closes the channel. -/
def serving (cfg : Config) (s : State) : Action → Bool
  | .sendWrite .pump (.ok n) => (s.send .pump).all fun f => n = f.data.length
  | .sendWrite .pump (.error _) => false
  | .pumpHandle h => h ≠ .escaped
  | .pumpReceive (.data b) =>
    match decode cfg.py b with
    | .ok m => hashable (field m "type")
    | .error _ => true
  | .closeTest _ => false
  | _ => true

def Serving (cfg : Config) (s : State) (a : Action) : Prop := serving cfg s a = true

instance (cfg : Config) (s : State) (a : Action) : Decidable (Serving cfg s a) :=
  inferInstanceAs (Decidable (_ = true))

/-- Each call that was read is handled in turn, and its record has been transmitted or is on its
way; the pump is not lost. -/
def InTurn (cfg : Config) (s : State) : Prop :=
  s.pump ≠ .raised ∧
  s.wire.filterMap (inboundCall cfg.py) = s.handled.map Prod.fst ++ s.pump.call?.toList ∧
  sentBy .pump s.transmitted ++ inFlight s.pump (s.send .pump) =
    s.handled.map fun p => .dict (replyRecord cfg.py p.1 p.2)

/-- The pump is between its replies. -/
def PumpPc.replies : PumpPc → Bool
  | .replying _ _ => true
  | _ => false

/-- Neither at a reply nor with a record that may be a call. -/
def PumpPc.plain : PumpPc → Bool
  | .message .. | .handling .. | .replying .. | .raised => false
  | _ => true

structure Server (cfg : Config) (s : State) : Prop where
  opened : s.closed = false ∧ s.sockClosed = false ∧ ∀ k, s.closer k = .idle
  short : ∀ n m, s.pump = .message n m → Short m ∧ hashable (field m "type") = true
  handling : ∀ n m id, s.pump = .handling n m id → id.natAbs < 10 ^ intMaxStrDigits
  unsent : ∀ f, s.send .pump = some f → f.pc = .lock ∨ f.pc = .sending → s.pump.replies = true
  unfailed : ∀ f e, s.send .pump = some f → f.pc ≠ .raised e
  inTurn : (∀ p ∈ s.handled, printable p.2 = true) → InTurn cfg s
  stuck : (∃ p ∈ s.handled, printable p.2 = false) → s.pump = .raised

theorem server_init (cfg : Config) : Server cfg init where
  opened := ⟨rfl, rfl, fun _ => rfl⟩
  short := by simp [init]
  handling := by simp [init]
  unsent := by simp [init]
  unfailed := by simp [init]
  inTurn := fun _ => ⟨by simp [init], rfl, rfl⟩
  stuck := by simp [init]

theorem inFlight_of_idle {pump : PumpPc} (h : pump.replies = false) (frame : Option SendFrame) :
    inFlight pump frame = [] := by
  unfold inFlight
  split
  · cases h
  · cases h
  · rfl

theorem not_call_of_reply {m : Dict} {id : Int} (h : replyId m = .ok (some id)) :
    (field m "type").isKey (str "call") = false := by
  by_contra hc
  have hnone := answers_of_type (by simpa using hc) (by decide) (by decide)
  simp [answers_iff.mpr h] at hnone

theorem callId_of_reply {m : Dict} {id : Int} (h : replyId m = .ok (some id)) : callId m = none := by
  simp [callId, not_call_of_reply h]

theorem pass_call (cfg : Config) (hh : cfg.handles = true) (n : Nat) (m : Dict) :
    (pass cfg n m).call? = callId m := by
  unfold pass callId
  rw [hh, Bool.and_true]
  split_ifs
  · split
    next h => simp [h, PumpPc.call?]
    next id h => simp [h, PumpPc.call?]
  · rfl

section
variable {cfg : Config} {s : State}

/-- The pump moves on between replies. -/
theorem Server.move {pump : PumpPc} {wire : List Received} (hi : Server cfg s)
    (hp : s.pump ≠ .raised) (hb : s.pump.replies = false) (hr : pump ≠ .raised)
    (ha : pump.replies = false)
    (hshort : ∀ n m, pump = .message n m → Short m ∧ hashable (field m "type") = true)
    (hhandling : ∀ n m id, pump = .handling n m id → id.natAbs < 10 ^ intMaxStrDigits)
    (hcall : ∀ ids, s.wire.filterMap (inboundCall cfg.py) = ids ++ s.pump.call?.toList →
      wire.filterMap (inboundCall cfg.py) = ids ++ pump.call?.toList) :
    Server cfg { s with pump := pump, wire := wire } := by
  refine { hi with short := hshort, handling := hhandling, unsent := fun f hf hpc => ?_,
                   inTurn := fun h => ?_, stuck := fun h => absurd (hi.stuck h) hp }
  · have := hi.unsent f hf hpc
    simp [hb] at this
  · obtain ⟨-, hcalls, hreplies⟩ := hi.inTurn h
    refine ⟨hr, hcall _ hcalls, ?_⟩
    rw [inFlight_of_idle hb] at hreplies
    rw [inFlight_of_idle ha]
    exact hreplies

/-- The same on the wire as it is. -/
theorem Server.advance {pump : PumpPc} (hi : Server cfg s) (hp : s.pump ≠ .raised)
    (hb : s.pump.replies = false) (hr : pump ≠ .raised) (ha : pump.replies = false)
    (hshort : ∀ n m, pump ≠ .message n m)
    (hhandling : ∀ n m id, pump = .handling n m id → id.natAbs < 10 ^ intMaxStrDigits)
    (hcall : pump.call? = s.pump.call?) : Server cfg { s with pump := pump } :=
  hi.move hp hb hr ha (fun n m hm => absurd hm (hshort n m)) hhandling fun _ h => hcall ▸ h

/-- The pump moves on with no call at hand. -/
theorem Server.go (hi : Server cfg s) (pump : PumpPc) (hp : s.pump.plain = true)
    (ha : pump.plain = true) : Server cfg { s with pump := pump } := by
  have plain : ∀ p : PumpPc, p.plain = true → p ≠ .raised ∧ p.replies = false ∧
      (∀ n m, p ≠ .message n m) ∧ (∀ n m id, p ≠ .handling n m id) ∧ p.call? = none := by
    intro p hp
    cases p <;> simp_all [PumpPc.plain, PumpPc.replies, PumpPc.call?]
  obtain ⟨h1, h2, -, -, h3⟩ := plain _ hp
  obtain ⟨h4, h5, h6, h7, h8⟩ := plain _ ha
  exact hi.advance h1 h2 h4 h5 h6 (fun n m id h => absurd h (h7 n m id)) (h8.trans h3.symm)

/-- The pump reads. -/
theorem Server.receive {r : Received} (hi : Server cfg s) (pump : PumpPc)
    (pc : s.pump = .receiving) (hr : pump ≠ .raised) (ha : pump.replies = false)
    (hshort : ∀ n m, pump = .message n m → Short m ∧ hashable (field m "type") = true)
    (hhandling : ∀ n m id, pump ≠ .handling n m id)
    (hcall : inboundCall cfg.py r = pump.call?) :
    Server cfg { s with pump := pump, wire := s.wire ++ [r] } := by
  refine hi.move (by simp [pc]) (by simp [pc, PumpPc.replies]) hr ha hshort
    (fun n m id h => absurd h (hhandling n m id)) fun ids h => ?_
  rw [pc] at h
  rw [List.filterMap_append, h, ← hcall]
  cases hx : inboundCall cfg.py r <;> simp [hx, PumpPc.call?]

theorem sentBy_append {t u : Thread} {m : Value} {transmitted : List (Thread × Value)} :
    sentBy t (transmitted ++ [(u, m)]) =
      sentBy t transmitted ++ if u = t then [m] else [] := by
  simp only [sentBy, List.filterMap_append, List.filterMap_cons, List.filterMap_nil]
  split_ifs <;> simp

/-- A send of the pump goes on: what it has not yet handed over stays to be done. -/
theorem Server.send_advance {f : SendFrame} (hi : Server cfg s) (g : SendFrame)
    (sent : List (Thread × Value))
    (hf : s.send .pump = some f) (hpc : f.pc = .lock ∨ f.pc = .sending)
    (hg : ∀ e, g.pc ≠ .raised e)
    (hkeep : ∀ id b, s.pump = .replying id b →
      sentBy .pump sent ++ inFlight s.pump (some g) =
        sentBy .pump s.transmitted ++ inFlight s.pump (some f)) :
    Server cfg { s.setSend .pump g with transmitted := sent } := by
  have hrep := hi.unsent f hf hpc
  obtain ⟨id, b, hpump⟩ : ∃ id b, s.pump = .replying id b := by
    cases hp : s.pump <;> simp_all [PumpPc.replies]
  have hself : (s.setSend .pump g).send .pump = some g := by simp [State.setSend]
  refine { hi with unsent := fun _ _ _ => hrep, unfailed := fun k e hk => ?_,
                   inTurn := fun h => ?_ }
  · obtain rfl := Option.some.inj (hself.symm.trans hk)
    exact hg e
  · obtain ⟨hrun, hcalls, hreplies⟩ := hi.inTurn h
    refine ⟨hrun, hcalls, ?_⟩
    rw [hf, ← hkeep id b hpump, ← hself] at hreplies
    exact hreplies

/-- A step of another thread's send. -/
theorem Server.send_other {t : Thread} {f : SendFrame} (hi : Server cfg s)
    (sent : List (Thread × Value)) (ht : t ≠ .pump)
    (hsent : sentBy .pump sent = sentBy .pump s.transmitted) :
    Server cfg { s.setSend t f with transmitted := sent } := by
  have hsame : (s.setSend t f).send .pump = s.send .pump := Function.update_of_ne ht.symm ..
  refine { hi with unsent := fun k hk => hi.unsent k (hsame ▸ hk),
                   unfailed := fun k e hk => hi.unfailed k e (hsame ▸ hk),
                   inTurn := fun h => ?_ }
  obtain ⟨hrun, hcalls, hreplies⟩ := hi.inTurn h
  refine ⟨hrun, hcalls, ?_⟩
  rw [← hsent, ← hsame] at hreplies
  exact hreplies

/-- The handler ends in a way that can be told to the peer. -/
theorem Server.handle {n : Nat} {m : Dict} {id : Int} {h : Handled} {data : Bytes} {b : Bool}
    (hi : Server cfg s) (pc : s.pump = .handling n m id) (hp : printable h = true) :
    Server cfg { s.setSend .pump ⟨.dict (replyRecord cfg.py id h), data, .lock⟩ with
      pump := .replying id b
      handled := s.handled ++ [(id, h)] } := by
  have hself : (s.setSend .pump ⟨.dict (replyRecord cfg.py id h), data, .lock⟩).send .pump =
      some ⟨.dict (replyRecord cfg.py id h), data, .lock⟩ := by simp [State.setSend]
  refine { hi with short := by simp, handling := by simp, unsent := fun _ _ _ => rfl,
                   unfailed := fun k e hk => ?_, inTurn := fun hall => ?_,
                   stuck := fun ⟨p, hp', hbad⟩ => ?_ }
  · obtain rfl := Option.some.inj (hself.symm.trans hk)
    simp
  · obtain ⟨-, hcalls, hreplies⟩ := hi.inTurn fun p hp' => hall p (by simp [hp'])
    rw [pc] at hcalls hreplies
    refine ⟨by simp, ?_, ?_⟩
    · simpa [PumpPc.call?, State.setSend] using hcalls
    · rw [inFlight_of_idle rfl, List.append_nil] at hreplies
      simp [State.setSend, inFlight, ← hreplies]
  · rcases List.mem_append.mp hp' with hp' | hp'
    · have := hi.stuck ⟨p, hp', hbad⟩
      simp [pc] at this
    · simp [List.mem_singleton.mp hp', hp] at hbad

/-- The reply is handed over, and the pump goes on. -/
theorem Server.replied {id : Int} {m : Value} {data : Bytes} {b : Bool} (hi : Server cfg s)
    (pc : s.pump = .replying id b) (frame : s.send .pump = some ⟨m, data, .sent⟩) :
    Server cfg { s with pump := .loop } := by
  refine { hi with short := by simp, handling := by simp, unsent := fun f hf hpc => ?_,
                   inTurn := fun hall => ?_, stuck := fun h => ?_ }
  · obtain rfl := Option.some.inj (frame.symm.trans hf)
    simp at hpc
  · obtain ⟨-, hcalls, hreplies⟩ := hi.inTurn hall
    rw [pc] at hcalls
    rw [pc, frame] at hreplies
    exact ⟨by simp, hcalls, hreplies⟩
  · have := hi.stuck h
    simp [pc] at this

/-- It ends in a way that cannot. -/
theorem Server.raise {n : Nat} {m : Dict} {id : Int} {h : Handled} (hi : Server cfg s)
    (pc : s.pump = .handling n m id) (hp : printable h = false) :
    Server cfg { s with pump := .raised, handled := s.handled ++ [(id, h)] } := by
  refine { hi with short := by simp, handling := by simp, unsent := fun f hf hpc => ?_,
                   inTurn := fun hall => ?_, stuck := fun _ => rfl }
  · have := hi.unsent f hf hpc
    simp [pc, PumpPc.replies] at this
  · have := hall (id, h) (by simp)
    simp [hp] at this

end

theorem inboundCall_of_error {py : Interpreter} {b : Bytes} {e : Exc} (h : decode py b = .error e) :
    inboundCall py (.data b) = none := by
  simp [inboundCall, h]

theorem inboundCall_of_ok {py : Interpreter} {b : Bytes} {m : Dict} (h : decode py b = .ok m) :
    inboundCall py (.data b) = callId m := by
  simp [inboundCall, h]

theorem Server.pass {cfg : Config} {s : State} {n : Nat} {m : Dict} (hi : Server cfg s)
    (hh : cfg.handles = true) (pc : s.pump = .message n m) :
    Server cfg { s with pump := Channel.pass cfg n m } := by
  have hcall : (Channel.pass cfg n m).call? = s.pump.call? := by
    rw [pass_call cfg hh, pc]
    rfl
  have hid := (hi.short n m pc).1.field "id"
  rcases pass_cases cfg n m with hp | ⟨id, hp, hv⟩ | hp <;> rw [hp] at hcall ⊢
  · exact hi.advance (by simp [pc]) (by simp [pc, PumpPc.replies]) (by simp) rfl (by simp) (by simp)
      hcall
  · refine hi.advance (by simp [pc]) (by simp [pc, PumpPc.replies]) (by simp) rfl (by simp)
      (fun n' m' id' hp' => ?_) hcall
    obtain ⟨-, -, rfl⟩ := PumpPc.handling.inj hp'
    exact hid _ hv
  · exact hi.advance (by simp [pc]) (by simp [pc, PumpPc.replies]) (by simp) rfl (by simp) (by simp)
      hcall

theorem Server.step {cfg : Config} {s s' : State} {a : Action} (h : Step cfg s a s')
    (hh : cfg.handles = true) (hok : Serving cfg s a)
    (hstart : s.pumpThread = false → s.pump = .absent) (hi : Server cfg s) : Server cfg s' := by
  obtain ⟨hopen, hsock, hcloser⟩ := hi.opened
  cases h with
  | senderStart => exact hi.send_other _ (by simp) rfl
  | @callSend c id d pc =>
    exact { hi.send_other (f := beginSend cfg.py (.dict (callRecord id (cfg.args c) d)))
      s.transmitted (by simp : Thread.caller c ≠ .pump) rfl with }
  | @sendLocked t m data frame lock =>
    by_cases ht : t = .pump
    · subst ht
      refine { hi.send_advance ⟨m, data, .sending⟩ s.transmitted frame (.inl rfl)
        (by simp) ?_ with }
      intro id b hp
      simp [hp, inFlight]
    · exact { hi.send_other _ ht rfl with }
  | @sendAll t m data n frame hn =>
    by_cases ht : t = .pump
    · subst ht
      refine { hi.send_advance ⟨m, data, .sent⟩ _ frame (.inr rfl) (by simp) ?_ with }
      intro id b hp
      simp [hp, inFlight, sentBy_append]
    · exact { hi.send_other _ ht (by simp [sentBy_append, ht]) with }
  | @sendShort t m data n frame hn =>
    by_cases ht : t = .pump
    · subst ht
      simp [Serving, serving, frame, hn] at hok
    · exact { hi.send_other _ ht rfl with }
  | @sendFailed t m data text frame =>
    by_cases ht : t = .pump
    · subst ht
      simp [Serving, serving] at hok
    · exact { hi.send_other _ ht rfl with }
  | closeTest => simp [Serving, serving] at hok
  | closeSet pc => simp [hcloser] at pc
  | closeFinish pc => simp [hcloser] at pc
  | pumpStart ht => exact { hi.go .loop (by rw [hstart ht]; rfl) rfl with }
  | pumpTest pc => exact hi.go _ (by rw [pc]; rfl) (by simp [hopen, PumpPc.plain])
  | pumpSettimeout pc => exact hi.go _ (by rw [pc]; rfl) (by simp [hsock, PumpPc.plain])
  | recvTimeout pc => exact hi.receive _ pc (by simp) rfl (by simp) (by simp) rfl
  | recvFailed pc => exact hi.receive _ pc (by simp) rfl (by simp) (by simp) rfl
  | recvEof pc =>
    refine hi.receive _ pc (by simp) rfl (fun n m hm => ?_) (by simp) rfl
    obtain ⟨-, rfl⟩ := PumpPc.message.inj hm
    exact ⟨by simp [Short, eof, Value.short], rfl⟩
  | @recvBad b e pc hb packet =>
    exact { hi.receive (.failing true) pc (by simp) rfl (by simp) (by simp)
      (inboundCall_of_error packet) with }
  | @recv b m pc hb packet =>
    refine hi.receive _ pc (by simp) rfl (fun n m' hm => ?_) (by simp) (inboundCall_of_ok packet)
    obtain ⟨-, rfl⟩ := PumpPc.message.inj hm
    exact ⟨decode_short packet, by simpa [Serving, serving, packet] using hok⟩
  | failedClosed pc hc => simp [hopen] at hc
  | failedOpen pc hc => exact { hi.go (.failing true) (by rw [pc]; rfl) rfl with }
  | unhashable pc hm => exact absurd hm (replyId_of_hashable (hi.short _ _ pc).2)
  | notReply pc => exact hi.pass hh pc
  | unknown pc => exact hi.pass hh pc
  | found pc hm =>
    exact hi.advance (by simp [pc]) (by simp [pc, PumpPc.replies]) (by simp) rfl (by simp)
      (by simp) (by simp [pc, PumpPc.call?, callId_of_reply hm])
  | deliver pc => exact { hi.go .loop (by rw [pc]; rfl) rfl with }
  | full pc => exact { hi.go .loop (by rw [pc]; rfl) rfl with }
  | @handle n m id h frame b pc reply =>
    cases hp : printable h with
    | true =>
      obtain ⟨data, b', hf⟩ := replyFrame_some cfg.py (hi.handling n m id pc) hp
      obtain ⟨rfl, rfl⟩ := Prod.mk.inj (Option.some.inj (reply.symm.trans hf))
      exact hi.handle pc hp
    | false => simp [replyFrame_none (hi.handling n m id pc) hp] at reply
  | @handleRaised n m id h pc reply =>
    cases hp : printable h with
    | true =>
      obtain ⟨data, b', hf⟩ := replyFrame_some cfg.py (hi.handling n m id pc) hp
      simp [hf] at reply
    | false => exact hi.raise pc hp
  | replied pc frame => exact hi.replied pc frame
  | returnFailed pc frame => exact absurd rfl (hi.unfailed _ _ frame)
  | returnRaised pc frame => exact absurd rfl (hi.unfailed _ _ frame)
  | errorFailed pc frame => exact absurd rfl (hi.unfailed _ _ frame)
  | @callback n m pc => exact { hi.go (.notified m) (by rw [pc]; rfl) rfl with }
  | notifiedEnd pc => exact { hi.go (.failing false) (by rw [pc]; rfl) rfl with }
  | notifiedOn pc => exact hi.go _ (by rw [pc]; rfl) rfl
  | leave pc =>
    refine hi.go _ (by rw [pc]; rfl) ?_
    split_ifs <;> rfl
  | announce pc => exact { hi.go .returned (by rw [pc]; rfl) rfl with }
  | _ => exact { hi with }

/-- A run with a handler. -/
theorem reach_server {cfg : Config} (hh : cfg.handles = true) {s : State}
    (h : Reach (step cfg) (Serving cfg) init s) : Server cfg s :=
  h.invariant_of (fun _ hr => reach_inv hr) (server_init cfg)
    fun _ _ _ inv hi hok hs => hi.step (step_sound hs) hh hok inv.started

def aCall : Bytes := bytes "\x7b\"type\":\"call\",\"id\":7\x7d"

/-- A channel whose calls have this timeout and whose pump has a handler. -/
def withTimeout (t : Rat) : Config where
  py := plain
  timeoutMax := 9223372036
  args := fun _ => ⟨str "msys.core", str "list", none, some t, false⟩
  message := fun _ => .none
  handles := true

/-- The pump starts, and takes one packet up to its handler or the callback. -/
def oneRecord (b : Bytes) : List Action :=
  [.pumpStart, .pumpTest, .pumpSettimeout, .pumpReceive (.data b), .pumpRoute]

/-- The handler ends with `h`, and its reply of this many bytes goes out before the pump is back at
its loop. -/
def answerWith (h : Handled) (length : Nat) : List Action :=
  [.pumpHandle h, .sendLocked .pump, .sendWrite .pump (.ok length), .pumpSent]

end Msys.Channel
