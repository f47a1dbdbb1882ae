import MsysSdk.Records
import MsysSdk.Runs.Transition
import MsysSdk.Waiters.Table

/-! `ComponentChannel`: callers, plain senders and local closers interleave with the pump
thread on the shared state. Every action is one step of one of them; the block of `call`
under `_pending_lock` is split at its look at `closed`. -/

namespace Msys.Channel
open Python

inductive Exc
  | mipc (text : Str)
  | unavailable (text : Str)
  | remote (code message : Str) (payload : Dict)
  | valueError (text : Str)
  | recursion (text : Str)
  | overflowError
  | deadline
deriving DecidableEq

/-- `_encode(message, newline=False)`. -/
def encode (py : Interpreter) (message : Value) : Except Exc Bytes :=
  match dumps py false message with
  | .error (.recursion text) => .error (.recursion text)
  | .error e => .error (.mipc (str "Cannot encode mIPC request: " ++ e.text))
  | .ok data =>
    if maxPacket < data.length then .error (.mipc (str "mIPC packet exceeds 256 KiB"))
    else .ok data

def decode (py : Interpreter) (data : Bytes) : Except Exc Dict :=
  if data = [] then .error (.mipc (str "Empty mIPC response"))
  else if maxPacket < data.length then .error (.mipc (str "mIPC packet exceeds 256 KiB"))
  else match loads py true data with
    | .error e => .error (.mipc (str "Invalid mIPC JSON: " ++ py.loadsText data e))
    | .ok (.dict m) => .ok m
    | .ok _ => .error (.mipc (str "mIPC packet must be an object"))

structure Config where
  py : Interpreter
  timeoutMax : Rat
  args : Nat → CallArgs
  message : Nat → Value
  /-- Whether the pump was given a `call_handler`. -/
  handles : Bool

inductive Thread
  | pump
  | caller (c : Nat)
  | sender (k : Nat)
  | closer (k : Nat)
deriving DecidableEq

/-- What a waiter holds. A record carries its number on the wire. -/
inductive Item
  | record (serial : Nat) (message : Dict)
  | failure (e : Exc)
deriving DecidableEq

/-- `str(m.get(name) or default)`. -/
def textOr (py : Interpreter) (m : Dict) (name : String) (default : Str) : Str :=
  match field m name with
  | .str s => if s = [] then default else s
  | v => if v.truthy then py.strOf v else default

/-- `MipcRemoteError(code, message, payload)`. -/
def remoteError (code message : Str) (payload : Dict) : Exc :=
  let code := if code = [] then str "REMOTE_ERROR" else code
  .remote code (if message = [] then code else message) payload

/-- What `call` makes of the reply in its waiter, a return or an error. -/
def replyValue (py : Interpreter) (m : Dict) : Except Exc Dict :=
  match (field m "type").isKey (str "error"), field m "payload" with
  | true, payload =>
    .error (remoteError (textOr py m "code" (str "REMOTE_ERROR"))
      (textOr py m "message" (str "mIPC call failed"))
      (match payload with
        | .dict p => p
        | _ => []))
  | false, .none => .ok []
  | false, .dict p => .ok p
  | false, v => .ok [(.str (str "value"), v)]

/-- A call that got its reply ends with what the reply says. -/
inductive Outcome
  | replied (serial : Nat) (message : Dict) (value : Except Exc Dict)
  | raised (e : Exc)
deriving DecidableEq

def Item.outcome (py : Interpreter) : Item → Outcome
  | .record n m => .replied n m (replyValue py m)
  | .failure e => .raised e

inductive SendPc
  | lock
  | sending
  | sent
  | raised (e : Exc)
deriving DecidableEq

structure SendFrame where
  message : Value
  data : Bytes
  pc : SendPc
deriving DecidableEq

inductive CallPc
  | start
  | enter
  | registering
  | registered (id : Int)
  | sending (id : Int)
  | waiting (id : Int)
  | finishing (id : Int) (o : Outcome)
  | done (id : Option Int) (o : Outcome)
deriving DecidableEq

/-- A `_fail_pending`: before the lock, or putting the error into the waiters listed. -/
inductive FailPc
  | enter
  | putting (waiters : List Nat)
deriving DecidableEq

structure FailFrame where
  error : Exc
  pc : FailPc
deriving DecidableEq

inductive PumpPc
  | absent
  | loop
  | settimeout
  | receiving
  | failed (serial : Nat) (text : Str)
  | message (serial : Nat) (m : Dict)
  | deliver (serial : Nat) (m : Dict) (c : Nat)
  | handling (serial : Nat) (m : Dict) (id : Int)
  | replying (id : Int) (isError : Bool)
  | callback (serial : Nat) (m : Dict)
  | notified (m : Dict)
  | failing (announce : Bool)
  | announcing
  | returned
  | raised
deriving DecidableEq

inductive ClosePc
  | idle
  | tested
  | failing
  | closed
deriving DecidableEq

/-- What `sock.recv` gives within its timeout: nothing, bytes (empty at EOF), or an OSError. -/
inductive Received
  | timeout
  | data (b : Bytes)
  | osError (text : Str)
deriving DecidableEq

/-- What `call_handler` does. `escaped` is an exception that is no `Exception`, or one whose
`str()` raises. -/
inductive Handled
  | returned (v : Value)
  | raised (text : Str)
  | escaped
deriving DecidableEq

inductive Place
  | waiter (c : Nat)
  | callback
  | dropped
deriving DecidableEq

structure Routed where
  serial : Nat
  message : Dict
  place : Place
deriving DecidableEq

/-- The attributes of the channel and the program counters of the threads. The fields from
`wire` on record the past: what `sock.recv` gave, what `sock.send` took in full, what was
put into each waiter, where the pump put each record, the records passed to the callback
(those of the pump's own have no number), and the calls the handler was given. -/
structure State where
  closed : Bool
  sockClosed : Bool
  nextId : Int
  pending : Waiters.Pending Nat
  pendingLock : Option Nat
  sendLock : Option Thread
  pumpThread : Bool
  waiter : Nat → Option Item
  caller : Nat → CallPc
  send : Thread → Option SendFrame
  fail : Thread → Option FailFrame
  closer : Nat → ClosePc
  pump : PumpPc
  wire : List Received
  transmitted : List (Thread × Value)
  given : Nat → List Item
  routed : List Routed
  callbacks : List (Option Nat × Dict)
  handled : List (Int × Handled)

def init : State where
  closed := false
  sockClosed := false
  nextId := 1
  pending := ∅
  pendingLock := none
  sendLock := none
  pumpThread := false
  waiter := fun _ => none
  caller := fun _ => .start
  send := fun _ => none
  fail := fun _ => none
  closer := fun _ => .idle
  pump := .absent
  wire := []
  transmitted := []
  given := fun _ => []
  routed := []
  callbacks := []
  handled := []

namespace State
variable (s : State)

def setCaller (c : Nat) (pc : CallPc) : State := { s with caller := Function.update s.caller c pc }

def setSend (t : Thread) (f : SendFrame) : State :=
  { s with send := Function.update s.send t (some f) }

def setFail (t : Thread) (f : FailFrame) : State :=
  { s with fail := Function.update s.fail t (some f) }

/-- `waiter.put_nowait(item)` on a queue of size one; a full queue stays as it is. -/
def put (c : Nat) (item : Item) : State :=
  { s with
    waiter := if s.waiter c = none then Function.update s.waiter c (some item) else s.waiter
    given :=
      if s.waiter c = none then Function.update s.given c (s.given c ++ [item]) else s.given }

def take (c : Nat) : State := { s with waiter := Function.update s.waiter c none }

/-- `if self._pending.get(request_id) is waiter: del self._pending[request_id]`. -/
def unregister (id : Int) (c : Nat) : State :=
  { s with pending := Waiters.remove s.pending id c }

end State

/-! ### send -/

/-- `send` up to its lock. -/
def beginSend (py : Interpreter) (message : Value) : SendFrame :=
  match encode py message with
  | .error e => ⟨message, [], .raised e⟩
  | .ok data => ⟨message, data, .lock⟩

def senderStart (cfg : Config) (s : State) (k : Nat) : Option State :=
  match s.send (.sender k) with
  | none => some (s.setSend (.sender k) (beginSend cfg.py (cfg.message k)))
  | some _ => none

def sendLocked (s : State) (t : Thread) : Option State :=
  match s.send t, s.sendLock with
  | some ⟨m, data, .lock⟩, none =>
    some { s.setSend t ⟨m, data, .sending⟩ with sendLock := some t }
  | _, _ => none

/-- `written` is what `sock.send` returns, or the text of its OSError. -/
def sendWrite (s : State) (t : Thread) (written : Except Str Nat) : Option State :=
  match s.send t, written with
  | some ⟨m, data, .sending⟩, .ok n =>
    if n = data.length then
      some { s.setSend t ⟨m, data, .sent⟩ with
        sendLock := none
        transmitted := s.transmitted ++ [(t, m)] }
    else
      some { s.setSend t ⟨m, data, .raised (.mipc (str "Short component-channel send"))⟩ with
        sendLock := none }
  | some ⟨m, data, .sending⟩, .error text =>
    some { s.setSend t ⟨m, data,
        .raised (.unavailable (str "Component channel send failed: " ++ text))⟩ with
      sendLock := none }
  | _, _ => none

/-! ### call -/

/-- The tests of `call` before its lock. -/
def callCheck (a : CallArgs) (pumpThread : Bool) : Option Exc :=
  if a.target = [] ∨ a.method = [] then
    some (.valueError (str "mIPC target and method are required"))
  else if a.requestTimeout ≤ 0 then some (.valueError (str "mIPC timeout must be positive"))
  else if pumpThread then none
  else some (.mipc (str "Component channel event pump is not running"))

def callStart (cfg : Config) (s : State) (c : Nat) : Option State :=
  match s.caller c with
  | .start =>
    match callCheck (cfg.args c) s.pumpThread with
    | some e => some (s.setCaller c (.done none (.raised e)))
    | none => some (s.setCaller c .enter)
  | _ => none

def callLock (s : State) (c : Nat) : Option State :=
  match s.caller c, s.pendingLock with
  | .enter, none =>
    if s.closed then
      some (s.setCaller c (.done none (.raised (.unavailable (str "Component channel is closed")))))
    else some { s.setCaller c .registering with pendingLock := some c }
  | _, _ => none

def callRegister (s : State) (c : Nat) : Option State :=
  match s.caller c with
  | .registering =>
    some { s.setCaller c (.registered s.nextId) with
      nextId := s.nextId + 1
      pending := s.pending.insert s.nextId c
      pendingLock := none }
  | _ => none

/-- `deadline` is what the clock and the timeout give, `none` when `int()` raises. -/
def callSend (cfg : Config) (s : State) (c : Nat) (deadline : Option Int) : Option State :=
  match s.caller c, deadline with
  | .registered id, none => some (s.setCaller c (.finishing id (.raised .deadline)))
  | .registered id, some d =>
    some ((s.setSend (.caller c) (beginSend cfg.py (.dict (callRecord id (cfg.args c) d)))).setCaller
      c (.sending id))
  | _, _ => none

def callSent (s : State) (c : Nat) : Option State :=
  match s.caller c, s.send (.caller c) with
  | .sending id, some ⟨_, _, .sent⟩ => some (s.setCaller c (.waiting id))
  | .sending id, some ⟨_, _, .raised e⟩ => some (s.setCaller c (.finishing id (.raised e)))
  | _, _ => none

def callGet (cfg : Config) (s : State) (c : Nat) : Option State :=
  match s.caller c, s.waiter c with
  | .waiting id, some item => some ((s.take c).setCaller c (.finishing id (item.outcome cfg.py)))
  | _, _ => none

def timedOut (a : CallArgs) : Exc :=
  .unavailable (str "mIPC call timed out: " ++ a.target ++ str "." ++ a.method)

/-- The end of the wait on an empty waiter: `queue.Empty`, or the refusal of a timeout that
the platform cannot wait for. -/
def callEmpty (cfg : Config) (s : State) (c : Nat) : Option State :=
  match s.caller c, s.waiter c with
  | .waiting id, none =>
    if (cfg.args c).requestTimeout ≤ cfg.timeoutMax then
      some (s.setCaller c (.finishing id (.raised (timedOut (cfg.args c)))))
    else some (s.setCaller c (.finishing id (.raised .overflowError)))
  | _, _ => none

def callFinish (s : State) (c : Nat) : Option State :=
  match s.caller c, s.pendingLock with
  | .finishing id o, none => some ((s.unregister id c).setCaller c (.done (some id) o))
  | _, _ => none

/-! ### _fail_pending -/

def failEnter (s : State) (t : Thread) : Option State :=
  match s.fail t, s.pendingLock with
  | some ⟨e, .enter⟩, none =>
    some { s.setFail t ⟨e, .putting (Waiters.listed s.pending)⟩ with pending := ∅ }
  | _, _ => none

def failPut (s : State) (t : Thread) : Option State :=
  match s.fail t with
  | some ⟨e, .putting (c :: waiters)⟩ =>
    some ((s.put c (.failure e)).setFail t ⟨e, .putting waiters⟩)
  | _ => none

/-! ### close -/

def closedError : Exc := .unavailable (str "Component channel closed")

def closeTest (s : State) (k : Nat) : Option State :=
  match s.closer k with
  | .idle =>
    some { s with closer := Function.update s.closer k (if s.closed then .closed else .tested) }
  | _ => none

def closeSet (s : State) (k : Nat) : Option State :=
  match s.closer k with
  | .tested =>
    some { s.setFail (.closer k) ⟨closedError, .enter⟩ with
      closed := true
      closer := Function.update s.closer k .failing }
  | _ => none

def closeFinish (s : State) (k : Nat) : Option State :=
  match s.closer k, s.fail (.closer k) with
  | .failing, some ⟨_, .putting []⟩ =>
    some { s with
      sockClosed := true
      closer := Function.update s.closer k .closed }
  | _, _ => none

/-! ### pump -/

/-- `start`, up to the first step of the thread. -/
def pumpStart (s : State) : Option State :=
  if s.pumpThread then none else some { s with pumpThread := true, pump := .loop }

def pumpTest (s : State) : Option State :=
  match s.pump with
  | .loop => some { s with pump := if s.closed then .returned else .settimeout }
  | _ => none

/-- `sock.settimeout` raises on a closed socket, outside the try block of `receive`. -/
def pumpSettimeout (s : State) : Option State :=
  match s.pump with
  | .settimeout => some { s with pump := if s.sockClosed then .raised else .receiving }
  | _ => none

/-- The pump leaves through `_fail_pending`. -/
def State.pumpFail (s : State) (e : Exc) (announce : Bool) : State :=
  { s.setFail .pump ⟨e, .enter⟩ with pump := .failing announce }

def pumpReceive (cfg : Config) (s : State) (r : Received) : Option State :=
  match s.pump with
  | .receiving =>
    let s := { s with wire := s.wire ++ [r] }
    match r with
    | .timeout => some { s with pump := .loop }
    | .osError text => some { s with pump := .failed s.wire.length text }
    | .data b =>
      if b = [] then some { s with pump := .message s.wire.length eof }
      else match decode cfg.py b with
        | .error e => some (s.pumpFail e true)
        | .ok m => some { s with pump := .message s.wire.length m }
  | _ => none

def receiveError (text : Str) : Exc :=
  .unavailable (str "Component channel receive failed: " ++ text)

def pumpFailed (s : State) : Option State :=
  match s.pump with
  | .failed n text =>
    if s.closed then some { s with pump := .message n eof }
    else some (s.pumpFail (receiveError text) true)
  | _ => none

/-- Where a record goes that no waiter takes. -/
def pass (cfg : Config) (n : Nat) (m : Dict) : PumpPc :=
  if (field m "type").isKey (str "call") && cfg.handles then
    match (field m "id").asInt with
    -- a call that could not be answered is not handled either
    | none => .loop
    | some id => .handling n m id
  else .callback n m

/-- The look into `_pending`; the waiter is filled only after the lock is released. -/
def pumpRoute (cfg : Config) (s : State) : Option State :=
  match s.pump with
  | .message n m =>
    match replyId m with
    -- TypeError of the set test; nothing in `pump` catches it
    | .error _ => some { s with pump := .raised }
    | .ok none => some { s with pump := pass cfg n m }
    | .ok (some id) =>
      match s.pendingLock with
      | some _ => none
      | none =>
        match s.pending.lookup id with
        | some c => some { s with pump := .deliver n m c }
        | none => some { s with pump := pass cfg n m }
  | _ => none

def pumpDeliver (s : State) : Option State :=
  match s.pump with
  | .deliver n m c =>
    match s.waiter c with
    | none => some { s.put c (.record n m) with
        pump := .loop
        routed := s.routed ++ [⟨n, m, .waiter c⟩] }
    -- queue.Full, and `continue` all the same
    | some _ => some { s with pump := .loop, routed := s.routed ++ [⟨n, m, .dropped⟩] }
  | _ => none

def returnRecord (id : Int) (payload : Value) : Dict :=
  [(.str (str "type"), .str (str "return")), (.str (str "id"), .int id),
    (.str (str "payload"), payload)]

def errorRecord (id : Int) (text : Str) : Dict :=
  [(.str (str "type"), .str (str "error")), (.str (str "id"), .int id),
    (.str (str "code"), .str (str "CALL_FAILED")), (.str (str "message"), .str (text.take 256))]

/-- `str(exc)` of what `self.send` raises. -/
def Exc.text : Exc → Str
  | .mipc t | .unavailable t | .valueError t | .recursion t => t
  | .remote code message _ => code ++ str ": " ++ message
  | .overflowError | .deadline => []

def notObject : Str := str "component call handler must return an object"

/-- The `send` of the error reply; what it raises at once escapes from the pump. -/
def errorFrame (py : Interpreter) (id : Int) (text : Str) : Option SendFrame :=
  match beginSend py (.dict (errorRecord id text)) with
  | ⟨_, _, .raised _⟩ => none
  | frame => some frame

/-- The `send` that answers a call, with whether it is the error reply; a return reply that
cannot be encoded becomes one. -/
def replyFrame (py : Interpreter) (id : Int) : Handled → Option (SendFrame × Bool)
  | .returned (.dict p) =>
    match beginSend py (.dict (returnRecord id (.dict p))) with
    | ⟨_, _, .raised e⟩ => (errorFrame py id e.text).map (·, true)
    | frame => some (frame, false)
  | .returned _ => (errorFrame py id notObject).map (·, true)
  | .raised text => (errorFrame py id text).map (·, true)
  | .escaped => none

/-- The handler ends, and its result is made into a reply. -/
def pumpHandle (cfg : Config) (s : State) (h : Handled) : Option State :=
  match s.pump with
  | .handling _ _ id =>
    match replyFrame cfg.py id h with
    | some (frame, isError) =>
      some { s.setSend .pump frame with
        pump := .replying id isError
        handled := s.handled ++ [(id, h)] }
    | none => some { s with pump := .raised, handled := s.handled ++ [(id, h)] }
  | _ => none

def pumpSent (cfg : Config) (s : State) : Option State :=
  match s.pump, s.send .pump with
  | .replying _ _, some ⟨_, _, .sent⟩ => some { s with pump := .loop }
  | .replying id false, some ⟨_, _, .raised e⟩ =>
    match errorFrame cfg.py id e.text with
    | some frame => some { s.setSend .pump frame with pump := .replying id true }
    | none => some { s with pump := .raised }
  -- the error reply is sent in the `except` clause, where nothing catches its failure
  | .replying _ true, some ⟨_, _, .raised _⟩ => some { s with pump := .raised }
  | _, _ => none

def pumpCallback (s : State) : Option State :=
  match s.pump with
  | .callback n m =>
    some { s with
      pump := .notified m
      callbacks := s.callbacks ++ [(some n, m)]
      routed := s.routed ++ [⟨n, m, .callback⟩] }
  | _ => none

/-- The record's type is eof or shutdown. -/
def isTerminal (m : Dict) : Bool :=
  (field m "type").isKey (str "eof") || (field m "type").isKey (str "shutdown")

def pumpNotified (s : State) : Option State :=
  match s.pump with
  | .notified m =>
    -- the callback has had the record already, and is not told again
    if isTerminal m then some (s.pumpFail closedError false) else some { s with pump := .loop }
  | _ => none

def pumpLeave (s : State) : Option State :=
  match s.pump, s.fail .pump with
  | .failing announce, some ⟨_, .putting []⟩ =>
    some { s with pump := if announce then .announcing else .returned }
  | _, _ => none

def pumpAnnounce (s : State) : Option State :=
  match s.pump with
  | .announcing => some { s with pump := .returned, callbacks := s.callbacks ++ [(none, eof)] }
  | _ => none

inductive Action
  | senderStart (k : Nat)
  | sendLocked (t : Thread)
  | sendWrite (t : Thread) (written : Except Str Nat)
  | callStart (c : Nat)
  | callLock (c : Nat)
  | callRegister (c : Nat)
  | callSend (c : Nat) (deadline : Option Int)
  | callSent (c : Nat)
  | callGet (c : Nat)
  | callEmpty (c : Nat)
  | callFinish (c : Nat)
  | failEnter (t : Thread)
  | failPut (t : Thread)
  | closeTest (k : Nat)
  | closeSet (k : Nat)
  | closeFinish (k : Nat)
  | pumpStart
  | pumpTest
  | pumpSettimeout
  | pumpReceive (r : Received)
  | pumpFailed
  | pumpRoute
  | pumpDeliver
  | pumpHandle (h : Handled)
  | pumpSent
  | pumpCallback
  | pumpNotified
  | pumpLeave
  | pumpAnnounce

def step (cfg : Config) (s : State) : Action → Option State
  | .senderStart k => senderStart cfg s k
  | .sendLocked t => sendLocked s t
  | .sendWrite t w => sendWrite s t w
  | .callStart c => callStart cfg s c
  | .callLock c => callLock s c
  | .callRegister c => callRegister s c
  | .callSend c d => callSend cfg s c d
  | .callSent c => callSent s c
  | .callGet c => callGet cfg s c
  | .callEmpty c => callEmpty cfg s c
  | .callFinish c => callFinish s c
  | .failEnter t => failEnter s t
  | .failPut t => failPut s t
  | .closeTest k => closeTest s k
  | .closeSet k => closeSet s k
  | .closeFinish k => closeFinish s k
  | .pumpStart => pumpStart s
  | .pumpTest => pumpTest s
  | .pumpSettimeout => pumpSettimeout s
  | .pumpReceive r => pumpReceive cfg s r
  | .pumpFailed => pumpFailed s
  | .pumpRoute => pumpRoute cfg s
  | .pumpDeliver => pumpDeliver s
  | .pumpHandle h => pumpHandle cfg s h
  | .pumpSent => pumpSent cfg s
  | .pumpCallback => pumpCallback s
  | .pumpNotified => pumpNotified s
  | .pumpLeave => pumpLeave s
  | .pumpAnnounce => pumpAnnounce s

end Msys.Channel
