import MsysSdk.Records
import MsysSdk.Runs.Transition
import MsysSdk.Waiters.Table

/-! `MsysClient`: callers, plain senders, local closers, the reader thread and the consumer
of `recv` interleave on the shared state. Every action is one step of one of them; a block
under `_pending_lock` that also looks at `_closed` is split at that look. -/

namespace Msys.Client
open Python

inductive ErrorType
  | client | connectionClosed | shutdown | protocol
deriving DecidableEq

/-- An exception of the client's own hierarchy: its class and its `args`. -/
structure Error where
  errorType : ErrorType
  arguments : List Str
deriving DecidableEq

structure Failure where
  errorType : ErrorType
  arguments : List Str
deriving DecidableEq

def Failure.fromError (error : Error) : Failure := ⟨error.errorType, error.arguments⟩

def Failure.makeError (f : Failure) : Error := ⟨f.errorType, f.arguments⟩

/-- What the queues hold. A record read from the socket carries its number on the wire, which
stands for the identity of the dict; one that `_terminate` puts has none. -/
inductive InboxItem
  | record (serial : Option Nat) (message : Dict)
  | failure (f : Failure)
deriving DecidableEq

inductive Exc
  | client (e : Error)
  | timeoutError (text : Str)
  | overflowError
  | valueError (text : Str)
  | deadline
  | dumps (e : DumpsError)
deriving DecidableEq

inductive Outcome
  | returned (serial : Option Nat) (message : Dict)
  | raised (e : Exc)
deriving DecidableEq

def InboxItem.outcome : InboxItem → Outcome
  | .record n m => .returned n m
  | .failure f => .raised (.client f.makeError)

/-- `timeoutMax` is `threading.TIMEOUT_MAX`; `args` and `message` are what the calls and
the plain sends are given. -/
structure Config where
  py : Interpreter
  timeoutMax : Rat
  args : Nat → CallArgs
  message : Nat → Value

inductive Thread
  | reader
  | caller (c : Nat)
  | sender (k : Nat)
  | closer (k : Nat)
deriving DecidableEq

inductive TermPc
  | enter
  | sweep
  | sweeping (waiters : List Nat)
  | announce
  | returned (tookEffect : Bool)
deriving DecidableEq

structure TermFrame where
  callError : Error
  inboxMessage : Option Dict
  recvError : Option Error
  pc : TermPc := .enter
deriving DecidableEq

inductive SendPc
  | test
  | lock
  | sendall
  | failed (text : Str)
  | terminating (error : Error)
  | sent
  | raised (e : Exc)
deriving DecidableEq

structure SendFrame where
  message : Value
  pc : SendPc
deriving DecidableEq

inductive CallPc
  | start
  | enter
  | registering
  | registered (id : Int)
  | sending (id : Int)
  | waiting (id : Int)
  | expired (id : Int)
  | finishing (id : Int) (o : Outcome)
  | done (id : Option Int) (o : Outcome)
deriving DecidableEq

inductive ReaderPc
  | absent
  | loop
  | reading
  | failed (text : Str)
  | dispatch (serial : Nat) (message : Dict)
  | enqueue (serial : Nat) (message : Dict)
  | terminating
  | stopped
deriving DecidableEq

inductive RecvPc
  | idle
  | test
  | nowait
  | waiting
  | recheck
  | terminal
deriving DecidableEq

/-- What `sock.recv` gives: bytes, empty at EOF, or an OSError with its text. -/
inductive Received
  | data (b : Bytes)
  | osError (text : Str)
deriving DecidableEq

/-- What one `recv` gives its caller, apart from `None`. -/
inductive RecvResult
  | record (message : Dict)
  | terminal (r : Except Error Dict)

def InboxItem.result : InboxItem → RecvResult
  | .record (some _) m => .record m
  | .record none m => .terminal (.ok m)
  | .failure f => .terminal (.error f.makeError)

/-- Where the reader put a record. -/
inductive Place
  | waiter (c : Nat)
  | mailbox
deriving DecidableEq

structure Routed where
  serial : Nat
  message : Dict
  place : Place
deriving DecidableEq

/-- The attributes of the client and the program counters of the threads. The fields from
`wire` on record the past: what `sock.recv` gave, what `sock.sendall` took, what was put
into each waiter and into the event queue, where the reader put each record, and what `recv`
gave. -/
structure State where
  closed : Bool
  terminalCallError : Option Error
  terminalRecvError : Option Error
  nextId : Int
  pending : Waiters.Pending Nat
  pendingLock : Option Thread
  sendLock : Option Thread
  waiter : Nat → Option InboxItem
  eventQueue : List InboxItem
  caller : Nat → CallPc
  send : Thread → Option SendFrame
  term : Thread → Option TermFrame
  reader : ReaderPc
  receiver : RecvPc
  wire : List Received
  transmitted : List (Thread × Value)
  given : Nat → List InboxItem
  enqueued : List InboxItem
  routed : List Routed
  results : List RecvResult

def init : State where
  closed := false
  terminalCallError := none
  terminalRecvError := none
  nextId := 1
  pending := ∅
  pendingLock := none
  sendLock := none
  waiter := fun _ => none
  eventQueue := []
  caller := fun _ => .start
  send := fun _ => none
  term := fun _ => none
  reader := .absent
  receiver := .idle
  wire := []
  transmitted := []
  given := fun _ => []
  enqueued := []
  routed := []
  results := []

namespace State
variable (s : State)

def setCaller (c : Nat) (pc : CallPc) : State := { s with caller := Function.update s.caller c pc }

def setSend (t : Thread) (f : SendFrame) : State :=
  { s with send := Function.update s.send t (some f) }

def setTerm (t : Thread) (f : TermFrame) : State :=
  { s with term := Function.update s.term t (some f) }

/-- `waiter.put_nowait(item)` on a queue of size one; a full queue stays as it is. -/
def put (c : Nat) (item : InboxItem) : State :=
  { s with
    waiter := if s.waiter c = none then Function.update s.waiter c (some item) else s.waiter
    given :=
      if s.waiter c = none then Function.update s.given c (s.given c ++ [item]) else s.given }

def take (c : Nat) : State := { s with waiter := Function.update s.waiter c none }

/-- `if self._pending.get(request_id) is waiter: del self._pending[request_id]`. -/
def unregister (id : Int) (c : Nat) : State :=
  { s with pending := Waiters.remove s.pending id c }

def callTerminalError : Error :=
  s.terminalCallError.getD ⟨.connectionClosed, [str "mIPC client is closed"]⟩

/-- `_ensure_reader` past its looks at `_closed`. -/
def startReader : State := { s with reader := if s.reader = .absent then .loop else s.reader }

end State

/-- The part of `send` before its first look at `_closed`. -/
def encodeForSend (py : Interpreter) (message : Value) : Except Exc Bytes :=
  match dumps py true message with
  | .error e => .error (.dumps e)
  | .ok data =>
    if maxPacket < data.length then .error (.valueError (str "mIPC packet is too large"))
    else .ok data

def beginSend (py : Interpreter) (message : Value) : SendFrame :=
  match encodeForSend py message with
  | .error e => ⟨message, .raised e⟩
  | .ok _ => ⟨message, .test⟩

/-! ### call -/

def callEnsure (s : State) (c : Nat) : Option State :=
  match s.caller c with
  | .start =>
    if s.closed then some (s.setCaller c (.done none (.raised (.client s.callTerminalError))))
    else some (s.startReader.setCaller c .enter)
  | _ => none

def callLock (s : State) (c : Nat) : Option State :=
  match s.caller c, s.pendingLock with
  | .enter, none =>
    -- the error is raised outside the block, with nothing registered
    if s.closed then some (s.setCaller c (.done none (.raised (.client s.callTerminalError))))
    else some { s.setCaller c .registering with pendingLock := some (.caller c) }
  | _, _ => none

def callRegister (s : State) (c : Nat) : Option State :=
  match s.caller c with
  | .registering =>
    some { s.setCaller c (.registered s.nextId) with
      nextId := s.nextId + 1
      pending := s.pending.insert s.nextId c
      pendingLock := none }
  | _ => none

/-- `deadline` is what the clock and the timeout give, `none` when `int()` raises. -/
def callSend (cfg : Config) (s : State) (c : Nat) (deadline : Option Int) : Option State :=
  match s.caller c, deadline with
  | .registered id, none => some (s.setCaller c (.finishing id (.raised .deadline)))
  | .registered id, some d =>
    some ((s.setSend (.caller c) (beginSend cfg.py (.dict (callRecord id (cfg.args c) d)))).setCaller
      c (.sending id))
  | _, _ => none

def callSent (s : State) (c : Nat) : Option State :=
  match s.caller c, s.send (.caller c) with
  | .sending id, some ⟨_, .sent⟩ => some (s.setCaller c (.waiting id))
  | .sending id, some ⟨_, .raised e⟩ => some (s.setCaller c (.finishing id (.raised e)))
  | _, _ => none

def callGet (s : State) (c : Nat) : Option State :=
  match s.caller c, s.waiter c with
  | .waiting id, some item => some ((s.take c).setCaller c (.finishing id item.outcome))
  | _, _ => none

def callEmpty (cfg : Config) (s : State) (c : Nat) : Option State :=
  match s.caller c, s.waiter c with
  | .waiting id, none =>
    if (cfg.args c).requestTimeout ≤ cfg.timeoutMax then some (s.setCaller c (.expired id)) else none
  | _, _ => none

/-- `Queue.get` has to wait, and its condition variable refuses the timeout. -/
def callOverflow (cfg : Config) (s : State) (c : Nat) : Option State :=
  match s.caller c, s.waiter c with
  | .waiting id, none =>
    if cfg.timeoutMax < (cfg.args c).requestTimeout then
      some (s.setCaller c (.finishing id (.raised .overflowError)))
    else none
  | _, _ => none

def timedOut (a : CallArgs) : Exc :=
  .timeoutError (str "mIPC call timed out: " ++ a.target ++ str "." ++ a.method)

def callRecheck (cfg : Config) (s : State) (c : Nat) : Option State :=
  match s.caller c, s.pendingLock with
  | .expired id, none =>
    match s.waiter c with
    -- delivered after the wait gave up and before the lock was taken
    | some item => some ((s.take c).setCaller c (.finishing id item.outcome))
    | none =>
      some ((s.unregister id c).setCaller c (.finishing id (.raised (timedOut (cfg.args c)))))
  | _, _ => none

def callFinish (s : State) (c : Nat) : Option State :=
  match s.caller c, s.pendingLock with
  | .finishing id o, none => some ((s.unregister id c).setCaller c (.done (some id) o))
  | _, _ => none

/-! ### send, on the thread that called it -/

def senderStart (cfg : Config) (s : State) (k : Nat) : Option State :=
  match s.send (.sender k) with
  | none => some (s.setSend (.sender k) (beginSend cfg.py (cfg.message k)))
  | some _ => none

def sendTest (s : State) (t : Thread) : Option State :=
  match s.send t with
  | some ⟨m, .test⟩ =>
    if s.closed then some (s.setSend t ⟨m, .raised (.client s.callTerminalError)⟩)
    else some (s.setSend t ⟨m, .lock⟩)
  | _ => none

def sendLocked (s : State) (t : Thread) : Option State :=
  match s.send t, s.sendLock with
  | some ⟨m, .lock⟩, none =>
    if s.closed then some (s.setSend t ⟨m, .raised (.client s.callTerminalError)⟩)
    else some { s.setSend t ⟨m, .sendall⟩ with sendLock := some t }
  | _, _ => none

/-- `failure` is the text of an OSError of `sendall`. -/
def sendSendall (s : State) (t : Thread) (failure : Option Str) : Option State :=
  match s.send t, failure with
  | some ⟨m, .sendall⟩, none =>
    some { s.setSend t ⟨m, .sent⟩ with
      sendLock := none
      transmitted := s.transmitted ++ [(t, m)] }
  | some ⟨m, .sendall⟩, some text => some { s.setSend t ⟨m, .failed text⟩ with sendLock := none }
  | _, _ => none

def sendError (text : Str) : Error := ⟨.connectionClosed, [str "mIPC send failed: " ++ text]⟩

def sendFailed (s : State) (t : Thread) : Option State :=
  match s.send t with
  | some ⟨m, .failed text⟩ =>
    -- somebody else's termination is the reason, so its error is raised
    if s.closed then some (s.setSend t ⟨m, .raised (.client s.callTerminalError)⟩)
    else
      let error := sendError text
      some ((s.setTerm t ⟨error, none, some error, .enter⟩).setSend t ⟨m, .terminating error⟩)
  | _ => none

def sendRaise (s : State) (t : Thread) : Option State :=
  match s.send t, s.term t with
  | some ⟨m, .terminating error⟩, some { pc := .returned _, .. } =>
    some (s.setSend t ⟨m, .raised (.client error)⟩)
  | _, _ => none

/-! ### _terminate, on the thread that called it -/

def termEnter (s : State) (t : Thread) : Option State :=
  match s.term t with
  | some { callError, inboxMessage, recvError, pc := .enter } =>
    if s.closed then some (s.setTerm t ⟨callError, inboxMessage, recvError, .returned false⟩)
    else some { s.setTerm t ⟨callError, inboxMessage, recvError, .sweep⟩ with
      terminalCallError := some callError
      terminalRecvError := recvError
      closed := true }
  | _ => none

def termSweep (s : State) (t : Thread) : Option State :=
  match s.term t, s.pendingLock with
  | some { callError, inboxMessage, recvError, pc := .sweep }, none =>
    some { s.setTerm t ⟨callError, inboxMessage, recvError,
        .sweeping (Waiters.listed s.pending)⟩ with
      pending := ∅
      pendingLock := some t }
  | _, _ => none

def termPut (s : State) (t : Thread) : Option State :=
  match s.term t with
  | some { callError, inboxMessage, recvError, pc := .sweeping (c :: waiters) } =>
    some ((s.put c (.failure (.fromError callError))).setTerm t
      ⟨callError, inboxMessage, recvError, .sweeping waiters⟩)
  | _ => none

def termRelease (s : State) (t : Thread) : Option State :=
  match s.term t with
  | some { callError, inboxMessage, recvError, pc := .sweeping [] } =>
    some { s.setTerm t ⟨callError, inboxMessage, recvError, .announce⟩ with pendingLock := none }
  | _ => none

def terminalItems (inboxMessage : Option Dict) (recvError : Option Error) : List InboxItem :=
  match inboxMessage, recvError with
  | some m, _ => [.record none m]
  | none, some e => [.failure (.fromError e)]
  | none, none => []

def termAnnounce (s : State) (t : Thread) : Option State :=
  match s.term t with
  | some { callError, inboxMessage, recvError, pc := .announce } =>
    some { s.setTerm t ⟨callError, inboxMessage, recvError, .returned true⟩ with
      eventQueue := s.eventQueue ++ terminalItems inboxMessage recvError
      enqueued := s.enqueued ++ terminalItems inboxMessage recvError }
  | _ => none

def closeError : Error := ⟨.connectionClosed, [str "mIPC client closed"]⟩

def closeStart (s : State) (k : Nat) : Option State :=
  match s.term (.closer k) with
  | none => some (s.setTerm (.closer k) ⟨closeError, some eof, none, .enter⟩)
  | some _ => none

/-! ### the reader -/

def protocolError (text : Str) : Error := ⟨.protocol, [text]⟩

/-- What `_reader_loop` makes of an exception that is neither its own nor an OSError. -/
def readerError (text : Str) : Error := protocolError (str "mIPC reader failed: " ++ text)

def receiveError (text : Str) : Error :=
  ⟨.connectionClosed, [str "mIPC receive failed: " ++ text]⟩

def eofError : Error := ⟨.connectionClosed, [str "mIPC component channel reached EOF"]⟩

/-- `_read_packet`, with the exceptions `_reader_loop` turns into protocol errors. -/
def readPacket (py : Interpreter) (data : Bytes) : Except Error (Option Dict) :=
  if data = [] then .ok none
  else if maxPacket < data.length then .error (protocolError (str "mIPC packet is too large"))
  else match loads py false data with
    | .error e =>
      let text := py.loadsText data e
      -- a RecursionError or an integer with too many digits is no JSONDecodeError
      if e = .unicode ∨ e = .malformed then
        .error (protocolError (str "invalid mIPC JSON record: " ++ text))
      else .error (readerError text)
    | .ok (.dict m) => .ok (some m)
    | .ok _ => .error (protocolError (str "mIPC record must be a JSON object"))

def shutdownReason (py : Interpreter) (m : Dict) : Str :=
  match field m "reason" with
  | .str s => if s = [] then str "msysd requested shutdown" else s
  | v => if v.truthy then py.strOf v else str "msysd requested shutdown"

/-- The reader enters `_terminate`, with `wire` what it has read so far. -/
def State.readerTerminate (s : State) (wire : List Received) (callError : Error)
    (inboxMessage : Option Dict) (recvError : Option Error) : State :=
  { s.setTerm .reader ⟨callError, inboxMessage, recvError, .enter⟩ with
    reader := .terminating
    wire := wire }

def readerTest (s : State) : Option State :=
  match s.reader with
  | .loop => some { s with reader := if s.closed then .stopped else .reading }
  | _ => none

def readerRead (cfg : Config) (s : State) (r : Received) : Option State :=
  match s.reader, r with
  | .reading, .osError text => some { s with reader := .failed text, wire := s.wire ++ [r] }
  | .reading, .data b =>
    match readPacket cfg.py b with
    | .error e => some (s.readerTerminate (s.wire ++ [r]) e none (some e))
    | .ok none => some (s.readerTerminate (s.wire ++ [r]) eofError (some eof) none)
    | .ok (some m) =>
      if (field m "type").isKey (str "shutdown") then
        some (s.readerTerminate (s.wire ++ [r]) ⟨.shutdown, [shutdownReason cfg.py m]⟩
          (some m) none)
      else
        some { s with reader := .dispatch (s.wire.length + 1) m, wire := s.wire ++ [r] }
  | _, _ => none

def readerFailed (s : State) : Option State :=
  match s.reader with
  | .failed text =>
    if s.closed then some { s with reader := .stopped }
    else
      let error := receiveError text
      some (s.readerTerminate s.wire error none (some error))
  | _ => none

/-- The look into `_pending` with the delivery under the same lock. -/
def readerDispatch (s : State) : Option State :=
  match s.reader with
  | .dispatch n m =>
    match replyId m with
    -- TypeError of the set test, caught by `_reader_loop`
    | .error text =>
      let error := readerError text
      some (s.readerTerminate s.wire error none (some error))
    | .ok none => some { s with reader := .enqueue n m }
    | .ok (some id) =>
      match s.pendingLock with
      | some _ => none
      | none =>
        match s.pending.lookup id with
        | none => some { s with reader := .enqueue n m }
        | some c =>
          match s.waiter c with
          -- queue.Full: a second reply goes the way of the other records
          | some _ => some { s with reader := .enqueue n m }
          | none =>
            some { s.put c (.record (some n) m) with
              reader := .loop
              routed := s.routed ++ [⟨n, m, .waiter c⟩] }
  | _ => none

def readerEnqueue (s : State) : Option State :=
  match s.reader with
  | .enqueue n m =>
    some { s with
      reader := .loop
      eventQueue := s.eventQueue ++ [.record (some n) m]
      enqueued := s.enqueued ++ [.record (some n) m]
      routed := s.routed ++ [⟨n, m, .mailbox⟩] }
  | _ => none

def readerStop (s : State) : Option State :=
  match s.reader, s.term .reader with
  | .terminating, some { pc := .returned _, .. } => some { s with reader := .stopped }
  | _, _ => none

/-! ### recv -/

def recvStart (s : State) : Option State :=
  match s.receiver with
  | .idle => some { s with
      receiver := .test
      reader := if s.closed then s.reader else s.startReader.reader }
  | _ => none

def recvTest (s : State) : Option State :=
  match s.receiver with
  | .test => some { s with receiver := if s.closed then .nowait else .waiting }
  | _ => none

def recvItem (s : State) : Option State :=
  match s.eventQueue with
  | [] => none
  | item :: rest =>
    if s.receiver = .nowait ∨ s.receiver = .waiting then
      some { s with
        receiver := .idle
        eventQueue := rest
        results := s.results ++ [item.result] }
    else none

/-- `queue.Empty`, at once or at the end of the timeout. -/
def recvEmpty (s : State) : Option State :=
  match s.receiver, s.eventQueue with
  | .nowait, [] => some { s with receiver := .terminal }
  | .waiting, [] => some { s with receiver := .recheck }
  | _, _ => none

/-- `Queue.get` refuses the timeout, negative or too large. -/
def recvRefused (s : State) : Option State :=
  match s.receiver with
  | .waiting => some { s with receiver := .idle }
  | _ => none

def recvRecheck (s : State) : Option State :=
  match s.receiver with
  | .recheck => some { s with receiver := if s.closed then .terminal else .idle }
  | _ => none

def terminalRecvResult (s : State) : Except Error Dict :=
  match s.terminalRecvError with
  | some e => .error e
  | none => .ok eof

def recvTerminal (s : State) : Option State :=
  match s.receiver with
  | .terminal =>
    some { s with
      receiver := .idle
      results := s.results ++ [.terminal (terminalRecvResult s)] }
  | _ => none

inductive Action
  | callEnsure (c : Nat)
  | callLock (c : Nat)
  | callRegister (c : Nat)
  | callSend (c : Nat) (deadline : Option Int)
  | callSent (c : Nat)
  | callGet (c : Nat)
  | callEmpty (c : Nat)
  | callOverflow (c : Nat)
  | callRecheck (c : Nat)
  | callFinish (c : Nat)
  | senderStart (k : Nat)
  | sendTest (t : Thread)
  | sendLocked (t : Thread)
  | sendSendall (t : Thread) (failure : Option Str)
  | sendFailed (t : Thread)
  | sendRaise (t : Thread)
  | termEnter (t : Thread)
  | termSweep (t : Thread)
  | termPut (t : Thread)
  | termRelease (t : Thread)
  | termAnnounce (t : Thread)
  | closeStart (k : Nat)
  | readerTest
  | readerRead (r : Received)
  | readerFailed
  | readerDispatch
  | readerEnqueue
  | readerStop
  | recvStart
  | recvTest
  | recvItem
  | recvEmpty
  | recvRefused
  | recvRecheck
  | recvTerminal
deriving DecidableEq

def step (cfg : Config) (s : State) : Action → Option State
  | .callEnsure c => callEnsure s c
  | .callLock c => callLock s c
  | .callRegister c => callRegister s c
  | .callSend c d => callSend cfg s c d
  | .callSent c => callSent s c
  | .callGet c => callGet s c
  | .callEmpty c => callEmpty cfg s c
  | .callOverflow c => callOverflow cfg s c
  | .callRecheck c => callRecheck cfg s c
  | .callFinish c => callFinish s c
  | .senderStart k => senderStart cfg s k
  | .sendTest t => sendTest s t
  | .sendLocked t => sendLocked s t
  | .sendSendall t f => sendSendall s t f
  | .sendFailed t => sendFailed s t
  | .sendRaise t => sendRaise s t
  | .termEnter t => termEnter s t
  | .termSweep t => termSweep s t
  | .termPut t => termPut s t
  | .termRelease t => termRelease s t
  | .termAnnounce t => termAnnounce s t
  | .closeStart k => closeStart s k
  | .readerTest => readerTest s
  | .readerRead r => readerRead cfg s r
  | .readerFailed => readerFailed s
  | .readerDispatch => readerDispatch s
  | .readerEnqueue => readerEnqueue s
  | .readerStop => readerStop s
  | .recvStart => recvStart s
  | .recvTest => recvTest s
  | .recvItem => recvItem s
  | .recvEmpty => recvEmpty s
  | .recvRefused => recvRefused s
  | .recvRecheck => recvRecheck s
  | .recvTerminal => recvTerminal s

end Msys.Client
