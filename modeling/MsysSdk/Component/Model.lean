import MsysSdk.Mipc.Delivery
import MsysSdk.Mipc.Hello
import MsysSdk.Runs.Transition

/-! The C component of the examples: it announces itself, then answers calls until it is shut
down. What the system does in one turn is given with the turn, and packets arrive between two
turns. -/

namespace Msys.Component
open Libc Mipc

def recvCapacity : Nat := Mipc.maxPacket + 1

def tickTopic : Bytes := text "org.msys.demo.tick"
def startedTopic : Bytes := text "org.msys.demo.native.started"
def startedPayload : Bytes := text "\x7b\"language\":\"c\",\"ready\":true\x7d"
def pongPayload : Bytes := text "\x7b\"ok\":true,\"runtime\":\"native-c\"\x7d"

/-! ### One packet -/

/-- What the loop does with a packet. -/
inductive Handling
  | ignore
  | stop
  | print (payload : Bytes)
  | reply (answer : Request)

/-- The branches on `type`; both buffers are on the stack, not initialised. -/
def handle (typeBuffer methodBuffer : Buffer) (packet : Bytes) : Handling :=
  let type := jsonGetString packet (text "type") typeBuffer 32
  if type.result ≠ .ok then .ignore
  else if type.buffer.string 32 = text "shutdown" then .stop
  else if type.buffer.string 32 = text "event" then
    match jsonGetRaw packet (text "payload") with
    | .ok payload => .print payload
    | .error _ => .ignore
  else if type.buffer.string 32 = text "call" then
    let requestId := jsonGetU64 packet (text "id")
    let method := jsonGetString packet (text "method") methodBuffer 64
    if requestId.1 ≠ .ok || method.result ≠ .ok then .ignore
    else if method.buffer.string 64 = text "ping" then
      .reply (.result (.ofNat requestId.2) pongPayload)
    else .reply (.error (.ofNat requestId.2) (text "NO_METHOD") (method.buffer.string 64))
  else .ignore

/-! ### The program -/

/-- Where `main` stands. -/
inductive Place
  | hello
  | welcome
  | subscribe
  | ready
  | started
  | loop
  | replying (answer : Request)
  | ended (status : Nat)

/-- What the system answers in one turn, and what the stack holds. -/
structure Turn where
  sys : System
  answers : RecvAnswers
  typeBuffer : Buffer
  methodBuffer : Buffer

structure State where
  client : Client
  packet : Buffer
  place : Place
  /-- The packets that have arrived and not been taken. -/
  queue : List Bytes
  /-- What has been put on the socket. -/
  sent : List Bytes
  printed : List Bytes
  /-- The packet that was taken for the welcome. -/
  welcomed : Option Bytes
  /-- The packets that the loop has gone through, as the C strings in its buffer. -/
  handled : List Bytes

def State.start (client : Client) (packet : Buffer) (queue : List Bytes) : State :=
  ⟨client, packet, .hello, queue, [], [], none, []⟩

/-- After a sender; a call that has not returned goes on in the next turn. -/
def State.transmit (s : State) (reply : Option SendReply) (next : Place) : State :=
  match reply with
  | none => s
  | some r => { s with
      client := r.client.getD s.client
      sent := s.sent ++ r.record.toList
      place := if r.result = .ok then next else .ended 1 }

def State.receive (s : State) (turn : Turn) (timeoutMs : Int) : RecvReply :=
  recvJson s.queue ⟨some s.client, s.packet, recvCapacity, timeoutMs, turn.answers⟩

/-- The state when the receiver has returned. -/
def State.received (s : State) (r : RecvReply) : State :=
  { s with client := r.client.getD s.client, packet := r.buffer, queue := r.queue }

/-- After the branches on a packet. -/
def State.branch (s : State) (packet : Bytes) (h : Handling) : State :=
  { s with
    handled := s.handled ++ [packet]
    place := match h with
      | .ignore | .print _ => .loop
      | .stop => .ended 0
      | .reply answer => .replying answer
    printed := match h with
      | .print payload => s.printed ++ [payload]
      | _ => s.printed }

def State.turn (getenv : String → Option Bytes) (s : State) (t : Turn) : State :=
  match s.place with
  | .hello => s.transmit (sendHelloFromEnv t.sys getenv (some s.client)) .welcome
  | .welcome =>
    let r := s.receive t 2000
    if r.result = .ok then
      { s.received r with
        place := .subscribe
        welcomed := some (r.buffer.string recvCapacity) }
    else { s.received r with place := .ended 1 }
  | .subscribe => s.transmit (sendSubscribe t.sys (some s.client) (some tickTopic)) .ready
  | .ready => s.transmit (sendReady t.sys (some s.client)) .started
  | .started =>
    s.transmit (sendEventJson t.sys (some s.client) (some startedTopic) (some startedPayload)) .loop
  | .loop =>
    let r := s.receive t (-1)
    if r.result = .eof then { s.received r with place := .ended 0 }
    else if r.result ≠ .ok then { s.received r with place := .ended 1 }
    else
      let packet := r.buffer.string recvCapacity
      (s.received r).branch packet (handle t.typeBuffer t.methodBuffer packet)
  | .replying answer => s.transmit (answer.send t.sys (some s.client)) .loop
  | .ended _ => s

/-- What happens: a packet arrives, or the component takes a turn. -/
inductive Event
  | arrive (packet : Bytes)
  | turn (turn : Turn)

def State.step (getenv : String → Option Bytes) (s : State) : Event → State
  | .arrive packet => { s with queue := s.queue ++ [packet] }
  | .turn t => s.turn getenv t

def State.run (getenv : String → Option Bytes) (s : State) (events : List Event) : State :=
  events.foldl (State.step getenv) s

def arrivals (events : List Event) : List Bytes :=
  events.filterMap fun
    | .arrive packet => some packet
    | .turn _ => none

end Msys.Component
