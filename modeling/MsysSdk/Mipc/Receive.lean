import MsysSdk.Mipc.Send

/-! The receiver. The kernel holds the packets that have arrived and not been taken: `recv` with
`MSG_PEEK | MSG_TRUNC` reports the true length of the first one and leaves it, a plain `recv`
takes it, whatever the size of the buffer. A system call may fail; what its failures are is
given, and `EINTR` makes the code call it again. The buffer is not NULL. -/

namespace Msys.Mipc
open Libc

/-- What `poll` reports in the end; `input` is whether `POLLIN` or `POLLHUP` is set. -/
inductive Polled
  | timeout
  | ready (input : Bool)

/-- The `errno`s with which each system call fails, in order, before it succeeds. -/
structure RecvAnswers where
  pollFaults : List Nat
  polled : Polled
  peekFaults : List Nat
  recvFaults : List Nat

structure RecvCall where
  client : Option Client
  buffer : Buffer
  capacity : Nat
  timeoutMs : Int
  answers : RecvAnswers

structure RecvReply where
  client : Option Client
  result : Result
  buffer : Buffer
  /-- What `json_len` points at. -/
  jsonLen : Nat
  /-- The packets left on the socket. -/
  queue : List Bytes

/-- The failure at which a loop over `EINTR` stops. -/
def fault (errnos : List Nat) : Option Nat := errnos.find? (· ≠ eintr)

def peekLength : List Bytes → Nat
  | [] => 0
  | packet :: _ => packet.length

/-- A result other than `OK`, with its `errno`. -/
def waitForPacket (timeoutMs : Int) (answers : RecvAnswers) : Option (Result × Nat) :=
  if timeoutMs < -1 then some (.invalidArgument, 0)
  else
    match fault answers.pollFaults with
    | some errno => some (.ioError, errno)
    | none =>
      match answers.polled with
      | .timeout => some (.timeout, 0)
      | .ready false => some (.ioError, eio)
      | .ready true => none

def recvJson (queue : List Bytes) (call : RecvCall) : RecvReply :=
  let finish result errno buffer jsonLen queue : RecvReply :=
    ⟨(setResult call.client result errno none).client, result, buffer, jsonLen, queue⟩
  if validClient call.client = false then finish .invalidArgument 0 call.buffer 0 queue
  else if call.capacity = 0 then finish .invalidArgument 0 call.buffer 0 queue
  else
    let buffer := Function.update call.buffer 0 0
    match waitForPacket call.timeoutMs call.answers with
    | some (result, errno) => finish result errno buffer 0 queue
    | none =>
      match fault call.answers.peekFaults with
      | some errno => finish .ioError errno buffer 0 queue
      | none =>
        let packetLength := peekLength queue
        if packetLength = 0 then finish .eof 0 buffer 0 queue
        else if packetLength > maxPacket then
          match fault call.answers.recvFaults with
          | some errno => finish .ioError errno buffer packetLength queue
          | none => finish .tooLarge 0 buffer packetLength queue.tail
        else if packetLength ≥ call.capacity then
          finish .bufferTooSmall 0 buffer packetLength queue
        else
          match fault call.answers.recvFaults with
          | some errno => finish .ioError errno (Function.update buffer 0 0) packetLength queue
          | none =>
            let received := (queue.headD []).take packetLength
            let buffer := Buffer.copy buffer 0 received
            if received.length ≠ packetLength then
              finish .ioError eio (Function.update buffer 0 0) packetLength queue.tail
            else
              let buffer := Function.update buffer received.length 0
              if jsonObjectShape (Buffer.read buffer received.length) = false then
                finish .invalidJson 0 buffer packetLength queue.tail
              else finish .ok 0 buffer packetLength queue.tail

/-! ### Runs -/

/-- What happens on a socket: a packet arrives, or the receiver is called. -/
inductive SocketEvent
  | arrive (packet : Bytes)
  | call (call : RecvCall)

structure Socket where
  queue : List Bytes
  /-- The packets that calls have taken off the queue. -/
  consumed : List Bytes
  /-- What the calls that returned `OK` have put into their buffers. -/
  delivered : List Bytes

def Socket.step (s : Socket) : SocketEvent → Socket
  | .arrive packet => { s with queue := s.queue ++ [packet] }
  | .call call =>
    let reply := recvJson s.queue call
    { queue := reply.queue
      consumed := s.consumed ++ s.queue.take (s.queue.length - reply.queue.length)
      delivered :=
        if reply.result = .ok then s.delivered ++ [Buffer.read reply.buffer reply.jsonLen]
        else s.delivered }

/-- The socket after the events, from one on which these packets wait. -/
def Socket.run (packets : List Bytes) (events : List SocketEvent) : Socket :=
  events.foldl Socket.step ⟨packets, [], []⟩

def arrivals (events : List SocketEvent) : List Bytes :=
  events.filterMap fun
    | .arrive packet => some packet
    | .call _ => none

end Msys.Mipc
