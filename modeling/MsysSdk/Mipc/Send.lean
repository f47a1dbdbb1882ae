import MsysSdk.Mipc.Fields
import Mathlib.Data.List.DropRight

/-! The senders. A `const char *` argument is `none` for NULL. What `malloc`, `vsnprintf` and
`send` answer during a call is given; the first two are asked once at each place of the code,
so their answers are numbered in the order in which the call comes to them. -/

namespace Msys.Mipc
open Libc

def maxPacket : Nat := 256 * 1024

def eintr : Nat := 4
def eio : Nat := 5
def enomem : Nat := 12
def eilseq : Nat := 84

/-- The fields of `msys_mipc_client` that the functions here read or write. -/
structure Client where
  fd : Int
  lastErrno : Nat

/-- What `send` returns, with its `errno` when that is negative. -/
inductive Sent
  | bytes (n : Nat)
  | error (errno : Nat)

structure System where
  allocates : Nat → Bool
  prints : Nat → Bool
  sends : List Sent

structure SendReply where
  client : Option Client
  result : Result
  /-- The record that went out, if any. -/
  record : Option Bytes

/-- `set_result`, in a call that has put the given record on the socket. -/
def setResult (client : Option Client) (result : Result) (errno : Nat)
    (record : Option Bytes) : SendReply :=
  ⟨client.map fun c => { c with lastErrno := errno }, result, record⟩

/-- `validate_client` passes. -/
def validClient : Option Client → Bool
  | none => false
  | some c => decide (0 ≤ c.fd)

/-- The trimming loops of `json_object_shape`. -/
def trimSpace (json : Bytes) : Bytes := (skipSpace json).rdropWhile isspace

def jsonObjectShape (json : Bytes) : Bool :=
  let trimmed := trimSpace json
  2 ≤ trimmed.length && trimmed.head? = some (chr '{') && trimmed.getLast? = some (chr '}')

/-- The loop around `send`; `none` while the call has not returned. -/
def sendAgain : List Sent → Option Sent
  | [] => none
  | .error errno :: more => if errno = eintr then sendAgain more else some (.error errno)
  | .bytes n :: _ => some (.bytes n)

def sendJson (sys : System) (client : Option Client) (jsonObject : Option Bytes) :
    Option SendReply :=
  if validClient client = false then some (setResult client .invalidArgument 0 none)
  else
    match jsonObject with
    | none => some (setResult client .invalidArgument 0 none)
    | some json =>
      if json.length = 0 || jsonObjectShape json = false then
        some (setResult client .invalidJson 0 none)
      else if json.length > maxPacket then some (setResult client .tooLarge 0 none)
      else
        (sendAgain sys.sends).map fun
          | .error errno => setResult client .ioError errno none
          | .bytes n =>
            if n ≠ json.length then setResult client .ioError eio (some (json.take n))
            else setResult client .ok 0 (some json)

/-! ### Escaping -/

/-- What the sizing pass adds for a byte. -/
def addition (b : UInt8) : Nat :=
  if b = chr '"' || b = chr '\\' || b = 0x08 || b = 0x0C || b = 0x0A || b = 0x0D || b = 0x09 then 2
  else if b < 0x20 then 6
  else 1

/-- The sizing pass, `none` when the text would be too large. -/
def escapedLength : Nat → Bytes → Option Nat
  | outputLength, [] => some outputLength
  | outputLength, b :: input =>
    if outputLength > maxPacket - addition b then none
    else escapedLength (outputLength + addition b) input

/-- The `switch` of the writing pass. -/
def shortEscaped (b : UInt8) : Option UInt8 :=
  if b = chr '"' then some (chr '"')
  else if b = chr '\\' then some (chr '\\')
  else if b = 0x08 then some (chr 'b')
  else if b = 0x0C then some (chr 'f')
  else if b = 0x0A then some (chr 'n')
  else if b = 0x0D then some (chr 'r')
  else if b = 0x09 then some (chr 't')
  else none

def hex (n : UInt8) : UInt8 :=
  (text "0123456789abcdef").getD (n &&& 0x0F).toNat 0

/-- What the writing pass puts out for a byte. -/
def escapeByte (b : UInt8) : Bytes :=
  match shortEscaped b with
  | some e => [chr '\\', e]
  | none =>
    if b < 0x20 then [chr '\\', chr 'u', chr '0', chr '0', hex (b >>> 4), hex b] else [b]

/-- The writing pass. -/
def writeEscaped (input : Bytes) : Bytes := input.flatMap escapeByte

def escapedJsonString (allocated : Bool) : Option Bytes → Except Result Bytes
  | none => .error .invalidArgument
  | some input =>
    if input.length > maxPacket then .error .tooLarge
    else
      match escapedLength 0 input with
      | none => .error .tooLarge
      | some _ => if allocated then .ok (writeEscaped input) else .error .ioError

/-- `%PRIu64`. -/
def decimal (n : UInt64) : Bytes := (Nat.toDigits 10 n.toNat).map chr

/-- `send_format`: the pieces are the literal parts of the format and its converted arguments.
The other parameters say which of the call's answers are its own. -/
def sendFormat (sys : System) (print alloc : Nat) (client : Option Client)
    (pieces : List Bytes) : Option SendReply :=
  let json := pieces.flatten
  if client.isNone then some (setResult client .invalidArgument 0 none)
  else if sys.prints print = false then some (setResult client .ioError eilseq none)
  else if json.length > maxPacket then some (setResult client .tooLarge 0 none)
  else if sys.allocates alloc = false then some (setResult client .ioError enomem none)
  else if sys.prints (print + 1) = false then some (setResult client .ioError eilseq none)
  else sendJson sys client (some json)

/-- How each sender reports that an argument was not escaped. -/
def escapeFailed (client : Option Client) (e : Result) : Option SendReply :=
  some (setResult client e (if e = .ioError then enomem else 0) none)

/-! ### The senders -/

def sendHello (sys : System) (client : Option Client) (componentId : Option Bytes)
    (generation : UInt64) : Option SendReply :=
  match escapedJsonString (sys.allocates 0) componentId with
  | .error e => escapeFailed client e
  | .ok component =>
    sendFormat sys 0 1 client
      [text "\x7b\"type\":\"hello\",\"component\":\"", component, text "\",\"generation\":",
        decimal generation, text "\x7d"]

def sendReady (sys : System) (client : Option Client) : Option SendReply :=
  sendJson sys client (some (text "\x7b\"type\":\"ready\"\x7d"))

def sendSubscribe (sys : System) (client : Option Client) (topic : Option Bytes) :
    Option SendReply :=
  match escapedJsonString (sys.allocates 0) topic with
  | .error e => escapeFailed client e
  | .ok escapedTopic =>
    sendFormat sys 0 1 client
      [text "\x7b\"type\":\"subscribe\",\"topic\":\"", escapedTopic, text "\"\x7d"]

/-- `validate_raw_value`: what it refuses the value for. -/
def validateRawValue : Option Bytes → Option Result
  | none => none
  | some json =>
    if json.length > maxPacket then some .tooLarge
    else if skipSpace json = [] then some .invalidJson
    else none

def emptyPayload : Bytes := text "\x7b\x7d"

def sendCallJson (sys : System) (client : Option Client) (requestId : UInt64)
    (target method payloadJson : Option Bytes) (deadlineMs : UInt64) (idempotent : Bool) :
    Option SendReply :=
  let payload := payloadJson.getD emptyPayload
  match validateRawValue (some payload) with
  | some e => some (setResult client e 0 none)
  | none =>
    if target.getD [] = [] || method.getD [] = [] then
      some (setResult client .invalidArgument 0 none)
    else
      match escapedJsonString (sys.allocates 0) target with
      | .error e => escapeFailed client e
      | .ok escapedTarget =>
        match escapedJsonString (sys.allocates 1) method with
        | .error e => escapeFailed client e
        | .ok escapedMethod =>
          sendFormat sys 0 2 client
            [text "\x7b\"type\":\"call\",\"id\":", decimal requestId, text ",\"target\":\"",
              escapedTarget, text "\",\"method\":\"", escapedMethod, text "\",\"payload\":",
              payload, text ",\"deadline_ms\":", decimal deadlineMs, text ",\"idempotent\":",
              if idempotent then text "true" else text "false", text "\x7d"]

def sendEventJson (sys : System) (client : Option Client) (topic payloadJson : Option Bytes) :
    Option SendReply :=
  let payload := payloadJson.getD emptyPayload
  match validateRawValue (some payload) with
  | some e => some (setResult client e 0 none)
  | none =>
    match escapedJsonString (sys.allocates 0) topic with
    | .error e => escapeFailed client e
    | .ok escapedTopic =>
      sendFormat sys 0 1 client
        [text "\x7b\"type\":\"event\",\"topic\":\"", escapedTopic, text "\",\"payload\":", payload,
          text "\x7d"]

def sendReturnJson (sys : System) (client : Option Client) (requestId : UInt64)
    (payloadJson : Option Bytes) : Option SendReply :=
  let payload := payloadJson.getD emptyPayload
  match validateRawValue (some payload) with
  | some e => some (setResult client e 0 none)
  | none =>
    sendFormat sys 0 0 client
      [text "\x7b\"type\":\"return\",\"id\":", decimal requestId, text ",\"payload\":", payload,
        text "\x7d"]

def sendError (sys : System) (client : Option Client) (requestId : UInt64)
    (code message : Option Bytes) : Option SendReply :=
  match escapedJsonString (sys.allocates 0) (some (code.getD (text "ERROR"))) with
  | .error e => escapeFailed client e
  | .ok escapedCode =>
    match escapedJsonString (sys.allocates 1) (some (message.getD [])) with
    | .error e => escapeFailed client e
    | .ok escapedMessage =>
      sendFormat sys 0 2 client
        [text "\x7b\"type\":\"error\",\"id\":", decimal requestId, text ",\"code\":\"", escapedCode,
          text "\",\"message\":\"", escapedMessage, text "\"\x7d"]

end Msys.Mipc
