import MsysSdk.Records
import MsysSdk.Runs.Transition
import MsysSdk.Framing.Lines

/-! `StdioBridge`: the child, the two pump threads and the main loop of `run` take turns on
the child's pipes, the control socket and the results queue. -/

namespace Msys.Bridge
open Python Framing

inductive Exc
  | protocol (text : Str)
  | osError (text : Str)
  | valueError (text : Str)
  | recursion (text : Str)
deriving DecidableEq

def newline : UInt8 := 10

def carriageReturn : UInt8 := 13

/-- `json.loads` gives an object. Only a UnicodeError or a JSONDecodeError is turned into a
BridgeProtocolError. -/
def checkObject (py : Interpreter) (record : Bytes) (invalid notObject : Str) : Except Exc Unit :=
  match loads py false record with
  | .ok (.dict _) => .ok ()
  | .ok _ => .error (.protocol notObject)
  | .error .recursion => .error (.recursion (py.loadsText record .recursion))
  | .error .digits => .error (.valueError (py.loadsText record .digits))
  | .error e => .error (.protocol (invalid ++ py.loadsText record e))

/-- `_validated_record`. -/
def validatedRecord (py : Interpreter) (line : Bytes) : Except Exc Bytes :=
  if line.getLast? ≠ some newline then
    .error (.protocol (str "child mIPC record is not newline terminated"))
  else
    let record := line.dropLast
    let record := if record.getLast? = some carriageReturn then record.dropLast else record
    if record = [] then .error (.protocol (str "child emitted an empty mIPC record"))
    else if maxPacket < record.length then
      .error (.protocol (str "child mIPC record is too large"))
    else
      match checkObject py record (str "child emitted invalid mIPC JSON: ")
        (str "child mIPC record must be a JSON object") with
      | .ok () => .ok record
      | .error e => .error e

/-- What `_socket_to_child` requires of a packet. -/
def checkPacket (py : Interpreter) (packet : Bytes) : Except Exc Unit :=
  if maxPacket < packet.length then
    .error (.protocol (str "supervisor mIPC record is too large"))
  else checkObject py packet (str "supervisor emitted invalid mIPC JSON: ")
    (str "supervisor mIPC record must be a JSON object")

inductive Source
  | controlEof
  | controlInput
  | childEof
  | childOutput
deriving DecidableEq

/-- `_PumpResult`. -/
structure PumpResult where
  source : Source
  error : Option Exc
deriving DecidableEq

/-- The process that the bridge starts; while it runs, whether its stdout is open. -/
inductive Child
  | absent
  | running (stdout : Bool)
  | exited (code : Int)
deriving DecidableEq

/-- `process.poll()`. -/
def Child.poll : Child → Option Int
  | .exited code => some code
  | _ => none

/-- The child has closed its stdout, or is no more. -/
def Child.ended : Child → Bool
  | .running false | .exited _ => true
  | _ => false

inductive OutputPc
  | absent
  | test
  | read
  | sending (record : Bytes)
  | failed (e : Exc)
  | reporting (r : PumpResult)
  | ended
deriving DecidableEq

inductive InputPc
  | absent
  | test
  | recv
  | writing (packet : Bytes)
  | failed (e : Exc)
  | reporting (r : PumpResult)
  | ended
deriving DecidableEq

/-- How `run` leaves its `try` block. -/
inductive Leaving
  | returning (failure : Option PumpResult) (returncode : Int)
  | raising
deriving DecidableEq

/-- The statements of the `finally` block. -/
inductive Phase
  | stop
  | shutdown
  | closeStdin
  | closeStdout
  | joinInput
  | joinOutput
deriving DecidableEq

inductive RunPc
  | start
  | refused
  | poll
  | get
  | waitEof
  | terminate (failure : PumpResult)
  | terminating (failure : PumpResult)
  | killing (failure : PumpResult)
  | wait (failure : Option PumpResult)
  | leaving (phase : Phase) (o : Leaving)
  | left (o : Leaving)
deriving DecidableEq

/-- What `control.recv` gives: bytes (empty at EOF) or an OSError. -/
inductive Received
  | data (b : Bytes)
  | osError (text : Str)
deriving DecidableEq

/-- `pipe` holds what the child has written and nobody has read. The fields from `wrote` on
record the past: all that the child wrote, the lines read from it, the records sent on the
control socket, the packets passed on to the child, and the bytes of these in its stdin. -/
structure State where
  child : Child
  pipe : Bytes
  stop : Bool
  shut : Bool
  stdinClosed : Bool
  stdoutClosed : Bool
  results : List PumpResult
  run : RunPc
  output : OutputPc
  input : InputPc
  wrote : Bytes
  read : List Bytes
  sent : List Bytes
  forwarded : List Bytes
  toChild : Bytes

def init : State where
  child := .absent
  pipe := []
  stop := false
  shut := false
  stdinClosed := false
  stdoutClosed := false
  results := []
  run := .start
  output := .absent
  input := .absent
  wrote := []
  read := []
  sent := []
  forwarded := []
  toChild := []

/-! ### The child -/

def childWrite (s : State) (b : Bytes) : Option State :=
  match s.child with
  | .running true => some { s with pipe := s.pipe ++ b, wrote := s.wrote ++ b }
  | _ => none

def childClose (s : State) : Option State :=
  match s.child with
  | .running true => some { s with child := .running false }
  | _ => none

def childExit (s : State) (code : Int) : Option State :=
  match s.child with
  | .running _ => some { s with child := .exited code }
  | _ => none

/-! ### _child_to_socket -/

def outputTest (s : State) : Option State :=
  match s.output with
  | .test => some { s with output := if s.stop then .ended else .read }
  | _ => none

/-- What the pump does with a line that it has read. -/
def lineRead (py : Interpreter) (line : Bytes) : OutputPc :=
  match validatedRecord py line with
  | .ok record => .sending record
  | .error e => .reporting ⟨.childOutput, some e⟩

def closedRead : PumpResult :=
  ⟨.childOutput, some (.valueError (str "readline of closed file"))⟩

/-- `readline` blocks until it has a line, enough bytes or the end of the stream. -/
def outputRead (py : Interpreter) (s : State) : Option State :=
  match s.output with
  | .read =>
    -- a ValueError is no OSError: it is reported although the bridge is stopping
    if s.stdoutClosed then some { s with output := .reporting closedRead }
    else
      match takeLine newline (maxPacket + 2) s.pipe with
      | some (line, rest) =>
        some { s with pipe := rest, read := s.read ++ [line], output := lineRead py line }
      | none =>
        if !s.child.ended then none
        else if s.pipe = [] then some { s with output := .reporting ⟨.childEof, none⟩ }
        else some { s with pipe := [], read := s.read ++ [s.pipe], output := lineRead py s.pipe }
  | _ => none

/-- `control.sendall`; a socket that was shut down takes nothing. -/
def outputSend (s : State) (taken : Except Str Unit) : Option State :=
  match s.output, taken with
  | .sending record, .ok () =>
    if s.shut then none else some { s with output := .test, sent := s.sent ++ [record] }
  | .sending _, .error text => some { s with output := .failed (.osError text) }
  | _, _ => none

/-- An OSError is reported unless the bridge is stopping. -/
def outputFailed (s : State) : Option State :=
  match s.output with
  | .failed e =>
    some { s with output := if s.stop then .ended else .reporting ⟨.childOutput, some e⟩ }
  | _ => none

def outputReport (s : State) : Option State :=
  match s.output with
  | .reporting r => some { s with output := .ended, results := s.results ++ [r] }
  | _ => none

/-! ### _socket_to_child -/

def inputTest (s : State) : Option State :=
  match s.input with
  | .test => some { s with input := if s.stop then .ended else .recv }
  | _ => none

def inputRecv (py : Interpreter) (s : State) (r : Received) : Option State :=
  match s.input, r with
  | .recv, .osError text => some { s with input := .failed (.osError text) }
  | .recv, .data packet =>
    if packet = [] then some { s with input := .reporting ⟨.controlEof, none⟩ }
    else
      match checkPacket py packet with
      | .ok () => some { s with input := .writing packet }
      | .error e => some { s with input := .reporting ⟨.controlInput, some e⟩ }
  | _, _ => none

def closedWrite : PumpResult :=
  ⟨.controlInput, some (.valueError (str "write to closed file"))⟩

/-- `stream.write` and `stream.flush`. The bytes of a write that fails are not recorded. -/
def inputWrite (s : State) (taken : Except Str Unit) : Option State :=
  match s.input with
  | .writing packet =>
    if s.stdinClosed then some { s with input := .reporting closedWrite }
    else
      match taken with
      | .ok () => some { s with
          input := .test
          forwarded := s.forwarded ++ [packet]
          toChild := s.toChild ++ packet ++ [newline] }
      | .error text => some { s with input := .failed (.osError text) }
  | _ => none

def inputFailed (s : State) : Option State :=
  match s.input with
  | .failed e =>
    some { s with input := if s.stop then .ended else .reporting ⟨.controlInput, some e⟩ }
  | _ => none

def inputReport (s : State) : Option State :=
  match s.input with
  | .reporting r => some { s with input := .ended, results := s.results ++ [r] }
  | _ => none

/-! ### run -/

/-- `Popen`, and the start of the threads; an OSError makes `run` return 126. -/
def spawn (s : State) (started : Bool) : Option State :=
  match s.run with
  | .start =>
    if started then
      some { s with run := .poll, child := .running true, output := .test, input := .test }
    else some { s with run := .refused }
  | _ => none

def stillRunning : PumpResult :=
  ⟨.childOutput, some (.protocol (str "child closed its mIPC output while still running"))⟩

/-- One statement of the `finally` block; a join ends with the thread or with its timeout. -/
def finish (s : State) (o : Leaving) : Phase → State
  | .stop => { s with stop := true, run := .leaving .shutdown o }
  | .shutdown => { s with shut := true, run := .leaving .closeStdin o }
  | .closeStdin => { s with stdinClosed := true, run := .leaving .closeStdout o }
  | .closeStdout => { s with stdoutClosed := true, run := .leaving .joinInput o }
  | .joinInput => { s with run := .leaving .joinOutput o }
  | .joinOutput => { s with run := .left o }

/-- The main thread from its loop on. A wait with a timeout goes on at any time, with what it
finds of the child then; so does `get` on an empty queue. -/
def runStep (s : State) : Option State :=
  match s.run, s.child.poll with
  -- the loop ends with `failure` still None, whatever is in the queue
  | .poll, some _ => some { s with run := .wait none }
  | .poll, none => some { s with run := .get }
  | .get, _ =>
    match s.results with
    | [] => some { s with run := .poll }
    | r :: rest =>
      some { s with
        results := rest
        run := if r.source = .childEof then .waitEof else .terminate r }
  | .waitEof, some _ => some { s with run := .wait none }
  | .waitEof, none => some { s with run := .terminate stillRunning }
  | .terminate r, some _ => some { s with run := .wait (some r) }
  | .terminate r, none => some { s with run := .terminating r }
  | .terminating r, some _ => some { s with run := .wait (some r) }
  | .terminating r, none => some { s with run := .killing r }
  | .killing r, some _ => some { s with run := .wait (some r) }
  -- TimeoutExpired of the second wait leaves `run` through its `finally` block
  | .killing _, none => some { s with run := .leaving .stop .raising }
  | .wait f, some code => some { s with run := .leaving .stop (.returning f code) }
  | .leaving phase o, _ => some (finish s o phase)
  | _, _ => none

/-- What `run` returns. -/
def exitStatus : RunPc → Option Int
  | .refused => some 126
  | .left (.returning (some _) _) => some 65
  | .left (.returning none code) => some (if 0 ≤ code then code else 128 + code.natAbs)
  | _ => none

inductive Action
  | childWrite (b : Bytes)
  | childClose
  | childExit (code : Int)
  | spawn (started : Bool)
  | run
  | outputTest
  | outputRead
  | outputSend (taken : Except Str Unit)
  | outputFailed
  | outputReport
  | inputTest
  | inputRecv (r : Received)
  | inputWrite (taken : Except Str Unit)
  | inputFailed
  | inputReport

def step (py : Interpreter) (s : State) : Action → Option State
  | .childWrite b => childWrite s b
  | .childClose => childClose s
  | .childExit code => childExit s code
  | .spawn started => spawn s started
  | .run => runStep s
  | .outputTest => outputTest s
  | .outputRead => outputRead py s
  | .outputSend taken => outputSend s taken
  | .outputFailed => outputFailed s
  | .outputReport => outputReport s
  | .inputTest => inputTest s
  | .inputRecv r => inputRecv py s r
  | .inputWrite taken => inputWrite s taken
  | .inputFailed => inputFailed s
  | .inputReport => inputReport s

end Msys.Bridge
