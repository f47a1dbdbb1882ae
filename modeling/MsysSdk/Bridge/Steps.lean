import MsysSdk.Bridge.Model

/-! What each action of the bridge can do, as a relation with one constructor for each way
through it. -/

namespace Msys.Bridge
open Python Framing

/-- The child is being terminated because of this failure. -/
def RunPc.terminates (pc : RunPc) (r : PumpResult) : Prop :=
  pc = .terminate r ∨ pc = .terminating r ∨ pc = .killing r

inductive Step (py : Interpreter) (s : State) : Action → State → Prop
  | childWrite {b} (pc : s.child = .running true) :
    Step py s (.childWrite b) { s with pipe := s.pipe ++ b, wrote := s.wrote ++ b }
  | childClose (pc : s.child = .running true) :
    Step py s .childClose { s with child := .running false }
  | childExit {o code} (pc : s.child = .running o) :
    Step py s (.childExit code) { s with child := .exited code }
  | started (pc : s.run = .start) :
    Step py s (.spawn true)
      { s with run := .poll, child := .running true, output := .test, input := .test }
  | refused (pc : s.run = .start) : Step py s (.spawn false) { s with run := .refused }
  | pollExited {code} (pc : s.run = .poll) (hc : s.child.poll = some code) :
    Step py s .run { s with run := .wait none }
  | pollRunning (pc : s.run = .poll) (hc : s.child.poll = none) :
    Step py s .run { s with run := .get }
  | getEmpty (pc : s.run = .get) (hr : s.results = []) : Step py s .run { s with run := .poll }
  | getEof {r rest} (pc : s.run = .get) (hr : s.results = r :: rest) (hs : r.source = .childEof) :
    Step py s .run { s with results := rest, run := .waitEof }
  | getFailure {r rest} (pc : s.run = .get) (hr : s.results = r :: rest)
      (hs : r.source ≠ .childEof) : Step py s .run { s with results := rest, run := .terminate r }
  | eofExited {code} (pc : s.run = .waitEof) (hc : s.child.poll = some code) :
    Step py s .run { s with run := .wait none }
  | eofRunning (pc : s.run = .waitEof) (hc : s.child.poll = none) :
    Step py s .run { s with run := .terminate stillRunning }
  | terminated {r code} (pc : s.run.terminates r) (hc : s.child.poll = some code) :
    Step py s .run { s with run := .wait (some r) }
  | signalled {r} (pc : s.run = .terminate r) (hc : s.child.poll = none) :
    Step py s .run { s with run := .terminating r }
  | killed {r} (pc : s.run = .terminating r) (hc : s.child.poll = none) :
    Step py s .run { s with run := .killing r }
  | gaveUp {r} (pc : s.run = .killing r) (hc : s.child.poll = none) :
    Step py s .run { s with run := .leaving .stop .raising }
  | waited {f code} (pc : s.run = .wait f) (hc : s.child.poll = some code) :
    Step py s .run { s with run := .leaving .stop (.returning f code) }
  | finish {phase o} (pc : s.run = .leaving phase o) : Step py s .run (finish s o phase)
  | outputTest (pc : s.output = .test) :
    Step py s .outputTest { s with output := if s.stop then .ended else .read }
  | readClosed (pc : s.output = .read) (hc : s.stdoutClosed = true) :
    Step py s .outputRead { s with output := .reporting closedRead }
  | readLine {line rest} (pc : s.output = .read) (hc : s.stdoutClosed = false)
      (hl : takeLine newline (maxPacket + 2) s.pipe = some (line, rest)) :
    Step py s .outputRead
      { s with pipe := rest, read := s.read ++ [line], output := lineRead py line }
  | readEof (pc : s.output = .read) (hc : s.stdoutClosed = false) (he : s.child.ended = true)
      (hp : s.pipe = []) :
    Step py s .outputRead { s with output := .reporting ⟨.childEof, none⟩ }
  | readRest (pc : s.output = .read) (hc : s.stdoutClosed = false) (he : s.child.ended = true)
      (hl : takeLine newline (maxPacket + 2) s.pipe = none) (hp : s.pipe ≠ []) :
    Step py s .outputRead
      { s with pipe := [], read := s.read ++ [s.pipe], output := lineRead py s.pipe }
  | sent {record} (pc : s.output = .sending record) (hs : s.shut = false) :
    Step py s (.outputSend (.ok ())) { s with output := .test, sent := s.sent ++ [record] }
  | notSent {record text} (pc : s.output = .sending record) :
    Step py s (.outputSend (.error text)) { s with output := .failed (.osError text) }
  | outputFailed {e} (pc : s.output = .failed e) :
    Step py s .outputFailed
      { s with output := if s.stop then .ended else .reporting ⟨.childOutput, some e⟩ }
  | outputReport {r} (pc : s.output = .reporting r) :
    Step py s .outputReport { s with output := .ended, results := s.results ++ [r] }
  | inputTest (pc : s.input = .test) :
    Step py s .inputTest { s with input := if s.stop then .ended else .recv }
  | recvFailed {text} (pc : s.input = .recv) :
    Step py s (.inputRecv (.osError text)) { s with input := .failed (.osError text) }
  | recvEof (pc : s.input = .recv) :
    Step py s (.inputRecv (.data [])) { s with input := .reporting ⟨.controlEof, none⟩ }
  | recvBad {packet e} (pc : s.input = .recv) (hp : packet ≠ [])
      (check : checkPacket py packet = .error e) :
    Step py s (.inputRecv (.data packet)) { s with input := .reporting ⟨.controlInput, some e⟩ }
  | recv {packet} (pc : s.input = .recv) (hp : packet ≠ []) (check : checkPacket py packet = .ok ()) :
    Step py s (.inputRecv (.data packet)) { s with input := .writing packet }
  | writeClosed {packet taken} (pc : s.input = .writing packet) (hc : s.stdinClosed = true) :
    Step py s (.inputWrite taken) { s with input := .reporting closedWrite }
  | written {packet} (pc : s.input = .writing packet) (hc : s.stdinClosed = false) :
    Step py s (.inputWrite (.ok ())) { s with
      input := .test
      forwarded := s.forwarded ++ [packet]
      toChild := s.toChild ++ packet ++ [newline] }
  | notWritten {packet text} (pc : s.input = .writing packet) (hc : s.stdinClosed = false) :
    Step py s (.inputWrite (.error text)) { s with input := .failed (.osError text) }
  | inputFailed {e} (pc : s.input = .failed e) :
    Step py s .inputFailed
      { s with input := if s.stop then .ended else .reporting ⟨.controlInput, some e⟩ }
  | inputReport {r} (pc : s.input = .reporting r) :
    Step py s .inputReport { s with input := .ended, results := s.results ++ [r] }

theorem run_sound {py : Interpreter} {s s' : State} (h : runStep s = some s') : Step py s .run s' := by
  unfold runStep at h
  split at h
  next pc hc => cases h; exact .pollExited pc hc
  next pc hc => cases h; exact .pollRunning pc hc
  next pc =>
    split at h
    next hr => cases h; exact .getEmpty pc hr
    next r rest hr =>
      cases h
      split_ifs with hs
      · exact .getEof pc hr hs
      · exact .getFailure pc hr hs
  next pc hc => cases h; exact .eofExited pc hc
  next pc hc => cases h; exact .eofRunning pc hc
  next pc hc => cases h; exact .terminated (.inl pc) hc
  next pc hc => cases h; exact .signalled pc hc
  next pc hc => cases h; exact .terminated (.inr (.inl pc)) hc
  next pc hc => cases h; exact .killed pc hc
  next pc hc => cases h; exact .terminated (.inr (.inr pc)) hc
  next pc hc => cases h; exact .gaveUp pc hc
  next pc hc => cases h; exact .waited pc hc
  next pc => cases h; exact .finish pc
  next => cases h

theorem step_sound {py : Interpreter} {s s' : State} {a : Action} (h : step py s a = some s') :
    Step py s a s' := by
  cases a with
  | run => exact run_sound h
  | spawn started =>
    simp only [step, spawn] at h
    split at h
    next pc =>
      split_ifs at h with hs
      · cases h; cases hs; exact .started pc
      · cases h; cases started <;> first | exact .refused pc | exact absurd rfl hs
    next => cases h
  | outputRead =>
    simp only [step, outputRead] at h
    split at h
    next pc =>
      split at h
      next hc => cases h; exact .readClosed pc hc
      next hc =>
        have hc := Bool.eq_false_iff.mpr hc
        split at h
        next line rest hl => cases h; exact .readLine pc hc hl
        next hl =>
          split at h
          next => cases h
          next he =>
            have he : s.child.ended = true := by simpa using he
            split at h
            next hp => cases h; exact .readEof pc hc he hp
            next hp => cases h; exact .readRest pc hc he hl hp
    next => cases h
  | outputTest =>
    simp only [step, outputTest] at h
    split at h
    next pc => cases h; exact .outputTest pc
    next => cases h
  | outputFailed =>
    simp only [step, outputFailed] at h
    split at h
    next pc => cases h; exact .outputFailed pc
    next => cases h
  | inputTest =>
    simp only [step, inputTest] at h
    split at h
    next pc => cases h; exact .inputTest pc
    next => cases h
  | inputFailed =>
    simp only [step, inputFailed] at h
    split at h
    next pc => cases h; exact .inputFailed pc
    next => cases h
  | inputRecv r =>
    simp only [step, inputRecv] at h
    split at h
    next pc => cases h; exact .recvFailed pc
    next packet pc =>
      split_ifs at h with hp
      · subst hp; cases h; exact .recvEof pc
      · split at h
        next check => cases h; exact .recv pc hp check
        next e check => cases h; exact .recvBad pc hp check
    next => cases h
  | _ =>
    simp only [step, childWrite, childClose, childExit, outputSend, outputReport, inputWrite,
      inputReport] at h
    (repeat' split at h) <;> cases h <;> constructor <;>
      first | assumption | exact Bool.eq_false_iff.mpr ‹_›

end Msys.Bridge
