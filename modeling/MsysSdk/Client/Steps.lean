import MsysSdk.Client.Model

/-! What each action can do, as a relation: one constructor for each way through it, with
the tests that lead there and the state it leaves. Invariants are proved from this alone. -/

namespace Msys.Client
open Python

inductive Step (cfg : Config) (s : State) : Action → State → Prop
  | ensureClosed {c} (pc : s.caller c = .start) (hc : s.closed = true) :
    Step cfg s (.callEnsure c) (s.setCaller c (.done none (.raised (.client s.callTerminalError))))
  | ensureOpen {c} (pc : s.caller c = .start) (hc : s.closed = false) :
    Step cfg s (.callEnsure c) (s.startReader.setCaller c .enter)
  | lockClosed {c} (pc : s.caller c = .enter) (lock : s.pendingLock = none) (hc : s.closed = true) :
    Step cfg s (.callLock c) (s.setCaller c (.done none (.raised (.client s.callTerminalError))))
  | lockOpen {c} (pc : s.caller c = .enter) (lock : s.pendingLock = none) (hc : s.closed = false) :
    Step cfg s (.callLock c) { s.setCaller c .registering with pendingLock := some (.caller c) }
  | register {c} (pc : s.caller c = .registering) :
    Step cfg s (.callRegister c) { s.setCaller c (.registered s.nextId) with
      nextId := s.nextId + 1
      pending := s.pending.insert s.nextId c
      pendingLock := none }
  | deadline {c id} (pc : s.caller c = .registered id) :
    Step cfg s (.callSend c none) (s.setCaller c (.finishing id (.raised .deadline)))
  | callSend {c id d} (pc : s.caller c = .registered id) :
    Step cfg s (.callSend c (some d))
      ((s.setSend (.caller c) (beginSend cfg.py (.dict (callRecord id (cfg.args c) d)))).setCaller
        c (.sending id))
  | sent {c id m} (pc : s.caller c = .sending id) (frame : s.send (.caller c) = some ⟨m, .sent⟩) :
    Step cfg s (.callSent c) (s.setCaller c (.waiting id))
  | notSent {c id m e} (pc : s.caller c = .sending id)
      (frame : s.send (.caller c) = some ⟨m, .raised e⟩) :
    Step cfg s (.callSent c) (s.setCaller c (.finishing id (.raised e)))
  | get {c id item} (pc : s.caller c = .waiting id) (slot : s.waiter c = some item) :
    Step cfg s (.callGet c) ((s.take c).setCaller c (.finishing id item.outcome))
  | empty {c id} (pc : s.caller c = .waiting id) (slot : s.waiter c = none)
      (ht : (cfg.args c).requestTimeout ≤ cfg.timeoutMax) :
    Step cfg s (.callEmpty c) (s.setCaller c (.expired id))
  | overflow {c id} (pc : s.caller c = .waiting id) (slot : s.waiter c = none)
      (ht : cfg.timeoutMax < (cfg.args c).requestTimeout) :
    Step cfg s (.callOverflow c) (s.setCaller c (.finishing id (.raised .overflowError)))
  | recheckItem {c id item} (pc : s.caller c = .expired id) (lock : s.pendingLock = none)
      (slot : s.waiter c = some item) :
    Step cfg s (.callRecheck c) ((s.take c).setCaller c (.finishing id item.outcome))
  | recheckEmpty {c id} (pc : s.caller c = .expired id) (lock : s.pendingLock = none)
      (slot : s.waiter c = none) :
    Step cfg s (.callRecheck c)
      ((s.unregister id c).setCaller c (.finishing id (.raised (timedOut (cfg.args c)))))
  | finish {c id o} (pc : s.caller c = .finishing id o) (lock : s.pendingLock = none) :
    Step cfg s (.callFinish c) ((s.unregister id c).setCaller c (.done (some id) o))
  | senderStart {k} (frame : s.send (.sender k) = none) :
    Step cfg s (.senderStart k) (s.setSend (.sender k) (beginSend cfg.py (cfg.message k)))
  | testClosed {t m} (frame : s.send t = some ⟨m, .test⟩) (hc : s.closed = true) :
    Step cfg s (.sendTest t) (s.setSend t ⟨m, .raised (.client s.callTerminalError)⟩)
  | testOpen {t m} (frame : s.send t = some ⟨m, .test⟩) (hc : s.closed = false) :
    Step cfg s (.sendTest t) (s.setSend t ⟨m, .lock⟩)
  | lockedClosed {t m} (frame : s.send t = some ⟨m, .lock⟩) (lock : s.sendLock = none)
      (hc : s.closed = true) :
    Step cfg s (.sendLocked t) (s.setSend t ⟨m, .raised (.client s.callTerminalError)⟩)
  | lockedOpen {t m} (frame : s.send t = some ⟨m, .lock⟩) (lock : s.sendLock = none)
      (hc : s.closed = false) :
    Step cfg s (.sendLocked t) { s.setSend t ⟨m, .sendall⟩ with sendLock := some t }
  | transmit {t m} (frame : s.send t = some ⟨m, .sendall⟩) :
    Step cfg s (.sendSendall t none) { s.setSend t ⟨m, .sent⟩ with
      sendLock := none
      transmitted := s.transmitted ++ [(t, m)] }
  | osError {t m text} (frame : s.send t = some ⟨m, .sendall⟩) :
    Step cfg s (.sendSendall t (some text))
      { s.setSend t ⟨m, .failed text⟩ with sendLock := none }
  | failedClosed {t m text} (frame : s.send t = some ⟨m, .failed text⟩) (hc : s.closed = true) :
    Step cfg s (.sendFailed t) (s.setSend t ⟨m, .raised (.client s.callTerminalError)⟩)
  | failedOpen {t m text} (frame : s.send t = some ⟨m, .failed text⟩) (hc : s.closed = false) :
    Step cfg s (.sendFailed t)
      ((s.setTerm t ⟨sendError text, none, some (sendError text), .enter⟩).setSend
        t ⟨m, .terminating (sendError text)⟩)
  | sendRaise {t m error e i r b} (frame : s.send t = some ⟨m, .terminating error⟩)
      (term : s.term t = some ⟨e, i, r, .returned b⟩) :
    Step cfg s (.sendRaise t) (s.setSend t ⟨m, .raised (.client error)⟩)
  | late {t e i r} (term : s.term t = some ⟨e, i, r, .enter⟩) (hc : s.closed = true) :
    Step cfg s (.termEnter t) (s.setTerm t ⟨e, i, r, .returned false⟩)
  | win {t e i r} (term : s.term t = some ⟨e, i, r, .enter⟩) (hc : s.closed = false) :
    Step cfg s (.termEnter t) { s.setTerm t ⟨e, i, r, .sweep⟩ with
      terminalCallError := some e
      terminalRecvError := r
      closed := true }
  | sweep {t e i r} (term : s.term t = some ⟨e, i, r, .sweep⟩) (lock : s.pendingLock = none) :
    Step cfg s (.termSweep t) { s.setTerm t ⟨e, i, r,
        .sweeping (Waiters.listed s.pending)⟩ with
      pending := ∅
      pendingLock := some t }
  | fail {t e i r c ws} (term : s.term t = some ⟨e, i, r, .sweeping (c :: ws)⟩) :
    Step cfg s (.termPut t)
      ((s.put c (.failure (.fromError e))).setTerm t ⟨e, i, r, .sweeping ws⟩)
  | release {t e i r} (term : s.term t = some ⟨e, i, r, .sweeping []⟩) :
    Step cfg s (.termRelease t)
      { s.setTerm t ⟨e, i, r, .announce⟩ with pendingLock := none }
  | announce {t e i r} (term : s.term t = some ⟨e, i, r, .announce⟩) :
    Step cfg s (.termAnnounce t) { s.setTerm t ⟨e, i, r, .returned true⟩ with
      eventQueue := s.eventQueue ++ terminalItems i r
      enqueued := s.enqueued ++ terminalItems i r }
  | closeStart {k} (term : s.term (.closer k) = none) :
    Step cfg s (.closeStart k) (s.setTerm (.closer k) ⟨closeError, some eof, none, .enter⟩)
  | readerTest (pc : s.reader = .loop) :
    Step cfg s .readerTest { s with reader := if s.closed then .stopped else .reading }
  | readFailed {text} (pc : s.reader = .reading) :
    Step cfg s (.readerRead (.osError text))
      { s with reader := .failed text, wire := s.wire ++ [.osError text] }
  | readBad {b e} (pc : s.reader = .reading) (packet : readPacket cfg.py b = .error e) :
    Step cfg s (.readerRead (.data b))
      (s.readerTerminate (s.wire ++ [.data b]) e none (some e))
  | readEof {b} (pc : s.reader = .reading) (packet : readPacket cfg.py b = .ok none) :
    Step cfg s (.readerRead (.data b))
      (s.readerTerminate (s.wire ++ [.data b]) eofError (some eof) none)
  | readShutdown {b m} (pc : s.reader = .reading) (packet : readPacket cfg.py b = .ok (some m))
      (hm : (field m "type").isKey (str "shutdown") = true) :
    Step cfg s (.readerRead (.data b))
      (s.readerTerminate (s.wire ++ [.data b]) ⟨.shutdown, [shutdownReason cfg.py m]⟩
        (some m) none)
  | read {b m} (pc : s.reader = .reading) (packet : readPacket cfg.py b = .ok (some m))
      (hm : (field m "type").isKey (str "shutdown") = false) :
    Step cfg s (.readerRead (.data b)) { s with
      reader := .dispatch (s.wire.length + 1) m
      wire := s.wire ++ [.data b] }
  | readerDead {text} (pc : s.reader = .failed text) (hc : s.closed = true) :
    Step cfg s .readerFailed { s with reader := .stopped }
  | readerFailed {text} (pc : s.reader = .failed text) (hc : s.closed = false) :
    Step cfg s .readerFailed
      (s.readerTerminate s.wire (receiveError text) none (some (receiveError text)))
  | unhashable {n m text} (pc : s.reader = .dispatch n m) (hm : replyId m = .error text) :
    Step cfg s .readerDispatch
      (s.readerTerminate s.wire (readerError text) none (some (readerError text)))
  | notReply {n m} (pc : s.reader = .dispatch n m) (hm : replyId m = .ok none) :
    Step cfg s .readerDispatch { s with reader := .enqueue n m }
  | unknown {n m id} (pc : s.reader = .dispatch n m) (hm : replyId m = .ok (some id))
      (lock : s.pendingLock = none) (look : s.pending.lookup id = none) :
    Step cfg s .readerDispatch { s with reader := .enqueue n m }
  | full {n m id c item} (pc : s.reader = .dispatch n m) (hm : replyId m = .ok (some id))
      (lock : s.pendingLock = none) (look : s.pending.lookup id = some c)
      (slot : s.waiter c = some item) :
    Step cfg s .readerDispatch { s with reader := .enqueue n m }
  | deliver {n m id c} (pc : s.reader = .dispatch n m) (hm : replyId m = .ok (some id))
      (lock : s.pendingLock = none) (look : s.pending.lookup id = some c)
      (slot : s.waiter c = none) :
    Step cfg s .readerDispatch { s.put c (.record (some n) m) with
      reader := .loop
      routed := s.routed ++ [⟨n, m, .waiter c⟩] }
  | enqueue {n m} (pc : s.reader = .enqueue n m) :
    Step cfg s .readerEnqueue { s with
      reader := .loop
      eventQueue := s.eventQueue ++ [.record (some n) m]
      enqueued := s.enqueued ++ [.record (some n) m]
      routed := s.routed ++ [⟨n, m, .mailbox⟩] }
  | readerStop {e i r b} (pc : s.reader = .terminating)
      (term : s.term .reader = some ⟨e, i, r, .returned b⟩) :
    Step cfg s .readerStop { s with reader := .stopped }
  | recvStart (pc : s.receiver = .idle) :
    Step cfg s .recvStart { s with
      receiver := .test
      reader := if s.closed then s.reader else s.startReader.reader }
  | recvTest (pc : s.receiver = .test) :
    Step cfg s .recvTest { s with receiver := if s.closed then .nowait else .waiting }
  | recvItem {item rest} (queue : s.eventQueue = item :: rest)
      (pc : s.receiver = .nowait ∨ s.receiver = .waiting) :
    Step cfg s .recvItem { s with
      receiver := .idle
      eventQueue := rest
      results := s.results ++ [item.result] }
  | recvNone (pc : s.receiver = .nowait) (queue : s.eventQueue = []) :
    Step cfg s .recvEmpty { s with receiver := .terminal }
  | recvTimeout (pc : s.receiver = .waiting) (queue : s.eventQueue = []) :
    Step cfg s .recvEmpty { s with receiver := .recheck }
  | recvRefused (pc : s.receiver = .waiting) :
    Step cfg s .recvRefused { s with receiver := .idle }
  | recvRecheck (pc : s.receiver = .recheck) :
    Step cfg s .recvRecheck { s with receiver := if s.closed then .terminal else .idle }
  | recvTerminal (pc : s.receiver = .terminal) :
    Step cfg s .recvTerminal { s with
      receiver := .idle
      results := s.results ++ [.terminal (terminalRecvResult s)] }

theorem step_sound {cfg : Config} {s s' : State} {a : Action} (h : step cfg s a = some s') :
    Step cfg s a s' := by
  cases a with
  | readerDispatch =>
    simp only [step, readerDispatch] at h
    split at h
    next n m pc =>
      split at h
      next text hm => cases h; exact .unhashable pc hm
      next hm => cases h; exact .notReply pc hm
      next id hm =>
        split at h
        next => cases h
        next lock =>
          split at h
          next look => cases h; exact .unknown pc hm lock look
          next c look =>
            split at h
            next item slot => cases h; exact .full pc hm lock look slot
            next slot => cases h; exact .deliver pc hm lock look slot
    next => cases h
  | recvItem =>
    simp only [step, recvItem] at h
    split at h
    next => cases h
    next item rest queue =>
      split at h
      next pc => cases h; exact .recvItem queue pc
      next => cases h
  | readerTest =>
    simp only [step, readerTest] at h
    split at h
    next pc => cases h; exact .readerTest pc
    next => cases h
  | recvStart =>
    simp only [step, recvStart] at h
    split at h
    next pc => cases h; exact .recvStart pc
    next => cases h
  | recvTest =>
    simp only [step, recvTest] at h
    split at h
    next pc => cases h; exact .recvTest pc
    next => cases h
  | recvRecheck =>
    simp only [step, recvRecheck] at h
    split at h
    next pc => cases h; exact .recvRecheck pc
    next => cases h
  | _ =>
    simp only [step, callEnsure, callLock, callRegister, callSend, callSent, callGet, callEmpty,
      callOverflow, callRecheck, callFinish, senderStart, sendTest, sendLocked, sendSendall,
      sendFailed, sendRaise, termEnter, termSweep, termPut, termRelease, termAnnounce, closeStart,
      readerRead, readerFailed, readerEnqueue, readerStop, recvEmpty, recvRefused,
      recvTerminal] at h
    (repeat' split at h) <;> cases h <;> constructor <;>
      first | assumption | exact Bool.eq_false_iff.mpr ‹_›

end Msys.Client
