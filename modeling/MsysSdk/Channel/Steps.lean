import MsysSdk.Channel.Model

/-! What each action can do, as a relation: one constructor for each way through it, with
the tests that lead there and the state it leaves. Invariants are proved from this alone. -/

namespace Msys.Channel
open Python

inductive Step (cfg : Config) (s : State) : Action → State → Prop
  | senderStart {k} (frame : s.send (.sender k) = none) :
    Step cfg s (.senderStart k) (s.setSend (.sender k) (beginSend cfg.py (cfg.message k)))
  | sendLocked {t m data} (frame : s.send t = some ⟨m, data, .lock⟩) (lock : s.sendLock = none) :
    Step cfg s (.sendLocked t) { s.setSend t ⟨m, data, .sending⟩ with sendLock := some t }
  | sendAll {t m data n} (frame : s.send t = some ⟨m, data, .sending⟩) (hn : n = data.length) :
    Step cfg s (.sendWrite t (.ok n)) { s.setSend t ⟨m, data, .sent⟩ with
      sendLock := none
      transmitted := s.transmitted ++ [(t, m)] }
  | sendShort {t m data n} (frame : s.send t = some ⟨m, data, .sending⟩) (hn : n ≠ data.length) :
    Step cfg s (.sendWrite t (.ok n))
      { s.setSend t ⟨m, data, .raised (.mipc (str "Short component-channel send"))⟩ with
        sendLock := none }
  | sendFailed {t m data text} (frame : s.send t = some ⟨m, data, .sending⟩) :
    Step cfg s (.sendWrite t (.error text))
      { s.setSend t ⟨m, data,
          .raised (.unavailable (str "Component channel send failed: " ++ text))⟩ with
        sendLock := none }
  | callRefused {c e} (pc : s.caller c = .start)
      (check : callCheck (cfg.args c) s.pumpThread = some e) :
    Step cfg s (.callStart c) (s.setCaller c (.done none (.raised e)))
  | callEnter {c} (pc : s.caller c = .start)
      (check : callCheck (cfg.args c) s.pumpThread = none) :
    Step cfg s (.callStart c) (s.setCaller c .enter)
  | lockClosed {c} (pc : s.caller c = .enter) (lock : s.pendingLock = none)
      (hc : s.closed = true) :
    Step cfg s (.callLock c)
      (s.setCaller c (.done none (.raised (.unavailable (str "Component channel is closed")))))
  | lockOpen {c} (pc : s.caller c = .enter) (lock : s.pendingLock = none)
      (hc : s.closed = false) :
    Step cfg s (.callLock c) { s.setCaller c .registering with pendingLock := some c }
  | register {c} (pc : s.caller c = .registering) :
    Step cfg s (.callRegister c) { s.setCaller c (.registered s.nextId) with
      nextId := s.nextId + 1
      pending := s.pending.insert s.nextId c
      pendingLock := none }
  | deadline {c id} (pc : s.caller c = .registered id) :
    Step cfg s (.callSend c none) (s.setCaller c (.finishing id (.raised .deadline)))
  | callSend {c id d} (pc : s.caller c = .registered id) :
    Step cfg s (.callSend c (some d))
      ((s.setSend (.caller c) (beginSend cfg.py (.dict (callRecord id (cfg.args c) d)))).setCaller
        c (.sending id))
  | sent {c id m data} (pc : s.caller c = .sending id)
      (frame : s.send (.caller c) = some ⟨m, data, .sent⟩) :
    Step cfg s (.callSent c) (s.setCaller c (.waiting id))
  | notSent {c id m data e} (pc : s.caller c = .sending id)
      (frame : s.send (.caller c) = some ⟨m, data, .raised e⟩) :
    Step cfg s (.callSent c) (s.setCaller c (.finishing id (.raised e)))
  | get {c id item} (pc : s.caller c = .waiting id) (slot : s.waiter c = some item) :
    Step cfg s (.callGet c) ((s.take c).setCaller c (.finishing id (item.outcome cfg.py)))
  | timedOut {c id} (pc : s.caller c = .waiting id) (slot : s.waiter c = none)
      (ht : (cfg.args c).requestTimeout ≤ cfg.timeoutMax) :
    Step cfg s (.callEmpty c)
      (s.setCaller c (.finishing id (.raised (timedOut (cfg.args c)))))
  | overflow {c id} (pc : s.caller c = .waiting id) (slot : s.waiter c = none)
      (ht : ¬(cfg.args c).requestTimeout ≤ cfg.timeoutMax) :
    Step cfg s (.callEmpty c) (s.setCaller c (.finishing id (.raised .overflowError)))
  | finish {c id o} (pc : s.caller c = .finishing id o) (lock : s.pendingLock = none) :
    Step cfg s (.callFinish c) ((s.unregister id c).setCaller c (.done (some id) o))
  | failEnter {t e} (frame : s.fail t = some ⟨e, .enter⟩) (lock : s.pendingLock = none) :
    Step cfg s (.failEnter t)
      { s.setFail t ⟨e, .putting (Waiters.listed s.pending)⟩ with pending := ∅ }
  | failPut {t e c ws} (frame : s.fail t = some ⟨e, .putting (c :: ws)⟩) :
    Step cfg s (.failPut t) ((s.put c (.failure e)).setFail t ⟨e, .putting ws⟩)
  | closeTest {k} (pc : s.closer k = .idle) :
    Step cfg s (.closeTest k)
      { s with closer := Function.update s.closer k (if s.closed then .closed else .tested) }
  | closeSet {k} (pc : s.closer k = .tested) :
    Step cfg s (.closeSet k) { s.setFail (.closer k) ⟨closedError, .enter⟩ with
      closed := true
      closer := Function.update s.closer k .failing }
  | closeFinish {k e} (pc : s.closer k = .failing)
      (frame : s.fail (.closer k) = some ⟨e, .putting []⟩) :
    Step cfg s (.closeFinish k) { s with
      sockClosed := true
      closer := Function.update s.closer k .closed }
  | pumpStart (ht : s.pumpThread = false) :
    Step cfg s .pumpStart { s with pumpThread := true, pump := .loop }
  | pumpTest (pc : s.pump = .loop) :
    Step cfg s .pumpTest { s with pump := if s.closed then .returned else .settimeout }
  | pumpSettimeout (pc : s.pump = .settimeout) :
    Step cfg s .pumpSettimeout { s with pump := if s.sockClosed then .raised else .receiving }
  | recvTimeout (pc : s.pump = .receiving) :
    Step cfg s (.pumpReceive .timeout) { s with wire := s.wire ++ [.timeout], pump := .loop }
  | recvFailed {text} (pc : s.pump = .receiving) :
    Step cfg s (.pumpReceive (.osError text))
      { s with wire := s.wire ++ [.osError text], pump := .failed (s.wire.length + 1) text }
  | recvEof (pc : s.pump = .receiving) :
    Step cfg s (.pumpReceive (.data []))
      { s with wire := s.wire ++ [.data []], pump := .message (s.wire.length + 1) eof }
  | recvBad {b e} (pc : s.pump = .receiving) (hb : b ≠ []) (packet : decode cfg.py b = .error e) :
    Step cfg s (.pumpReceive (.data b))
      (State.pumpFail { s with wire := s.wire ++ [.data b] } e true)
  | recv {b m} (pc : s.pump = .receiving) (hb : b ≠ []) (packet : decode cfg.py b = .ok m) :
    Step cfg s (.pumpReceive (.data b))
      { s with wire := s.wire ++ [.data b], pump := .message (s.wire.length + 1) m }
  | failedClosed {n text} (pc : s.pump = .failed n text) (hc : s.closed = true) :
    Step cfg s .pumpFailed { s with pump := .message n eof }
  | failedOpen {n text} (pc : s.pump = .failed n text) (hc : s.closed = false) :
    Step cfg s .pumpFailed (s.pumpFail (receiveError text) true)
  | unhashable {n m text} (pc : s.pump = .message n m) (hm : replyId m = .error text) :
    Step cfg s .pumpRoute { s with pump := .raised }
  | notReply {n m} (pc : s.pump = .message n m) (hm : replyId m = .ok none) :
    Step cfg s .pumpRoute { s with pump := pass cfg n m }
  | found {n m id c} (pc : s.pump = .message n m) (hm : replyId m = .ok (some id))
      (lock : s.pendingLock = none) (look : s.pending.lookup id = some c) :
    Step cfg s .pumpRoute { s with pump := .deliver n m c }
  | unknown {n m id} (pc : s.pump = .message n m) (hm : replyId m = .ok (some id))
      (lock : s.pendingLock = none) (look : s.pending.lookup id = none) :
    Step cfg s .pumpRoute { s with pump := pass cfg n m }
  | deliver {n m c} (pc : s.pump = .deliver n m c) (slot : s.waiter c = none) :
    Step cfg s .pumpDeliver { s.put c (.record n m) with
      pump := .loop
      routed := s.routed ++ [⟨n, m, .waiter c⟩] }
  | full {n m c item} (pc : s.pump = .deliver n m c) (slot : s.waiter c = some item) :
    Step cfg s .pumpDeliver { s with pump := .loop, routed := s.routed ++ [⟨n, m, .dropped⟩] }
  | handle {n m id h frame b} (pc : s.pump = .handling n m id)
      (reply : replyFrame cfg.py id h = some (frame, b)) :
    Step cfg s (.pumpHandle h) { s.setSend .pump frame with
      pump := .replying id b
      handled := s.handled ++ [(id, h)] }
  | handleRaised {n m id h} (pc : s.pump = .handling n m id)
      (reply : replyFrame cfg.py id h = none) :
    Step cfg s (.pumpHandle h) { s with pump := .raised, handled := s.handled ++ [(id, h)] }
  | replied {id b m data} (pc : s.pump = .replying id b)
      (frame : s.send .pump = some ⟨m, data, .sent⟩) :
    Step cfg s .pumpSent { s with pump := .loop }
  | returnFailed {id m data e f} (pc : s.pump = .replying id false)
      (frame : s.send .pump = some ⟨m, data, .raised e⟩)
      (reply : errorFrame cfg.py id e.text = some f) :
    Step cfg s .pumpSent { s.setSend .pump f with pump := .replying id true }
  | returnRaised {id m data e} (pc : s.pump = .replying id false)
      (frame : s.send .pump = some ⟨m, data, .raised e⟩)
      (reply : errorFrame cfg.py id e.text = none) :
    Step cfg s .pumpSent { s with pump := .raised }
  | errorFailed {id m data e} (pc : s.pump = .replying id true)
      (frame : s.send .pump = some ⟨m, data, .raised e⟩) :
    Step cfg s .pumpSent { s with pump := .raised }
  | callback {n m} (pc : s.pump = .callback n m) :
    Step cfg s .pumpCallback { s with
      pump := .notified m
      callbacks := s.callbacks ++ [(some n, m)]
      routed := s.routed ++ [⟨n, m, .callback⟩] }
  | notifiedEnd {m} (pc : s.pump = .notified m) (hm : isTerminal m = true) :
    Step cfg s .pumpNotified (s.pumpFail closedError false)
  | notifiedOn {m} (pc : s.pump = .notified m) (hm : isTerminal m = false) :
    Step cfg s .pumpNotified { s with pump := .loop }
  | leave {announce e} (pc : s.pump = .failing announce)
      (frame : s.fail .pump = some ⟨e, .putting []⟩) :
    Step cfg s .pumpLeave { s with pump := if announce then .announcing else .returned }
  | announce (pc : s.pump = .announcing) :
    Step cfg s .pumpAnnounce
      { s with pump := .returned, callbacks := s.callbacks ++ [(none, eof)] }

theorem step_sound {cfg : Config} {s s' : State} {a : Action} (h : step cfg s a = some s') :
    Step cfg s a s' := by
  cases a with
  | pumpReceive r =>
    simp only [step, pumpReceive] at h
    split at h
    next pc =>
      split at h
      next => cases h; exact .recvTimeout pc
      next text =>
        cases h
        have hstep : Step cfg s (.pumpReceive (.osError text)) _ := .recvFailed pc
        simpa using hstep
      next b =>
        split at h
        next hb =>
          subst hb
          cases h
          have hstep : Step cfg s (.pumpReceive (.data [])) _ := .recvEof pc
          simpa using hstep
        next hb =>
          split at h
          next e packet => cases h; exact .recvBad pc hb packet
          next m packet =>
            cases h
            simpa using Step.recv pc hb packet
    next => cases h
  | pumpSent =>
    simp only [step, pumpSent] at h
    split at h
    next pc frame => cases h; exact .replied pc frame
    next pc frame =>
      split at h
      next f reply => cases h; exact .returnFailed pc frame reply
      next reply => cases h; exact .returnRaised pc frame reply
    next pc frame => cases h; exact .errorFailed pc frame
    next => cases h
  | pumpRoute =>
    simp only [step, pumpRoute] at h
    split at h
    next n m pc =>
      split at h
      next text hm => cases h; exact .unhashable pc hm
      next hm => cases h; exact .notReply pc hm
      next id hm =>
        split at h
        next => cases h
        next lock =>
          split at h
          next c look => cases h; exact .found pc hm lock look
          next look => cases h; exact .unknown pc hm lock look
    next => cases h
  | closeTest k =>
    simp only [step, closeTest] at h
    split at h
    next pc => cases h; exact .closeTest pc
    next => cases h
  | pumpTest =>
    simp only [step, pumpTest] at h
    split at h
    next pc => cases h; exact .pumpTest pc
    next => cases h
  | pumpSettimeout =>
    simp only [step, pumpSettimeout] at h
    split at h
    next pc => cases h; exact .pumpSettimeout pc
    next => cases h
  | pumpLeave =>
    simp only [step, pumpLeave] at h
    split at h
    next pc frame => cases h; exact .leave pc frame
    next => cases h
  | _ =>
    simp only [step, senderStart, sendLocked, sendWrite, callStart, callLock, callRegister,
      callSend, callSent, callGet, callEmpty, callFinish, failEnter, failPut, closeSet, closeFinish,
      pumpStart, pumpFailed, pumpDeliver, pumpHandle, pumpCallback, pumpNotified,
      pumpAnnounce] at h
    (repeat' split at h) <;> cases h <;> constructor <;>
      first | assumption | exact Bool.eq_false_iff.mpr ‹_›

end Msys.Channel
