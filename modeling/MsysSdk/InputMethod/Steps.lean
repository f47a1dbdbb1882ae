import MsysSdk.InputMethod.Model

/-! What each action of the binding can do, as a relation with one constructor for each way
through it. -/

namespace Msys.InputMethod
open Python

/-- A request that repeats what is desired is let in only with force and when all is quiet. -/
def Suppressed (s : State) (r : Request) (force : Bool) : Prop :=
  s.desired = some r ∧ (force = false ∨ s.pending ≠ none ∨ s.workerRunning = true)

inductive Step (cfg : Config) (s : State) : Action → State → Prop
  | queueStart {k r force} (pc : s.requester k = .absent) :
    Step cfg s (.queueStart k r force) (s.setRequester k (.test r force))
  | showStart {k mode force selected} (pc : s.requester k = .absent)
      (hm : selectMode cfg mode = .ok selected) :
    Step cfg s (.showStart k mode force) (s.setRequester k (.test ⟨true, selected⟩ force))
  | showRefused {k mode force e} (pc : s.requester k = .absent)
      (hm : selectMode cfg mode = .error e) :
    Step cfg s (.showStart k mode force) (s.setRequester k (.raised e))
  | hideFresh {k} (pc : s.requester k = .absent) (hd : s.desired = none) :
    Step cfg s (.hideStart k) (s.setRequester k (.test ⟨false, str "en"⟩ false))
  | hideLook {k d} (pc : s.requester k = .absent) (hd : s.desired = some d) :
    Step cfg s (.hideStart k) (s.setRequester k .mode)
  | hideMode {k d} (pc : s.requester k = .mode) (hd : s.desired = some d) :
    Step cfg s (.hideMode k) (s.setRequester k (.test ⟨false, d.mode⟩ false))
  | hideRaised {k} (pc : s.requester k = .mode) (hd : s.desired = none) :
    Step cfg s (.hideMode k) (s.setRequester k
      (.raised (.typeError (str "'NoneType' object is not subscriptable"))))
  | queueTest {k r force} (pc : s.requester k = .test r force) :
    Step cfg s (.queueTest k) (s.setRequester k (if s.closed then .returned else .lock r force))
  | suppressed {k r force} (pc : s.requester k = .lock r force) (hr : Suppressed s r force) :
    Step cfg s (.queueLock k) (s.setRequester k .returned)
  | joined {k r force} (pc : s.requester k = .lock r force) (hr : ¬Suppressed s r force)
      (running : s.workerRunning = true) :
    Step cfg s (.queueLock k) { s.setRequester k .returned with
      desired := some r
      pending := some r
      workerRunning := true
      accepted := s.accepted ++ [r] }
  | started {k r force} (pc : s.requester k = .lock r force) (hr : ¬Suppressed s r force)
      (running : s.workerRunning = false) :
    Step cfg s (.queueLock k) { s.setRequester k .starting with
      desired := some r
      pending := some r
      workerRunning := true
      accepted := s.accepted ++ [r] }
  | spawn {k} (pc : s.requester k = .starting) :
    Step cfg s (.queueSpawn k) ((s.setRequester k .returned).setWorker k .loop)
  | take {w r} (pc : s.worker w = .loop) (hp : s.pending = some r) (hc : s.closed = false) :
    Step cfg s (.workerTake w) { s.setWorker w (.taken ⟨r, s.desired⟩) with
      pending := none
      taken := some ⟨r, s.desired⟩ }
  | exit {w} (pc : s.worker w = .loop) (hp : s.pending = none ∨ s.closed = true) :
    Step cfg s (.workerTake w)
      { s.setWorker w .ended with pending := none, workerRunning := false }
  | call {w c} (pc : s.worker w = .taken c) :
    Step cfg s (.workerCall w)
      { s.setWorker w (.calling c) with taken := none, issued := s.issued ++ [c] }
  | succeeded {w c} (pc : s.worker w = .calling c) :
    Step cfg s (.workerReturn w none)
      { s.setWorker w .succeeded with finished := s.finished ++ [(c, none)] }
  | failed {w c text} (pc : s.worker w = .calling c) :
    Step cfg s (.workerReturn w (some text))
      { s.setWorker w (.failed c text) with finished := s.finished ++ [(c, some text)] }
  | noted {w} (pc : s.worker w = .succeeded) :
    Step cfg s (.workerNote w) { s.setWorker w .loop with lastError := none }
  | reset {w c text} (pc : s.worker w = .failed c text) (hd : s.desired = some c.request)
      (hp : s.pending = none) :
    Step cfg s (.workerNote w)
      { s.setWorker w (.reporting text) with lastError := some text, desired := none }
  | kept {w c text} (pc : s.worker w = .failed c text)
      (hn : ¬(s.desired = some c.request ∧ s.pending = none)) :
    Step cfg s (.workerNote w)
      { s.setWorker w (.reporting text) with lastError := some text }
  | reported {w text} (pc : s.worker w = .reporting text) :
    Step cfg s (.workerReport w) (s.setWorker w .loop)
  | closeStart {b} (pc : s.closer = .absent) :
    Step cfg s (.closeStart b) { s with closer := if s.closed then .returned else .lock b }
  | closeHide (pc : s.closer = .lock true) (hs : closeShown s = true) :
    Step cfg s .closeLock { s with
      pending := none
      desired := some ⟨false, closeMode s⟩
      closed := true
      closer := .hide (closeMode s) }
  | closeQuiet {b} (pc : s.closer = .lock b) (hs : b = false ∨ closeShown s = false) :
    Step cfg s .closeLock { s with
      pending := none
      desired := some ⟨false, closeMode s⟩
      closed := true
      closer := .returned }
  | closeCall {mode} (pc : s.closer = .hide mode) :
    Step cfg s .closeCall { s with
      closer := .calling
      issued := s.issued ++ [⟨⟨false, mode⟩, s.desired⟩] }
  | closeReturned (pc : s.closer = .calling) :
    Step cfg s (.closeReturn none) { s with closer := .returned }
  | closeFailed {text} (pc : s.closer = .calling) :
    Step cfg s (.closeReturn (some text)) { s with closer := .failed text }
  | closeNoted {text} (pc : s.closer = .failed text) :
    Step cfg s .closeNote { s with closer := .reporting text, lastError := some text }
  | closeReported {text} (pc : s.closer = .reporting text) :
    Step cfg s .closeReport { s with closer := .returned }

theorem queueLock_sound {cfg : Config} {s s' : State} {k : Nat} (h : queueLock s k = some s') :
    Step cfg s (.queueLock k) s' := by
  unfold queueLock at h
  split at h
  next r force pc =>
    by_cases hr : Suppressed s r force
    · unfold Suppressed at hr
      rw [if_pos hr] at h
      cases h
      exact .suppressed pc hr
    · unfold Suppressed at hr
      rw [if_neg hr] at h
      cases hrun : s.workerRunning with
      | true =>
        rw [hrun] at h
        cases h
        exact .joined pc hr hrun
      | false =>
        rw [hrun] at h
        cases h
        exact .started pc hr hrun
  next => cases h

theorem workerTake_sound {cfg : Config} {s s' : State} {w : Nat} (h : workerTake s w = some s') :
    Step cfg s (.workerTake w) s' := by
  unfold workerTake at h
  split at h
  next pc =>
    cases hp : s.pending with
    | none =>
      simp only [hp] at h
      cases h
      exact .exit pc (.inl hp)
    | some r =>
      cases hc : s.closed with
      | true =>
        simp only [hp, hc] at h
        cases h
        exact .exit pc (.inr hc)
      | false =>
        simp only [hp, hc] at h
        cases h
        exact .take pc hp hc
  next => cases h

theorem workerNote_sound {cfg : Config} {s s' : State} {w : Nat} (h : workerNote s w = some s') :
    Step cfg s (.workerNote w) s' := by
  unfold workerNote at h
  split at h
  next pc => cases h; exact .noted pc
  next c text pc =>
    by_cases hd : s.desired = some c.request ∧ s.pending = none
    · rw [if_pos hd] at h
      cases h
      exact .reset pc hd.1 hd.2
    · rw [if_neg hd] at h
      cases h
      exact .kept pc hd
  next => cases h

theorem closeLock_sound {cfg : Config} {s s' : State} (h : closeLock s = some s') :
    Step cfg s .closeLock s' := by
  unfold closeLock at h
  split at h
  next b pc =>
    cases hb : b && closeShown s with
    | true =>
      rw [hb] at h
      cases h
      rw [Bool.and_eq_true] at hb
      exact .closeHide (hb.1 ▸ pc) hb.2
    | false =>
      rw [hb] at h
      cases h
      exact .closeQuiet pc (Bool.and_eq_false_iff.mp hb)
  next => cases h

theorem step_sound {cfg : Config} {s s' : State} {a : Action} (h : step cfg s a = some s') :
    Step cfg s a s' := by
  cases a with
  | queueLock k => exact queueLock_sound h
  | workerTake w => exact workerTake_sound h
  | workerNote w => exact workerNote_sound h
  | closeLock => exact closeLock_sound h
  | queueStart k r force =>
    simp only [step, queueStart] at h
    split at h
    next pc => cases h; exact .queueStart pc
    next => cases h
  | showStart k mode force =>
    simp only [step, showStart] at h
    split at h
    next pc hm => cases h; exact .showStart pc hm
    next pc hm => cases h; exact .showRefused pc hm
    next => cases h
  | hideStart k =>
    simp only [step, hideStart] at h
    split at h
    next pc =>
      split at h
      next hd => cases h; exact .hideFresh pc hd
      next d hd => cases h; exact .hideLook pc hd
    next => cases h
  | hideMode k =>
    simp only [step, hideMode] at h
    split at h
    next pc =>
      split at h
      next hd => cases h; exact .hideRaised pc hd
      next d hd => cases h; exact .hideMode pc hd
    next => cases h
  | queueTest k =>
    simp only [step, queueTest] at h
    split at h
    next r force pc => cases h; exact .queueTest pc
    next => cases h
  | queueSpawn k =>
    simp only [step, queueSpawn] at h
    split at h
    next pc => cases h; exact .spawn pc
    next => cases h
  | workerCall w =>
    simp only [step, workerCall] at h
    split at h
    next c pc => cases h; exact .call pc
    next => cases h
  | workerReturn w error =>
    simp only [step, workerReturn] at h
    split at h
    next c pc =>
      cases error with
      | none => cases h; exact .succeeded pc
      | some text => cases h; exact .failed pc
    next => cases h
  | workerReport w =>
    simp only [step, workerReport] at h
    split at h
    next text pc => cases h; exact .reported pc
    next => cases h
  | closeStart b =>
    simp only [step, closeStart] at h
    split at h
    next pc => cases h; exact .closeStart pc
    next => cases h
  | closeCall =>
    simp only [step, closeCall] at h
    split at h
    next mode pc => cases h; exact .closeCall pc
    next => cases h
  | closeReturn error =>
    simp only [step, closeReturn] at h
    split at h
    next pc =>
      cases error with
      | none => cases h; exact .closeReturned pc
      | some text => cases h; exact .closeFailed pc
    next => cases h
  | closeNote =>
    simp only [step, closeNote] at h
    split at h
    next text pc => cases h; exact .closeNoted pc
    next => cases h
  | closeReport =>
    simp only [step, closeReport] at h
    split at h
    next text pc => cases h; exact .closeReported pc
    next => cases h

end Msys.InputMethod
