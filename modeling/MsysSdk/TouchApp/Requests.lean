import MsysSdk.TouchApp.Steps

/-! What a step can do to the requests, to the closing and to the channel. -/

namespace Msys.TouchApp
open Python Transition
open InputMethod (Request)

variable {cfg : Config} {s s' : State} {a : Action}

inductive Moved (cfg : Config) (s : State) (a : Action) (s' : State) : Prop
  | still (ime : s'.toIme = s.toIme) (closed : s'.closed = s.closed)
      (channel : s'.channel = s.channel)
  | connected (welcomed : Bool) (activated : a = .activateLifecycle welcomed)
      (ime : s'.toIme = s.toIme) (closed : s'.closed = s.closed)
      (channel : s'.channel = if welcomed then .opened else .unstarted)
      (open' : s.channel ≠ .closed) (found : cfg.environment = .descriptor)
  | queued (r : Request) (force : Bool) (open' : s.closed = false) (there : s.channel ≠ .absent)
      (ime : s'.toIme = s.queue r force) (closed : s'.closed = s.closed)
      (channel : s'.channel = s.channel)
  | worker (w : Nat) (b : Ime.WorkerAction)
      (ime : s.workerStep s.closed s.channel w b = some s'.toIme)
      (closed : s'.closed = s.closed) (channel : s'.channel = s.channel)
  | closing (ime : s'.toIme = s.toIme) (open' : s.closed = false) (closed : s'.closed = true)
      (channel : s'.channel = s.channel)
  | settled (r : Request) (late : s.closed = true)
      (ime : s'.toIme = { s.toIme with pending := none, desired := some r })
      (closed : s'.closed = s.closed) (channel : s'.channel = s.channel)
  | hidden (mode : Str) (late : s.closed = true) (here : s.agenda.head? = some (.closeCall mode))
      (ime : s'.toIme = { s.toIme with wire :=
        if s.channel = .opened then s.wire ++ [methodCall ⟨false, mode⟩] else s.wire })
      (closed : s'.closed = s.closed) (channel : s'.channel = s.channel)
  | shut (late : s.closed = true) (ime : s'.toIme = s.toIme) (closed : s'.closed = s.closed)
      (there : s.channel ≠ .absent) (channel : s'.channel = .closed) (gone : s'.alive = false)

theorem moved_queue {t : State} {r : Request} {force : Bool} (ime : t.toIme = s.toIme)
    (closed : t.closed = s.closed) (channel : t.channel = s.channel) :
    Moved cfg s a (queueInputMethod t r force) := by
  by_cases h : t.closed = true ∨ t.channel = .absent
  · exact .still ((if_pos h).trans ime) closed channel
  · have hq : (queueInputMethod t r force).toIme = s.queue r force := by
      rw [← ime]
      exact if_neg h
    simp only [closed, channel, not_or, Bool.not_eq_true] at h
    exact .queued r force h.1 h.2 hq closed channel

theorem moved_hide {t : State} (ime : t.toIme = s.toIme) (closed : t.closed = s.closed)
    (channel : t.channel = s.channel) : Moved cfg s a (requestInputMethodHide t) := by
  unfold requestInputMethodHide
  split
  next => exact moved_queue ime closed channel
  next => exact .still ime closed channel

theorem moved_reconcile {t : State} {b : Bool} (ime : t.toIme = s.toIme)
    (closed : t.closed = s.closed) (channel : t.channel = s.channel) :
    Moved cfg s a (reconcileInputMethodFocus t b) := by
  unfold reconcileInputMethodFocus
  split
  next => exact .still ime closed channel
  next =>
    split
    next => exact .still ime closed channel
    next =>
      split
      next => exact moved_queue ime closed channel
      next =>
        split
        next => exact .still ime closed channel
        next => exact .still ime closed channel

theorem moved_drain {t : State} (ime : t.toIme = s.toIme) (closed : t.closed = s.closed)
    (channel : t.channel = s.channel) : Moved cfg s a (drain cfg t) := by
  unfold drain
  split
  next => split <;> exact .still ime closed channel
  next =>
    dsimp only
    split
    next =>
      unfold lifecycle
      split
      next => exact .still ime closed channel
      next => exact .still ime closed channel
      next => split <;> exact .still ime closed channel
    next => exact .still ime closed channel

theorem moved_perform {t : Task} {rest : List Task} (hi : Closing s)
    (hagenda : s.agenda = t :: rest) :
    Moved cfg s a (perform cfg { s with agenda := rest } t) := by
  have late (ht : t.closing = true) : s.closed = true := by
    by_contra hopen
    have := hi.away (.inl (Bool.not_eq_true _ ▸ hopen)) t (hagenda ▸ List.mem_cons_self)
    rw [ht] at this
    cases this
  cases t with
  | shown | touched => exact moved_queue rfl rfl rfl
  | focusOut | check => exact .still rfl rfl rfl
  | destroyed =>
    simp only [perform]
    split
    next => exact moved_queue rfl rfl rfl
    next => exact .still rfl rfl rfl
  | inputPointerPress =>
    simp only [perform]
    split <;> exact .still rfl rfl rfl
  | requestInputMethodHide => exact moved_hide rfl rfl rfl
  | hideMode =>
    simp only [perform, hideMode]
    split
    next => exact .still rfl rfl rfl
    next => exact moved_queue rfl rfl rfl
  | reconcileInputMethodFocus => exact moved_reconcile rfl rfl rfl
  | pollMessages =>
    simp only [perform]
    split <;> exact .still rfl rfl rfl
  | drain => exact moved_drain rfl rfl rfl
  | close =>
    simp only [perform]
    split
    next => exact .still rfl rfl rfl
    next hopen => exact .closing rfl (Bool.not_eq_true _ ▸ hopen) rfl rfl
  | closeLock => exact .settled _ (late rfl) rfl rfl rfl
  | closeCall mode => exact .hidden mode (late rfl) (by rw [hagenda]; rfl) rfl rfl rfl
  | closeReturn => exact .still rfl rfl rfl
  | closeEnd =>
    by_cases hchannel : s.channel = .absent
    · exact .still rfl rfl ((if_pos hchannel).trans hchannel.symm)
    · exact .shut (late rfl) rfl rfl hchannel (if_neg hchannel) rfl

/-- The environment that an application with a channel has found it in. -/
def Found (cfg : Config) (s : State) : Prop := s.channel ≠ .absent → cfg.environment = .descriptor

theorem moved_activate {welcomed : Bool} (hi : Found cfg s) :
    Moved cfg s (.activateLifecycle welcomed) (activateLifecycle cfg s welcomed) := by
  unfold activateLifecycle
  split
  next henv =>
    refine .still rfl rfl ?_
    by_contra hne
    have := hi (Ne.symm hne)
    rw [henv] at this
    cases this
  next => exact .still rfl rfl rfl
  next henv =>
    split
    next => exact .still rfl rfl rfl
    next hopen =>
      dsimp only
      split
      next hwelcomed =>
        have hopened : Channel.opened = if welcomed then .opened else .unstarted :=
          (if_pos hwelcomed).symm
        split <;> exact .connected welcomed rfl rfl rfl hopened hopen henv
      next hrefused =>
        exact .connected welcomed rfl rfl rfl (if_neg hrefused).symm hopen henv

theorem moved_attach {w : Widget} {mode : Str} : Moved cfg s a (attachInputMethod cfg s w mode) := by
  unfold attachInputMethod
  dsimp only
  split
  next => split <;> exact .still rfl rfl rfl
  next => exact .still rfl rfl rfl

theorem step_moved (hc : Closing s) (hf : Found cfg s) (h : step cfg s a = some s') :
    Moved cfg s a s' := by
  cases a with
  | event | call =>
    simp only [step] at h
    split at h <;> cases h
    exact .still rfl rfl rfl
  | attachInputMethod =>
    simp only [step] at h
    split at h <;> cases h
    exact moved_attach
  | activateLifecycle =>
    simp only [step] at h
    split at h <;> cases h
    exact moved_activate hf
  | fire =>
    simp only [step] at h
    split at h <;> cases h
    exact .still rfl rfl rfl
  | perform =>
    simp only [step] at h
    split at h
    next => cases h
    next t rest hagenda =>
      obtain rfl := Option.some.inj h
      exact moved_perform hc hagenda
  | moveFocus | post =>
    obtain rfl := Option.some.inj h
    exact .still rfl rfl rfl
  | worker w a =>
    obtain ⟨ime, hime, rfl⟩ := Option.map_eq_some_iff.mp h
    exact .worker w a hime rfl rfl

theorem Moved.found (h : Moved cfg s a s') (hf : Found cfg s) : Found cfg s' := by
  cases h with
  | connected _ _ _ _ _ _ found => exact fun _ => found
  | shut late ime closed there => exact fun _ => hf there
  | still ime closed channel | queued _ _ _ _ ime closed channel | worker _ _ ime closed channel
  | closing ime _ closed channel | settled _ _ ime closed channel
  | hidden _ _ _ ime closed channel => exact fun h => hf (channel ▸ h)

theorem reach_found {ok : State → Action → Prop} (h : Reach (step cfg) ok init s) : Found cfg s :=
  h.invariant_of (P := Found cfg) (fun _ => reach_closing) (fun hne => absurd rfl hne)
    fun _ _ _ hc hf _ hs => (step_moved hc hf hs).found hf

/-! ### What goes over the channel -/

theorem queue_calls (x : Ime) (r : Request) (force : Bool) :
    (x.queue r force).called = x.called ∧ (x.queue r force).wire = x.wire := by
  unfold Ime.queue
  split
  next => exact ⟨rfl, rfl⟩
  next => split <;> exact ⟨rfl, rfl⟩

/-- A worker calls with the request that it has taken, and only an open channel takes the call. -/
theorem worker_calls {x x' : Ime} {closed : Bool} {channel : Channel} {w : Nat}
    {a : Ime.WorkerAction} (h : x.workerStep closed channel w a = some x') :
    x'.asked = x.asked ∧ (x'.called = x.called ∧ x'.wire = x.wire ∨
      ∃ r, x.worker w = .taken r ∧ x'.called = x.called ++ [r] ∧
        (channel = .opened ∧ x'.wire = x.wire ++ [methodCall r] ∨
          channel ≠ .opened ∧ channel ≠ .absent ∧ x'.wire = x.wire)) := by
  cases a with
  | call =>
    simp only [Ime.workerStep, Ime.workerCall] at h
    split at h
    next r hw =>
      split at h <;> obtain rfl := Option.some.inj h
      · exact ⟨rfl, .inl ⟨rfl, rfl⟩⟩
      · exact ⟨rfl, .inr ⟨r, hw, rfl, .inl ⟨rfl, rfl⟩⟩⟩
      · exact ⟨rfl, .inr ⟨r, hw, rfl, .inr ⟨by simp, by simp, rfl⟩⟩⟩
      · exact ⟨rfl, .inr ⟨r, hw, rfl, .inr ⟨by simp, by simp, rfl⟩⟩⟩
    next => cases h
  | take =>
    simp only [Ime.workerStep, Ime.workerTake] at h
    split at h
    next => split at h <;> obtain rfl := Option.some.inj h <;> exact ⟨rfl, .inl ⟨rfl, rfl⟩⟩
    next => cases h
  | drop | returned | note =>
    simp only [Ime.workerStep, Ime.workerDrop, Ime.workerReturn, Ime.workerNote] at h
    split at h
    next =>
      obtain rfl := Option.some.inj h
      exact ⟨rfl, .inl ⟨rfl, rfl⟩⟩
    next => cases h

/-- The channel is activated once, and welcomed. -/
def Welcomed (s : State) : Action → Prop
  | .activateLifecycle welcomed => welcomed = true ∧ s.channel = .absent
  | _ => True

instance (s : State) (a : Action) : Decidable (Welcomed s a) :=
  match a with
  | .activateLifecycle _ => inferInstanceAs (Decidable (_ ∧ _))
  | .event _ | .attachInputMethod .. | .call _ | .fire _ | .perform | .moveFocus _ | .post _
  | .worker .. => .isTrue trivial

/-- Until the application closes, every call of a worker goes through. -/
def Whole (s : State) : Prop :=
  s.closed = false → (s.channel = .absent ∨ s.channel = .opened) ∧
    s.wire = s.called.map methodCall

theorem Moved.whole (h : Moved cfg s a s') (hok : Welcomed s a) (hi : Whole s) : Whole s' := by
  intro hopen
  cases h with
  | still ime closed channel =>
    rw [ime, channel]
    exact hi (closed ▸ hopen)
  | connected welcomed activated ime closed channel =>
    subst activated
    rw [ime, channel, if_pos hok.1]
    exact ⟨.inr rfl, (hi (closed ▸ hopen)).2⟩
  | queued r force _ _ ime closed channel =>
    rw [ime, channel, (queue_calls ..).1, (queue_calls ..).2]
    exact hi (closed ▸ hopen)
  | worker w b ime closed channel =>
    obtain ⟨hchannel, hwire⟩ := hi (closed ▸ hopen)
    rw [channel]
    refine ⟨hchannel, ?_⟩
    obtain ⟨hcalled, hsame⟩ | ⟨r, -, hcalled, ⟨-, hsent⟩ | ⟨hclosed, habsent, -⟩⟩ :=
      (worker_calls ime).2
    · rw [hsame, hcalled, hwire]
    · rw [hsent, hcalled, hwire, List.map_append, List.map_singleton]
    · exact absurd (hchannel.resolve_left habsent) hclosed
  | closing _ _ closed => exact absurd (closed.symm.trans hopen) (by simp)
  | settled _ late _ closed | hidden _ late _ _ closed | shut late _ closed =>
    rw [closed, late] at hopen
    cases hopen

end Msys.TouchApp
