import MsysSdk.TouchApp.Model

/-! What a step can do to each part of the application. -/

namespace Msys.TouchApp
open Python Transition
open InputMethod (Request)

variable {cfg : Config} {s s' : State} {a : Action}

/-- The tasks that `close` goes through once it has set `closed`. -/
def Task.closing : Task → Bool
  | .closeLock | .closeCall _ | .closeReturn | .closeEnd => true
  | _ => false

/-- The tasks that Tk is ever asked to come back to. -/
def Task.timed : Task → Bool
  | .check | .pollMessages | .reconcileInputMethodFocus _ => true
  | _ => false

theorem Task.closing_of_timed {t : Task} (h : t.timed = true) : t.closing = false := by
  cases t <;> simp_all [timed, closing]

/-! ### Timers -/

theorem mem_after {c c' : Clock} {t : Task} (h : c.after t = some c') {e : Nat × Task} :
    e ∈ c'.timers ↔ e ∈ c.timers ∨ e = (c.nextTimer, t) := by
  unfold Clock.after at h
  split at h
  next =>
    obtain rfl := Option.some.inj h
    simp
  next => cases h

theorem alive_after {c c' : Clock} {t : Task} (h : c.after t = some c') :
    c'.alive = c.alive := by
  unfold Clock.after at h
  split at h
  next =>
    obtain rfl := Option.some.inj h
    rfl
  next => cases h

theorem alive_cancel (c : Clock) : c.cancelInputFocusCheck.alive = c.alive := by
  unfold Clock.cancelInputFocusCheck
  split
  next => rfl
  next =>
    unfold Clock.afterCancel
    split <;> rfl

theorem mem_of_cancel {c : Clock} {e : Nat × Task}
    (h : e ∈ c.cancelInputFocusCheck.timers) : e ∈ c.timers := by
  unfold Clock.cancelInputFocusCheck at h
  split at h
  next => exact h
  next =>
    unfold Clock.afterCancel at h
    split at h
    next => exact List.mem_of_mem_filter h
    next => exact h

theorem alive_schedule (c : Clock) : c.scheduleInputFocusCheck.alive = c.alive := by
  unfold Clock.scheduleInputFocusCheck
  split
  next after h => exact (alive_after h).trans (alive_cancel c)
  next => exact alive_cancel c

theorem mem_of_schedule {c : Clock} {e : Nat × Task}
    (h : e ∈ c.scheduleInputFocusCheck.timers) : e ∈ c.timers ∨ e.2 = .check := by
  unfold Clock.scheduleInputFocusCheck at h
  split at h
  next after hafter =>
    rcases (mem_after hafter).mp h with h | rfl
    · exact .inl (mem_of_cancel h)
    · exact .inr rfl
  next => exact .inl (mem_of_cancel h)

/-! ### Tasks -/

/-- A task other than those of `close` leaves the closing to come as it was. -/
structure Plain (s s' : State) : Prop where
  closed : s'.closed = s.closed
  alive : s'.alive = s.alive
  agenda : ∀ t ∈ s'.agenda, t ∈ s.agenda ∨ t.closing = false
  timers : ∀ e ∈ s'.timers, e ∈ s.timers ∨ e.2.timed = true

theorem Plain.of_eq (closed : s'.closed = s.closed) (alive : s'.alive = s.alive)
    (agenda : s'.agenda = s.agenda) (timers : s'.timers = s.timers) : Plain s s' :=
  ⟨closed, alive, fun _ h => .inl (agenda ▸ h), fun _ h => .inl (timers ▸ h)⟩

theorem Plain.refl (s : State) : Plain s s := .of_eq rfl rfl rfl rfl

theorem plain_mail (s : State) (m : Mail) : Plain s { s with toMail := m } :=
  .of_eq rfl rfl rfl rfl

theorem plain_raise (s : State) (e : Exc) : Plain s (s.raise e) :=
  ⟨rfl, rfl, fun _ h => (nomatch h), fun _ h => .inl h⟩

theorem plain_push {ts : List Task} (h : ∀ t ∈ ts, t.closing = false) (s : State) :
    Plain s (s.push ts) := by
  refine ⟨rfl, rfl, fun t ht => ?_, fun _ h => .inl h⟩
  rcases List.mem_append.mp ht with ht | ht
  · exact .inr (h t ht)
  · exact .inl ht

theorem plain_push_one {t : Task} (h : t.closing = false) (s : State) : Plain s (s.push [t]) :=
  plain_push (by simpa using h) s

theorem plain_cancel (s : State) : Plain s (cancelInputFocusCheck s) :=
  ⟨rfl, alive_cancel _, fun _ h => .inl h, fun _ h => .inl (mem_of_cancel h)⟩

theorem plain_after {c : Clock} {t : Task} (h : s.after t = some c) (ht : t.timed = true) :
    Plain s { s with toClock := c } := by
  refine ⟨rfl, alive_after h, fun _ h => .inl h, fun e he => ?_⟩
  rcases (mem_after h).mp he with he | rfl
  · exact .inl he
  · exact .inr ht

theorem plain_queue (s : State) (r : Request) (force : Bool) :
    Plain s (queueInputMethod s r force) :=
  .of_eq rfl rfl rfl rfl

theorem Plain.trans {t : State} (h : Plain s s') (h' : Plain s' t) : Plain s t where
  closed := h'.closed.trans h.closed
  alive := h'.alive.trans h.alive
  agenda := fun u hu => (h'.agenda u hu).elim (h.agenda u) .inr
  timers := fun e he => (h'.timers e he).elim (h.timers e) .inr

theorem plain_hide (s : State) : Plain s (requestInputMethodHide s) := by
  unfold requestInputMethodHide
  split
  next => exact (plain_cancel s).trans (plain_queue _ _ _)
  next => exact (plain_cancel s).trans (plain_push_one rfl _)

theorem plain_hideMode (s : State) : Plain s (hideMode s) := by
  unfold hideMode
  split
  next => exact plain_raise s _
  next => exact plain_queue s _ _

theorem plain_reconcile (s : State) (b : Bool) : Plain s (reconcileInputMethodFocus s b) := by
  unfold reconcileInputMethodFocus
  split
  next => exact .refl s
  next =>
    split
    next => exact .refl s
    next =>
      split
      next => exact plain_queue s _ _
      next =>
        split
        next => exact plain_push_one rfl s
        next => exact .refl s

theorem plain_lifecycle (s : State) (d : Dict) : Plain s (lifecycle s d) := by
  unfold lifecycle
  split
  next => exact plain_raise s _
  next => exact plain_push_one rfl s
  next =>
    split
    next => exact plain_raise s _
    next => exact plain_push_one rfl s

theorem plain_drain (s : State) : Plain s (drain cfg s) := by
  unfold drain
  split
  next =>
    split
    next clock hclock => exact plain_after hclock rfl
    next => exact plain_raise s _
  next m rest _ =>
    dsimp only
    split
    next => exact (plain_mail s _).trans (plain_lifecycle _ _)
    next =>
      refine (plain_mail s _).trans (plain_push (fun t ht => ?_) _)
      rcases List.mem_append.mp ht with ht | ht
      · obtain ⟨c, -, rfl⟩ := List.mem_map.mp ht
        cases c <;> rfl
      · obtain rfl := List.mem_singleton.mp ht
        rfl

theorem plain_schedule (s : State) :
    Plain s { s with toClock := s.toClock.scheduleInputFocusCheck } := by
  refine ⟨rfl, alive_schedule _, fun _ h => .inl h, fun e he => ?_⟩
  rcases mem_of_schedule he with he | he
  · exact .inl he
  · exact .inr (by rw [he]; rfl)

/-- `close` and what comes after it apart. -/
theorem plain_perform (cfg : Config) {t : Task} (ht : t.closing = false)
    (hclose : t = .close → s.closed = true) :
    Plain s (perform cfg s t) := by
  cases t with
  | shown | touched => exact (plain_cancel s).trans (plain_queue _ _ _)
  | focusOut => exact plain_schedule s
  | destroyed event w mode =>
    simp only [perform]
    split
    next => exact .of_eq rfl rfl rfl rfl
    next => exact .refl s
  | inputPointerPress event =>
    simp only [perform]
    split
    next => exact plain_push_one rfl s
    next => exact .refl s
  | requestInputMethodHide => exact plain_hide s
  | hideMode => exact plain_hideMode s
  | check =>
    have hcleared : Plain s { s with inputFocusCheck := none } := .of_eq rfl rfl rfl rfl
    exact hcleared.trans (plain_push_one (t := .reconcileInputMethodFocus true) rfl _)
  | reconcileInputMethodFocus b => exact plain_reconcile s b
  | pollMessages =>
    simp only [perform]
    split
    next => exact .refl s
    next => exact plain_push_one rfl s
  | drain => exact plain_drain s
  | close =>
    simp only [perform, hclose rfl, if_pos]
    exact .refl s
  | closeLock | closeCall | closeReturn | closeEnd => cases ht

theorem plain_attach (s : State) (w : Widget) (mode : Str) :
    Plain s (attachInputMethod cfg s w mode) := by
  unfold attachInputMethod
  dsimp only
  split
  next =>
    split
    next => exact .of_eq rfl rfl rfl rfl
    next => exact ⟨rfl, rfl, fun _ h => (nomatch h), fun _ h => .inl h⟩
  next => exact plain_raise s _

theorem plain_activate (s : State) (welcomed : Bool) :
    Plain s (activateLifecycle cfg s welcomed) := by
  unfold activateLifecycle
  split
  next => exact .of_eq rfl rfl rfl rfl
  next => exact .refl s
  next =>
    split
    next => exact plain_raise s _
    next =>
      have hopened : Plain s { s with channel := .opened } := .of_eq rfl rfl rfl rfl
      dsimp only
      split
      next =>
        split
        next clock hclock => exact hopened.trans (plain_after hclock rfl)
        next => exact hopened.trans (plain_raise _ _)
      next => exact .of_eq rfl rfl rfl rfl

/-! ### Where close is -/

/-- A `close` that has begun is what the Tk thread does until the root is gone. -/
structure Closing (s : State) : Prop where
  alive : s.closed = false → s.alive = true
  timers : ∀ e ∈ s.timers, e.2.timed = true
  away : s.closed = false ∨ s.alive = false → ∀ t ∈ s.agenda, t.closing = false
  here : s.closed = true → s.alive = true →
    ∃ t rest, s.agenda = t :: rest ∧ t.closing = true ∧ ∀ u ∈ rest, u.closing = false

theorem closing_init : Closing init := by
  refine ⟨fun _ => rfl, fun e he => ?_, fun _ t ht => (nomatch ht), nofun⟩
  obtain rfl := List.mem_singleton.mp he
  rfl

theorem Closing.plain (hi : Closing s) (h : Plain s s')
    (hno : s.closed = false ∨ s.alive = false) : Closing s' := by
  refine ⟨fun hc => ?_, fun e he => ?_, fun _ t ht => ?_, fun hc ha => ?_⟩
  · rw [h.alive]
    exact hi.alive (h.closed ▸ hc)
  · exact (h.timers e he).elim (hi.timers e) id
  · exact (h.agenda t ht).elim (hi.away hno t) id
  · rw [h.closed] at hc
    rw [h.alive] at ha
    simp [hc, ha] at hno

/-- Between two callbacks no `close` is under way. -/
theorem Closing.idle (hi : Closing s) (h : s.agenda = []) :
    s.closed = false ∨ s.alive = false := by
  by_contra hno
  simp only [not_or, Bool.not_eq_false] at hno
  obtain ⟨t, rest, hagenda, -⟩ := hi.here hno.1 hno.2
  rw [h] at hagenda
  cases hagenda

/-- The tasks of `close` lead to the next one or, at the end, to a root that is gone. -/
theorem perform_closing (cfg : Config) {t : Task} (ht : t.closing = true) :
    (perform cfg s t).closed = s.closed ∧
      ((∃ u, (perform cfg s t).agenda = u :: s.agenda ∧ u.closing = true) ∧
          (perform cfg s t).alive = s.alive ∧ (perform cfg s t).timers = s.timers ∨
        (perform cfg s t).agenda = s.agenda ∧ (perform cfg s t).alive = false ∧
          (perform cfg s t).timers = []) := by
  cases t with
  | closeLock =>
    refine ⟨rfl, .inl ⟨⟨_, rfl, ?_⟩, rfl, rfl⟩⟩
    split <;> rfl
  | closeCall mode => exact ⟨rfl, .inl ⟨⟨.closeReturn, rfl, rfl⟩, rfl, rfl⟩⟩
  | closeReturn => exact ⟨rfl, .inl ⟨⟨.closeEnd, rfl, rfl⟩, rfl, rfl⟩⟩
  | closeEnd => exact ⟨rfl, .inr ⟨rfl, rfl, rfl⟩⟩
  | _ => cases ht

theorem Closing.perform (hi : Closing s) {t : Task} {rest : List Task}
    (hagenda : s.agenda = t :: rest) : Closing (perform cfg { s with agenda := rest } t) := by
  by_cases hno : s.closed = false ∨ s.alive = false
  · have hplain : Plain s { s with agenda := rest } :=
      ⟨rfl, rfl, fun u hu => .inl (hagenda ▸ List.mem_cons_of_mem t hu), fun _ h => .inl h⟩
    have ht := hi.away hno t (hagenda ▸ List.mem_cons_self)
    by_cases hclose : t = .close → s.closed = true
    · exact hi.plain (hplain.trans (plain_perform cfg ht hclose)) hno
    · obtain ⟨rfl, hopen⟩ := Classical.not_imp.mp hclose
      simp only [Bool.not_eq_true] at hopen
      have hrest : ∀ u ∈ rest, u.closing = false := fun u hu =>
        hi.away hno u (hagenda ▸ List.mem_cons_of_mem _ hu)
      simp only [TouchApp.perform, hopen, Bool.false_eq_true, if_false]
      refine ⟨nofun, fun e he => hi.timers e (mem_of_cancel he), fun h => ?_,
        fun _ _ => ⟨.closeLock, rest, rfl, rfl, hrest⟩⟩
      rcases h with h | h
      · cases h
      · have halive := (alive_cancel s.toClock).symm.trans h
        rw [hi.alive hopen] at halive
        cases halive
  · simp only [not_or, Bool.not_eq_false] at hno
    obtain ⟨u, rest', hagenda', hu, hrest⟩ := hi.here hno.1 hno.2
    rw [hagenda] at hagenda'
    obtain ⟨rfl, rfl⟩ := List.cons.inj hagenda'
    obtain ⟨hclosed, ⟨⟨v, hv, hvc⟩, halive, htimers⟩ | ⟨hsame, halive, htimers⟩⟩ :=
      perform_closing cfg (s := { s with agenda := rest }) hu
    · refine ⟨fun h => ?_, fun e he => hi.timers e (htimers ▸ he), fun h => ?_,
        fun _ _ => ⟨v, rest, hv, hvc, hrest⟩⟩
      · rw [hclosed] at h
        exact absurd h (by simp [hno.1])
      · rw [hclosed, halive] at h
        simp [hno.1, hno.2] at h
    · refine ⟨fun h => ?_, fun e he => ?_, fun _ w hw => ?_, fun _ h => ?_⟩
      · rw [hclosed] at h
        exact absurd h (by simp [hno.1])
      · rw [htimers] at he
        cases he
      · rw [hsame] at hw
        exact hrest w hw
      · rw [halive] at h
        cases h

theorem Event.plain (e : Event) : e.task.closing = false := by
  cases e <;> rfl

theorem AppCall.plain (c : AppCall) : c.task.closing = false := by
  cases c <;> rfl

/-- Only `close` and its tasks have to do with the closing. -/
theorem step_plain (hi : Closing s) (h : step cfg s a = some s') :
    Plain s s' ∧ (s.agenda = [] ∨ s'.agenda = s.agenda) ∨
      ∃ t rest, s.agenda = t :: rest ∧ s' = perform cfg { s with agenda := rest } t := by
  cases a with
  | event e =>
    simp only [TouchApp.step] at h
    split at h
    next hidle =>
      obtain rfl := Option.some.inj h
      exact .inl ⟨plain_push_one e.plain s, .inl hidle.1⟩
    next => cases h
  | attachInputMethod w mode =>
    simp only [TouchApp.step] at h
    split at h
    next hidle =>
      obtain rfl := Option.some.inj h
      exact .inl ⟨plain_attach s w mode, .inl hidle⟩
    next => cases h
  | activateLifecycle welcomed =>
    simp only [TouchApp.step] at h
    split at h
    next hidle =>
      obtain rfl := Option.some.inj h
      exact .inl ⟨plain_activate s welcomed, .inl hidle⟩
    next => cases h
  | call c =>
    simp only [TouchApp.step] at h
    split at h
    next hidle =>
      obtain rfl := Option.some.inj h
      exact .inl ⟨plain_push_one c.plain s, .inl hidle⟩
    next => cases h
  | fire timer =>
    simp only [TouchApp.step] at h
    split at h
    next hidle ht =>
      obtain rfl := Option.some.inj h
      have hfired : Plain s { s with timers := s.timers.filter fun e => e.1 ≠ timer } :=
        ⟨rfl, rfl, fun _ h => .inl h, fun _ h => .inl (List.mem_of_mem_filter h)⟩
      have htimed := hi.timers _ (List.mem_of_find?_eq_some ht)
      exact .inl ⟨hfired.trans (plain_push_one (Task.closing_of_timed htimed) _), .inl hidle⟩
    next => cases h
  | perform =>
    simp only [TouchApp.step] at h
    split at h
    next => cases h
    next t rest hagenda => exact .inr ⟨t, rest, hagenda, (Option.some.inj h).symm⟩
  | moveFocus | post =>
    obtain rfl := Option.some.inj h
    exact .inl ⟨.of_eq rfl rfl rfl rfl, .inr rfl⟩
  | worker w a =>
    obtain ⟨ime, -, rfl⟩ := Option.map_eq_some_iff.mp h
    exact .inl ⟨.of_eq rfl rfl rfl rfl, .inr rfl⟩

theorem Closing.step (hi : Closing s) (h : step cfg s a = some s') : Closing s' := by
  obtain ⟨hplain, hidle | hsame⟩ | ⟨t, rest, hagenda, rfl⟩ := step_plain hi h
  · exact hi.plain hplain (hi.idle hidle)
  · refine ⟨fun hc => ?_, fun e he => (hplain.timers e he).elim (hi.timers e) id, ?_, ?_⟩
    · rw [hplain.alive]
      exact hi.alive (hplain.closed ▸ hc)
    · rw [hplain.closed, hplain.alive, hsame]
      exact hi.away
    · rw [hplain.closed, hplain.alive, hsame]
      exact hi.here
  · exact hi.perform hagenda

theorem reach_closing {ok : State → Action → Prop} (h : Reach (step cfg) ok init s) :
    Closing s :=
  h.invariant (P := Closing) closing_init fun _ _ _ hi _ hs => hi.step hs

end Msys.TouchApp
