import MsysSdk.TouchApp.FocusCheck

/-! The message loop: what is posted is handled in order, one poll is outstanding as long as the
application is open, and a shutdown is the last message. -/

namespace Msys.TouchApp
open Python Transition
open InputMethod (Request)

variable {cfg : Config} {s s' : State} {a : Action} {c c' : Clock} {t : Task}

def Task.polls : Task → Bool
  | .pollMessages | .drain => true
  | _ => false

def Clock.polls (c : Clock) : Nat := c.timers.countP fun e => e.2 = .pollMessages

/-- How often the messages are polled: by a timer, or by the callback that runs. -/
def polls (s : State) : Nat := s.toClock.polls + s.agenda.countP Task.polls

/-- A message that makes the application close. -/
def Message.ends (m : Message) : Bool :=
  m.kind = str "lifecycle" &&
    match (field m.dict "type").inStrings [str "shutdown", str "eof"] with
    | .ok ends => ends
    | .error _ => false

/-! ### Timers -/

theorem polls_after (h : c.after t = some c') :
    c'.polls = c.polls + if t = .pollMessages then 1 else 0 := by
  unfold Clock.after at h
  split at h
  next =>
    obtain rfl := Option.some.inj h
    simp [Clock.polls, List.countP_append, List.countP_singleton]
  next => cases h

/-- The number that is taken out belongs to no poll. -/
theorem polls_filter {p : Nat × Task → Bool}
    (h : ∀ e ∈ c.timers, e.2 = .pollMessages → p e = true) :
    (c.timers.filter p).countP (fun e => e.2 = .pollMessages) = c.polls := by
  rw [List.countP_filter, Clock.polls]
  refine List.countP_congr fun e he => ?_
  simp only [Bool.and_eq_true, decide_eq_true_eq, and_iff_left_iff_imp]
  exact h e he

theorem polls_cancel (hi : c.Sound) : c.cancelInputFocusCheck.polls = c.polls := by
  unfold Clock.cancelInputFocusCheck
  split
  next => rfl
  next timer htimer =>
    unfold Clock.afterCancel
    split
    next =>
      refine polls_filter (c := c) fun e he hpoll => ?_
      have hmem : timer ∈ c.checks := by
        rw [hi.checks, htimer]
        exact List.mem_singleton_self timer
      obtain ⟨e', he', rfl⟩ := List.mem_map.mp hmem
      obtain ⟨hmem', hcheck⟩ := List.mem_filter.mp he'
      have hne : e.1 ≠ e'.1 := by
        intro heq
        have hsame := List.inj_on_of_nodup_map hi.nodup he hmem' heq
        rw [← hsame, hpoll] at hcheck
        simp at hcheck
      simpa using hne
    next => rfl

theorem polls_schedule (hi : c.Sound) : c.scheduleInputFocusCheck.polls = c.polls := by
  unfold Clock.scheduleInputFocusCheck
  split
  next after hafter => exact (polls_after hafter).trans (polls_cancel hi)
  next => exact polls_cancel hi

/-! ### Tasks -/

theorem polls_push {ts : List Task} : polls (s.push ts) = polls s + ts.countP Task.polls := by
  simp only [polls, State.push, List.countP_append]
  omega

theorem polls_calls (calls : List AppCall) : (calls.map AppCall.task).countP Task.polls = 0 := by
  rw [List.countP_eq_zero]
  intro t ht
  obtain ⟨call, -, rfl⟩ := List.mem_map.mp ht
  cases call <;> exact Bool.false_ne_true

theorem polls_perform (cfg : Config) (hi : t ≠ .check → s.toClock.Sound) (ht : t.polls = false)
    (hhide : t = .hideMode → s.desired ≠ none) (hend : t ≠ .closeEnd) :
    polls (perform cfg s t) = polls s := by
  cases t with
  | shown | touched =>
    exact congrArg (· + s.agenda.countP Task.polls) (polls_cancel (hi (by simp)))
  | focusOut => exact congrArg (· + s.agenda.countP Task.polls) (polls_schedule (hi (by simp)))
  | destroyed =>
    simp only [perform]
    split <;> rfl
  | inputPointerPress =>
    simp only [perform]
    split
    next => exact polls_push
    next => rfl
  | requestInputMethodHide =>
    have hcancel : polls (cancelInputFocusCheck s) = polls s :=
      congrArg (· + s.agenda.countP Task.polls) (polls_cancel (hi (by simp)))
    simp only [perform, requestInputMethodHide]
    split
    next => exact hcancel
    next => exact polls_push.trans hcancel
  | hideMode =>
    simp only [perform, hideMode]
    split
    next hnone => exact absurd hnone (hhide rfl)
    next => rfl
  | check => exact polls_push
  | reconcileInputMethodFocus =>
    simp only [perform, reconcileInputMethodFocus]
    split
    next => rfl
    next =>
      split
      next => rfl
      next =>
        split
        next => rfl
        next =>
          split
          next => exact polls_push
          next => rfl
  | pollMessages | drain => cases ht
  | close =>
    have hcancel : polls (cancelInputFocusCheck s) = polls s :=
      congrArg (· + s.agenda.countP Task.polls) (polls_cancel (hi (by simp)))
    simp only [perform]
    split
    next => rfl
    next => exact polls_push.trans hcancel
  | closeLock =>
    refine polls_push.trans ?_
    split <;> rfl
  | closeCall | closeReturn => exact polls_push
  | closeEnd => exact absurd rfl hend

/-! ### Taking messages -/

theorem polls_raise (e : Exc) : polls (s.raise e) ≤ polls s :=
  Nat.add_le_add_left (Nat.zero_le _) _

/-- The type of a lifecycle record has a hash. -/
def Message.Hashes (m : Message) : Prop :=
  m.kind = str "lifecycle" → hashable (field m.dict "type") = true

/-- One pass of the loop, the task itself already gone from the agenda. -/
inductive Drains (s s' : State) : Prop
  | idle (none : s.messages = []) (mail : s'.toMail = s.toMail) (le : polls s' ≤ polls s + 1)
      (again : s.alive = true → polls s' = polls s + 1)
  | took (m : Message) (rest : List Message) (messages : s.messages = m :: rest)
      (mail : s'.toMail = ⟨rest, s.posted, s.taken ++ [m],
        s.handled ++ if m.kind = str "lifecycle" then [] else [m]⟩)
      (le : polls s' ≤ polls s + 1)
      (last : m.ends = true → polls s' = polls s ∧ s'.agenda.head? = some .close)
      (again : m.ends = false → s.alive = true → m.Hashes → polls s' = polls s + 1)

theorem drain_drains (cfg : Config) (s : State) : Drains s (drain cfg s) := by
  unfold drain
  split
  next hnone =>
    split
    next clock hclock =>
      have hpolls : polls { s with toClock := clock } = polls s + 1 := by
        simp only [polls, polls_after hclock, if_pos]
        omega
      exact .idle hnone rfl hpolls.le fun _ => hpolls
    next hdead =>
      refine .idle hnone rfl ((polls_raise _).trans (Nat.le_succ _)) fun halive => ?_
      simp [Clock.after, halive] at hdead
  next m rest hmessages =>
    dsimp only
    split
    next hkind =>
      unfold lifecycle
      split
      next text htype =>
        refine .took m rest hmessages (by simp [hkind, State.raise])
          ((polls_raise _).trans (Nat.le_succ _)) (fun hends => ?_) fun _ _ hhash => ?_
        · simp [Message.ends, hkind, htype] at hends
        · have hh := hhash hkind
          cases hv : field m.dict "type" <;> simp [hv, hashable, Value.inStrings] at hh htype
      next htype =>
        refine .took m rest hmessages (by simp [hkind, State.push]) ?_ (fun _ => ⟨?_, rfl⟩)
          fun hends => ?_
        · exact polls_push.le.trans (Nat.le_succ _)
        · exact polls_push
        · simp [Message.ends, hkind, htype] at hends
      next htype =>
        split
        next hlift =>
          refine .took m rest hmessages (by simp [hkind, State.raise])
            ((polls_raise _).trans (Nat.le_succ _)) (fun hends => ?_) fun _ halive => ?_
          · simp [Message.ends, hkind, htype] at hends
          · simp [halive] at hlift
        next =>
          refine .took m rest hmessages (by simp [hkind, State.push]) polls_push.le
            (fun hends => ?_) fun _ _ _ => polls_push
          simp [Message.ends, hkind, htype] at hends
    next hkind =>
      have hcalls : ((cfg.handleMessage m).map AppCall.task ++ [Task.drain]).countP Task.polls = 1 := by
        rw [List.countP_append, polls_calls]
        rfl
      have hpolls {u : State} : polls (u.push
          ((cfg.handleMessage m).map AppCall.task ++ [.drain])) = polls u + 1 :=
        polls_push.trans (congrArg (polls u + ·) hcalls)
      refine .took m rest hmessages (by simp [hkind, State.push]) hpolls.le (fun hends => ?_)
        fun _ _ _ => hpolls
      simp [Message.ends, hkind] at hends

theorem mail_perform (cfg : Config) (ht : t ≠ .drain) : (perform cfg s t).toMail = s.toMail := by
  cases t with
  | shown | touched | focusOut | check | closeLock | closeCall | closeReturn | closeEnd => rfl
  | destroyed | inputPointerPress | pollMessages | close =>
    simp only [perform]
    split <;> rfl
  | requestInputMethodHide =>
    simp only [perform, requestInputMethodHide]
    split <;> rfl
  | hideMode =>
    simp only [perform, hideMode]
    split <;> rfl
  | reconcileInputMethodFocus =>
    simp only [perform, reconcileInputMethodFocus]
    split
    next => rfl
    next =>
      split
      next => rfl
      next =>
        split
        next => rfl
        next => split <;> rfl
  | drain => exact absurd rfl ht

/-! ### Steps -/

/-- What a step does to the messages and to their polling. -/
inductive Polls (s : State) (a : Action) (s' : State) : Prop
  | still (mail : s'.toMail = s.toMail) (le : polls s' ≤ polls s)
      (again : s'.closed = false → (a = .perform → s.agenda.head? = some .hideMode →
        s.agenda.any Task.polls = true → s.desired ≠ none) → polls s' = polls s)
  | posted (m : Message) (mail : s'.toMail = { s.toMail with
      messages := s.messages ++ [m]
      posted := s.posted ++ [m] })
      (same : polls s' = polls s)
  | drained (rest : List Task) (performed : a = .perform) (here : s.agenda = .drain :: rest)
      (drains : Drains { s with agenda := rest } s')

theorem polls_pop {rest : List Task} (hagenda : s.agenda = t :: rest) :
    polls s = polls { s with agenda := rest } + if t.polls then 1 else 0 := by
  simp only [polls, hagenda, List.countP_cons]
  omega

theorem perform_polls {rest : List Task} (hc : Closing s) (hi : Checking s)
    (hagenda : s.agenda = t :: rest) :
    Polls s .perform (perform cfg { s with agenda := rest } t) := by
  have hpop := polls_pop hagenda
  by_cases hdrain : t = .drain
  · subst hdrain
    exact .drained rest rfl hagenda (drain_drains cfg _)
  have hmail := mail_perform cfg (s := { s with agenda := rest }) hdrain
  by_cases hpoll : t = .pollMessages
  · subst hpoll
    refine .still hmail ?_ fun hopen _ => ?_
    · rw [hpop]
      simp only [perform]
      split
      next => exact Nat.le_succ _
      next => exact polls_push.le
    · simp only [perform] at hopen ⊢
      split
      next hclosed =>
        rw [if_pos hclosed] at hopen
        exact absurd (hopen.symm.trans hclosed) (by simp)
      next => exact polls_push.trans hpop.symm
  have ht : t.polls = false := by cases t <;> first | rfl | contradiction
  rw [ht] at hpop
  have hsound : t ≠ .check → s.toClock.Sound := fun hne => hi.clock fun hfiring => by
    rw [hagenda] at hfiring
    exact hne (List.cons.inj hfiring).1
  by_cases hend : t = .closeEnd
  · subst hend
    refine .still hmail ?_ fun hopen => ?_
    · rw [hpop]
      simp [perform, closeEnd, polls, Clock.polls]
    · have hclosed := hc.away (.inl hopen) _ (hagenda ▸ List.mem_cons_self)
      cases hclosed
  by_cases hraise : t = .hideMode ∧ s.desired = none
  · obtain ⟨rfl, hnone⟩ := hraise
    refine .still hmail ?_ fun _ hsteady => ?_
    · rw [hpop]
      simp only [perform, hideMode, hnone]
      exact polls_raise _
    · -- the exception takes no loop with it
      have hquiet : ¬s.agenda.any Task.polls = true := fun hloop =>
        hsteady rfl (by rw [hagenda]; rfl) hloop hnone
      have hcount : s.agenda.countP Task.polls = 0 :=
        List.countP_eq_zero.mpr fun t ht hpolls => hquiet (List.any_eq_true.mpr ⟨t, ht, hpolls⟩)
      simp [perform, hideMode, hnone, polls, State.raise, hcount]
  · have hpolls := polls_perform cfg (s := { s with agenda := rest }) hsound ht
      (fun hhide hnone => hraise ⟨hhide, hnone⟩) hend
    exact .still hmail (hpolls.trans hpop.symm).le fun _ _ => hpolls.trans hpop.symm

theorem filter_id {l : List (Nat × Task)} (hnodup : (l.map Prod.fst).Nodup) {e : Nat × Task}
    (he : e ∈ l) : l.filter (fun x => x.1 = e.1) = [e] := by
  induction l with
  | nil => cases he
  | cons x l ih =>
    obtain ⟨hx, hl⟩ := List.nodup_cons.mp hnodup
    rcases List.mem_cons.mp he with rfl | he
    · have hnone : l.filter (fun x => x.1 = e.1) = [] := by
        refine List.filter_eq_nil_iff.mpr fun y hy heq => hx ?_
        rw [← of_decide_eq_true heq]
        exact List.mem_map_of_mem hy
      simp [hnone]
    · have hne : x.1 ≠ e.1 := fun heq => hx (heq ▸ List.mem_map_of_mem he)
      simp [hne, ih hl he]

theorem fire_polls (hi : Checking s) (hc : Closing s) (hidle : s.agenda = []) {timer : Nat}
    {e : Nat × Task} (he : s.timers.find? (fun e => e.1 = timer) = some e) :
    polls (State.push { s with timers := s.timers.filter fun e => e.1 ≠ timer } [e.2]) =
      polls s := by
  obtain rfl : e.1 = timer := by simpa using List.find?_some he
  have hmem := List.mem_of_find?_eq_some he
  have hsplit := List.countP_eq_countP_filter_add s.timers
    (fun x => decide (x.2 = .pollMessages)) fun x => decide (x.1 = e.1)
  rw [filter_id (hi.clock (by simp [hidle])).nodup hmem] at hsplit
  have htimed := hc.timers e hmem
  have hpoll : [e.2].countP Task.polls = [e].countP fun x => decide (x.2 = .pollMessages) := by
    cases h : e.2 <;> simp_all [Task.polls, Task.timed]
  rw [polls_push, hpoll]
  simp only [polls, Clock.polls, hsplit, decide_not]
  omega

theorem activate_polls (welcomed : Bool) (hidle : s.agenda = []) :
    Polls s a (activateLifecycle cfg s welcomed) := by
  have hraise (e : Exc) : Polls s a (s.raise e) := by
    have hsame : polls (s.raise e) = polls s := by simp [polls, State.raise, hidle]
    exact .still rfl hsame.le fun _ _ => hsame
  unfold activateLifecycle
  split
  next => exact .still rfl le_rfl fun _ _ => rfl
  next => exact .still rfl le_rfl fun _ _ => rfl
  next =>
    split
    next => exact hraise _
    next =>
      dsimp only
      split
      next =>
        split
        next clock hclock =>
          have hsame : polls { s with channel := .opened, toClock := clock } = polls s :=
            congrArg (· + s.agenda.countP Task.polls) (polls_after hclock)
          exact .still rfl hsame.le fun _ _ => hsame
        next =>
          have hsame : polls (State.raise { s with channel := .opened } .tclError) = polls s := by
            simp [polls, State.raise, hidle]
          exact .still rfl hsame.le fun _ _ => hsame
      next => exact .still rfl le_rfl fun _ _ => rfl

theorem attach_polls (w : Widget) (mode : Str) (hidle : s.agenda = []) :
    Polls s a (attachInputMethod cfg s w mode) := by
  unfold attachInputMethod
  dsimp only
  split
  next =>
    split
    next => exact .still rfl le_rfl fun _ _ => rfl
    next =>
      have hsame : polls (State.raise { s with
          inputWidgets := setMode s.inputWidgets w (cfg.unicode.lower (strip mode)) } .tclError) =
          polls s := by
        simp [polls, State.raise, hidle]
      exact .still rfl hsame.le fun _ _ => hsame
  next =>
    have hsame : polls (s.raise (.valueError (str "unsupported input method mode"))) = polls s := by
      simp [polls, State.raise, hidle]
    exact .still rfl hsame.le fun _ _ => hsame

theorem step_polls (hc : Closing s) (hi : Checking s) (h : step cfg s a = some s') :
    Polls s a s' := by
  cases a with
  | event e =>
    simp only [step] at h
    split at h
    next =>
      obtain rfl := Option.some.inj h
      have hsame : polls (s.push [e.task]) = polls s := by
        rw [polls_push]
        cases e <;> rfl
      exact .still rfl hsame.le fun _ _ => hsame
    next => cases h
  | call c =>
    simp only [step] at h
    split at h
    next =>
      obtain rfl := Option.some.inj h
      have hsame : polls (s.push [c.task]) = polls s := by
        rw [polls_push]
        cases c <;> rfl
      exact .still rfl hsame.le fun _ _ => hsame
    next => cases h
  | attachInputMethod w mode =>
    simp only [step] at h
    split at h
    next hidle =>
      obtain rfl := Option.some.inj h
      exact attach_polls w mode hidle
    next => cases h
  | activateLifecycle welcomed =>
    simp only [step] at h
    split at h
    next hidle =>
      obtain rfl := Option.some.inj h
      exact activate_polls welcomed hidle
    next => cases h
  | fire timer =>
    simp only [step] at h
    split at h
    next hidle he =>
      obtain rfl := Option.some.inj h
      have hsame := fire_polls hi hc hidle he
      exact .still rfl hsame.le fun _ _ => hsame
    next => cases h
  | perform =>
    simp only [step] at h
    split at h
    next => cases h
    next t rest hagenda =>
      obtain rfl := Option.some.inj h
      exact perform_polls hc hi hagenda
  | moveFocus =>
    obtain rfl := Option.some.inj h
    exact .still rfl le_rfl fun _ _ => rfl
  | post m =>
    obtain rfl := Option.some.inj h
    exact .posted m rfl rfl
  | worker w a =>
    obtain ⟨ime, -, rfl⟩ := Option.map_eq_some_iff.mp h
    exact .still rfl le_rfl fun _ _ => rfl

/-! ### Runs -/

/-- The application is closed, or does nothing else before it closes. -/
def Leaving (s : State) : Prop := s.closed = true ∨ s.agenda.head? = some .close

theorem step_closed (hc : Closing s) (hclosed : s.closed = true)
    (h : step cfg s a = some s') : s'.closed = true := by
  obtain ⟨hplain, -⟩ | ⟨t, rest, hagenda, rfl⟩ := step_plain hc h
  · exact hplain.closed.trans hclosed
  · by_cases ht : t.closing = true
    · exact (perform_closing cfg ht).1.trans hclosed
    · exact (plain_perform cfg (s := { s with agenda := rest }) (by simpa using ht)
        fun _ => hclosed).closed.trans hclosed

theorem leaving_step (hc : Closing s) (hi : Leaving s) (h : step cfg s a = some s') :
    Leaving s' := by
  rcases hi with hclosed | hclose
  · exact .inl (step_closed hc hclosed h)
  · obtain ⟨hplain, hidle | hsame⟩ | ⟨t, rest, hagenda, rfl⟩ := step_plain hc h
    · rw [hidle] at hclose
      cases hclose
    · exact .inr (hsame ▸ hclose)
    · rw [hagenda] at hclose
      obtain rfl := Option.some.inj hclose
      refine .inl ?_
      simp only [perform]
      split
      next hclosed => exact hclosed
      next => rfl

/-- Everything posted is taken once, in order, and nothing after a message that ends. -/
structure Mail.Sound (m : Mail) : Prop where
  posted : m.posted = m.taken ++ m.messages
  handled : m.handled = m.taken.filter fun m => m.kind ≠ str "lifecycle"
  last : ∀ x ∈ m.taken.dropLast, x.ends = false

def Mail.ended (m : Mail) : Prop := ∃ x ∈ m.taken, x.ends = true

structure Polled (s : State) : Prop where
  mail : s.toMail.Sound
  once : polls s ≤ 1
  ended : s.toMail.ended → polls s = 0 ∧ Leaving s

theorem polled_init : Polled init :=
  ⟨⟨rfl, rfl, fun _ hm => (nomatch hm)⟩, le_rfl, fun ⟨_, hm, _⟩ => (nomatch hm)⟩

theorem Mail.Sound.took {m : Mail} (hi : m.Sound) (hno : ¬m.ended) {x : Message}
    {rest : List Message} (hx : m.messages = x :: rest) :
    Sound ⟨rest, m.posted, m.taken ++ [x],
      m.handled ++ if x.kind = str "lifecycle" then [] else [x]⟩ := by
  refine ⟨?_, ?_, ?_⟩
  · simp [hi.posted, hx]
  · rw [List.filter_append, ← hi.handled]
    by_cases hkind : x.kind = str "lifecycle" <;> simp [hkind]
  · simp only [List.dropLast_concat]
    intro y hy
    by_contra hends
    exact hno ⟨y, hy, by simpa using hends⟩

theorem Polled.step (hi : Polled s) (hc : Closing s) (hcheck : Checking s)
    (h : step cfg s a = some s') : Polled s' := by
  cases step_polls hc hcheck h with
  | still mail le =>
    refine ⟨mail ▸ hi.mail, le.trans hi.once, fun hended => ?_⟩
    obtain ⟨hzero, hleaving⟩ := hi.ended (mail ▸ hended)
    exact ⟨Nat.le_zero.mp (hzero ▸ le), leaving_step hc hleaving h⟩
  | posted m mail same =>
    refine ⟨mail ▸ ⟨?_, hi.mail.handled, hi.mail.last⟩, same.le.trans hi.once, fun hended => ?_⟩
    · change s.posted ++ [m] = s.taken ++ (s.messages ++ [m])
      rw [hi.mail.posted, List.append_assoc]
    · rw [mail] at hended
      obtain ⟨hzero, hleaving⟩ := hi.ended hended
      exact ⟨same.trans hzero, leaving_step hc hleaving h⟩
  | drained rest performed here drains =>
    have hpop := polls_pop here
    have honce := hi.once
    have hno : ¬s.toMail.ended := fun hended => by
      rw [(hi.ended hended).1] at hpop
      exact absurd hpop (by simp [Task.polls])
    simp only [Task.polls, if_pos] at hpop
    cases drains with
    | idle none mail le again =>
      have hsame : s'.toMail = s.toMail := mail
      exact ⟨hsame ▸ hi.mail, by omega, fun hended => absurd (hsame ▸ hended) hno⟩
    | took m rest' messages mail le last =>
      have hmail := hi.mail.took hno messages
      refine ⟨mail ▸ hmail, by omega, fun hended => ?_⟩
      rw [mail] at hended
      obtain ⟨x, hx, hends⟩ := hended
      rcases List.mem_append.mp hx with hx | hx
      · exact absurd ⟨x, hx, hends⟩ hno
      · obtain rfl := List.mem_singleton.mp hx
        obtain ⟨hpolls, hclose⟩ := last hends
        exact ⟨by omega, .inr hclose⟩

theorem reach_polled {ok : State → Action → Prop} (h : Reach (step cfg) ok init s) : Polled s :=
  h.invariant_of (P := Polled) (fun _ hr => And.intro (reach_closing hr) (reach_checking hr))
    polled_init fun _ _ _ hr hi _ hs => hi.step hr.1 hr.2 hs

/-- No exception leaves the message loop: no lifecycle record has a type without a hash, and no
worker takes back what is desired between the two looks of a hide that a message made. -/
def Steady (s : State) : Action → Prop
  | .perform =>
    (s.agenda.head? = some .hideMode → s.agenda.any Task.polls = true → s.desired ≠ none) ∧
      (s.agenda.head? = some .drain → ∀ m, s.messages.head? = some m → m.Hashes)
  | _ => True

instance (m : Message) : Decidable m.Hashes := inferInstanceAs (Decidable (_ → _))

instance (s : State) (a : Action) : Decidable (Steady s a) :=
  match a with
  | .perform => inferInstanceAs (Decidable ((_ → _ → _) ∧ (_ → ∀ m ∈ s.messages.head?, m.Hashes)))
  | .event _ | .attachInputMethod .. | .activateLifecycle _ | .call _ | .fire _ | .moveFocus _
  | .post _ | .worker .. => .isTrue trivial

theorem steady_step (hc : Closing s) (hcheck : Checking s)
    (hok : Steady s a) (h : step cfg s a = some s')
    (hpolls : s.closed = false → ¬s.toMail.ended → polls s = 1)
    (hopen : s'.closed = false) (hno : ¬s'.toMail.ended) : polls s' = 1 := by
  have hopen₀ : s.closed = false := by
    by_contra hclosed
    rw [step_closed hc (by simpa using hclosed) h] at hopen
    cases hopen
  cases step_polls hc hcheck h with
  | still mail le again =>
    rw [again hopen fun ha => ?_]
    · exact hpolls hopen₀ (mail ▸ hno)
    · subst ha
      exact hok.1
  | posted m mail same =>
    rw [mail] at hno
    exact same.trans (hpolls hopen₀ hno)
  | drained rest performed here drains =>
    subst performed
    have halive := hc.alive hopen₀
    have hpop := polls_pop here
    simp only [Task.polls, if_pos] at hpop
    cases drains with
    | idle none mail le again =>
      have hsame : s'.toMail = s.toMail := mail
      rw [again halive, ← hpop]
      exact hpolls hopen₀ (hsame ▸ hno)
    | took m rest' messages mail le last again =>
      rw [mail] at hno
      have hends : m.ends = false := by
        by_contra hends
        exact hno ⟨m, List.mem_append_right _ (List.mem_singleton_self m), by simpa using hends⟩
      have hbefore : ¬s.toMail.ended := fun ⟨x, hx, hxends⟩ =>
        hno ⟨x, List.mem_append_left _ hx, hxends⟩
      have hhash := hok.2 (by rw [here]; rfl) m (by rw [show s.messages = _ from messages]; rfl)
      rw [again hends halive hhash, ← hpop]
      exact hpolls hopen₀ hbefore

theorem reach_steady (h : Reach (step cfg) Steady init s) (hopen : s.closed = false)
    (hno : ¬s.toMail.ended) : polls s = 1 := by
  have hpolls : s.closed = false → ¬s.toMail.ended → polls s = 1 :=
    h.invariant_of (P := fun s => s.closed = false → ¬s.toMail.ended → polls s = 1)
      (fun _ hr => And.intro (reach_closing hr) (reach_checking hr)) (fun _ _ => rfl)
      fun _ _ _ hr hi hok hs => steady_step hr.1 hr.2 hok hs hi
  exact hpolls hopen hno

/-- The poll that is outstanding takes the next message. -/
theorem poll_takes (hi : Checking s) (hopen : s.closed = false) (hidle : s.agenda = [])
    (hpolls : polls s = 1) {m : Message} {rest : List Message} (hm : s.messages = m :: rest) :
    ∃ timer t, run (step cfg) s [.fire timer, .perform, .perform] = some t ∧
      t.taken = s.taken ++ [m] := by
  have hone : s.toClock.polls = 1 := by simpa [polls, hidle] using hpolls
  obtain ⟨e, he, hpoll⟩ := List.countP_pos_iff.mp (show 0 < s.toClock.polls by omega)
  have hpoll : e.2 = .pollMessages := of_decide_eq_true hpoll
  have hfind : s.timers.find? (fun x => x.1 = e.1) = some e := by
    rw [← List.head?_filter, filter_id (hi.clock (by simp [hidle])).nodup he]
    rfl
  let u : State := { s with timers := s.timers.filter fun x => x.1 ≠ e.1, agenda := [] }
  refine ⟨e.1, drain cfg u, ?_, ?_⟩
  · simp [run, step, hidle, hfind, hpoll, State.push, perform, hopen, u]
  · cases drain_drains cfg u with
    | idle none =>
      rw [show s.messages = [] from none] at hm
      cases hm
    | took m' rest' messages mail =>
      rw [show s.messages = m' :: rest' from messages] at hm
      obtain ⟨rfl, -⟩ := List.cons.inj hm
      exact congrArg Mail.taken mail

theorem messages_polled (cfg : Config) (s : State) (h : Reach (step cfg) Any init s) :
    s.posted = s.taken ++ s.messages ∧
      s.handled = s.taken.filter (fun m => m.kind ≠ str "lifecycle") ∧
      (∀ m ∈ s.taken.dropLast, m.ends = false) ∧
      ((∃ m ∈ s.taken, m.ends = true) → polls s = 0 ∧ Leaving s) ∧ polls s ≤ 1 ∧
      (Reach (step cfg) Steady init s → s.closed = false → (∀ m ∈ s.taken, m.ends = false) →
        polls s = 1 ∧ (s.agenda = [] → ∀ m rest, s.messages = m :: rest →
          ∃ timer t, run (step cfg) s [.fire timer, .perform, .perform] = some t ∧
            t.taken = s.taken ++ [m])) := by
  have hi := reach_polled h
  refine ⟨hi.mail.posted, hi.mail.handled, hi.mail.last, hi.ended, hi.once,
    fun hsteady hopen hno => ?_⟩
  have hpolls := reach_steady hsteady hopen fun ⟨m, hm, hends⟩ => by
    rw [hno m hm] at hends
    cases hends
  exact ⟨hpolls, fun hidle m rest hm => poll_takes (reach_checking h) hopen hidle hpolls hm⟩

/-! ### A shutdown between two messages -/

def plainApp : Config := ⟨.ascii, .unset, fun _ => []⟩

def progress (n : Int) : Message := ⟨str "progress", .int n⟩

def shutdown : Message := ⟨str "lifecycle", .dict [(.str (str "type"), .str (str "shutdown"))]⟩

def posts : List Action :=
  [.post (progress 1), .post shutdown, .post (progress 2), .fire 0, .perform, .perform, .perform,
    .perform, .perform, .perform]

/-- After the shutdown nothing is taken; before it, the poll comes back and takes the next
message. -/
theorem messages_polled_shutdown :
    (∃ s, run (step plainApp) init posts = some s ∧ s.handled.length = 1 ∧
      s.messages.length = 1 ∧ s.alive = false ∧ polls s ≤ 1 ∧
      s.posted = s.taken ++ s.messages) ∧
    ∃ s, Reach (step plainApp) Steady init s ∧ s.taken = [progress 1] ∧ polls s = 1 ∧
      ∃ timer t, run (step plainApp) s [.fire timer, .perform, .perform] = some t ∧
        t.taken = [progress 1, progress 2] := by
  constructor
  · have hrun : ∃ s, run (step plainApp) init posts = some s ∧ s.handled.length = 1 ∧
        s.messages.length = 1 ∧ s.alive = false := ⟨_, rfl, rfl, rfl, rfl⟩
    obtain ⟨s, hs, hhandled, hmessages, hd⟩ := hrun
    obtain ⟨hposted, -, -, -, honce, -⟩ := messages_polled plainApp s (.of_run hs)
    exact ⟨s, hs, hhandled, hmessages, hd, honce, hposted⟩
  · have hrun : ∃ s, runWhere (step plainApp) Steady init
          [.post (progress 1), .fire 0, .perform, .perform, .perform, .post (progress 2)] =
            some s ∧ s.taken = [progress 1] ∧ s.messages = [progress 2] ∧ s.closed = false ∧
        s.agenda = [] := ⟨_, rfl, rfl, rfl, rfl, rfl⟩
    obtain ⟨s, hs, htaken, hmessages, hopen, hidle⟩ := hrun
    have hsteady := Reach.of_runWhere hs
    obtain ⟨-, -, -, -, -, hpolled⟩ := messages_polled plainApp s hsteady.any
    have hno : ∀ m ∈ s.taken, m.ends = false := by
      rw [htaken]
      exact List.forall_mem_singleton.mpr rfl
    obtain ⟨hpolls, htakes⟩ := hpolled hsteady hopen hno
    obtain ⟨timer, t, ht, htaken'⟩ := htakes hidle _ _ hmessages
    exact ⟨s, hsteady, htaken, hpolls, timer, t, ht, by rw [htaken', htaken]; rfl⟩

end Msys.TouchApp
