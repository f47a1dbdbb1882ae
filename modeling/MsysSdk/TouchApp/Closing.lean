import MsysSdk.TouchApp.Driving

/-! What happens once `close` has begun: the requests are over, a worker makes the one call that it
has taken, and the channel is closed last. -/

namespace Msys.TouchApp
open Python Transition
open InputMethod (Request RoleCall)

variable {cfg : Config} {s s' : State} {a : Action}

theorem Moved.late (h : Moved cfg s a s') (hc : s.closed = true) :
    s'.closed = true ∧ s'.asked = s.asked := by
  cases h with
  | still ime closed | connected _ _ ime closed | shut _ ime closed =>
    exact ⟨closed.trans hc, congrArg Ime.asked ime⟩
  | queued _ _ open' => exact absurd (open'.symm.trans hc) (by simp)
  | worker w b ime closed => exact ⟨closed.trans hc, (worker_calls ime).1⟩
  | closing _ open' => exact absurd (open'.symm.trans hc) (by simp)
  | settled _ _ ime closed | hidden _ _ _ ime closed => exact ⟨closed.trans hc, by rw [ime]⟩

theorem step_dead (hi : Closing s) (h : step cfg s a = some s') (hd : s.alive = false) :
    s'.alive = false := by
  obtain ⟨hplain, -⟩ | ⟨t, rest, hagenda, rfl⟩ := step_plain hi h
  · exact hplain.alive.trans hd
  · have ht := hi.away (.inr hd) t (hagenda ▸ List.mem_cons_self)
    have hclosed : s.closed = true := by
      by_contra hopen
      rw [hi.alive (Bool.not_eq_true _ ▸ hopen)] at hd
      cases hd
    exact (plain_perform cfg (s := { s with agenda := rest }) ht fun _ => hclosed).alive.trans hd

theorem Checking.dead (h : Checking s) (hd : s.alive = false) : s.timers = [] := by
  by_cases hfiring : s.agenda = [.check]
  · exact (h.firing hfiring).dead hd
  · exact (h.clock hfiring).dead hd

theorem worker_live {x x' : Ime} {closed : Bool} {channel : Channel} {w : Nat}
    {a : Ime.WorkerAction} (h : x.workerStep closed channel w a = some x') :
    (x.worker w).live = true := by
  cases a with
  | take | call | drop | returned | note =>
    simp only [Ime.workerStep, Ime.workerTake, Ime.workerCall, Ime.workerDrop, Ime.workerReturn,
      Ime.workerNote] at h
    split at h
    next hw =>
      rw [hw]
      rfl
    next => cases h

theorem idle_of_absent (h : Reach (step cfg) Any init s) (habsent : s.channel = .absent)
    (w : Nat) : (s.worker w).live = false := by
  obtain ⟨t, -, hsim⟩ := reach_simulates h
  by_contra hlive
  rw [Bool.not_eq_false, ← WorkerPc.isSome_phase] at hlive
  refine hsim.there ?_ habsent
  rwa [hsim.sole.eq (k := w) hlive]

/-- Nothing calls over an open channel once Tk is gone. -/
def Mute (s : State) : Prop :=
  s.alive = false → s.channel = .closed ∨ ∀ w, (s.worker w).live = false

theorem alive_perform {t : Task} (ht : t ≠ .closeEnd) : (perform cfg s t).alive = s.alive := by
  by_cases hclosing : t.closing = true
  · cases t with
    | closeLock | closeCall | closeReturn => rfl
    | closeEnd => exact absurd rfl ht
    | _ => cases hclosing
  · by_cases hclose : t = .close
    · subst hclose
      simp only [perform]
      split
      next => rfl
      next => exact alive_cancel _
    · exact (plain_perform cfg (by simpa using hclosing) fun h => absurd h hclose).alive

theorem mute_step (hr : Reach (step cfg) Any init s) (hi : Mute s)
    (h : step cfg s a = some s') : Mute s' := by
  intro hd
  have hclosing := reach_closing hr
  by_cases hd₀ : s.alive = false
  · have hclosed : s.closed = true := by
      by_contra hopen
      rw [hclosing.alive (Bool.not_eq_true _ ▸ hopen)] at hd₀
      cases hd₀
    have hmute := hi hd₀
    cases step_moved hclosing (reach_found hr) h with
    | still ime _ channel | settled _ _ ime _ channel | hidden _ _ _ ime _ channel =>
      rw [ime, channel]
      exact hmute
    | connected _ _ ime _ _ open' =>
      rw [ime]
      exact .inr (hmute.resolve_left open')
    | queued _ _ open' => exact absurd (open'.symm.trans hclosed) (by simp)
    | worker w b ime _ channel =>
      rw [channel]
      refine .inl (hmute.resolve_right fun hidle => ?_)
      have hlive := worker_live ime
      rw [hidle w] at hlive
      cases hlive
    | closing _ open' => exact absurd (open'.symm.trans hclosed) (by simp)
    | shut _ _ _ _ channel => exact .inl channel
  · obtain ⟨hplain, -⟩ | ⟨t, rest, hagenda, rfl⟩ := step_plain hclosing h
    · exact absurd (hplain.alive.symm.trans hd) hd₀
    · by_cases ht : t = .closeEnd
      · subst ht
        by_cases habsent : s.channel = .absent
        · have hidle := idle_of_absent hr habsent
          exact .inr hidle
        · exact .inl (if_neg habsent)
      · exact absurd ((alive_perform (s := { s with agenda := rest }) ht).symm.trans hd) hd₀

theorem reach_mute (h : Reach (step cfg) Any init s) : Mute s :=
  h.invariant_of (P := Mute) (fun _ hr => hr) nofun fun _ _ _ hr hi _ hs => mute_step hr hi hs

/-- What has gone over the channel when Tk is gone is all that will. -/
theorem reach_gone {t : State} (h : Reach (step cfg) Any init s) (hd : s.alive = false)
    (ht : Reach (step cfg) Any s t) : t.alive = false ∧ t.wire = s.wire ∧ t.timers = [] := by
  have hend : t.alive = false ∧ t.wire = s.wire := by
    induction ht with
    | start => exact ⟨hd, rfl⟩
    | next hr _ hs ih =>
      have hreach := h.trans hr
      obtain ⟨hd', hwire⟩ := ih
      have hclosing := reach_closing hreach
      refine ⟨step_dead hclosing hs hd', ?_⟩
      rw [← hwire]
      cases step_moved hclosing (reach_found hreach) hs with
      | still ime | connected _ _ ime | closing ime | shut _ ime => rw [ime]
      | queued r force _ _ ime => rw [ime, (queue_calls ..).2]
      | worker w b ime =>
        obtain ⟨-, ⟨-, hsame⟩ | ⟨r, -, -, ⟨hopened, -⟩ | ⟨-, -, hsame⟩⟩⟩ := worker_calls ime
        · exact hsame
        · rcases reach_mute hreach hd' with hmute | hidle
          · rw [hopened] at hmute
            cases hmute
          · have hlive := worker_live ime
            rw [hidle w] at hlive
            cases hlive
        · exact hsame
      | settled _ _ ime => rw [ime]
      | hidden mode _ here =>
        have hmem := List.mem_of_mem_head? here
        have := hclosing.away (.inr hd') _ hmem
        cases this
  exact ⟨hend.1, hend.2, (reach_checking (h.trans ht)).dead hend.1⟩

/-! ### The calls after the lock -/

/-- While a callback runs, only the workers move beside it. -/
theorem step_busy {t : Task} {rest : List Task} (hagenda : s.agenda = t :: rest)
    (h : step cfg s a = some s') :
    s' = perform cfg { s with agenda := rest } t ∨
      s'.agenda = s.agenda ∧ s'.channel = s.channel ∧ s'.alive = s.alive ∧
        (s'.toIme = s.toIme ∨ ∃ w a, s.workerStep s.closed s.channel w a = some s'.toIme) := by
  cases a with
  | event | call | attachInputMethod | activateLifecycle | fire => simp [step, hagenda] at h
  | perform =>
    simp only [step, hagenda, Option.some.injEq] at h
    exact .inl h.symm
  | moveFocus | post =>
    obtain rfl := Option.some.inj h
    exact .inr ⟨rfl, rfl, rfl, .inl rfl⟩
  | worker w a =>
    obtain ⟨ime, hime, rfl⟩ := Option.map_eq_some_iff.mp h
    exact .inr ⟨rfl, rfl, rfl, .inr ⟨w, a, hime⟩⟩

/-- What `close` calls over a channel that was started, once it has looked at what is desired. -/
def hides (s : State) : List RoleCall :=
  if s.channel = .opened ∧ closeLock.closeShown s.desired = true then
    [methodCall ⟨false, closeLock.closeMode s.desired⟩]
  else []

/-- From the lock on, with a channel that was started: the calls of workers that come before the
hide are `a`, and those after it `b`. -/
inductive Ending (s t : State) : Prop
  | before (mode : Str) (a : List RoleCall) (rest : List Task)
      (here : t.agenda = .closeCall mode :: rest) (started : t.channel = .opened)
      (hide : hides s = [methodCall ⟨false, mode⟩])
      (wire : t.wire = s.wire ++ a)
      (called : t.called.map methodCall = s.called.map methodCall ++ a)
  | after (a b c : List RoleCall)
      (here : t.alive = false ∨ t.channel = .opened ∧
        ∃ u rest, t.agenda = u :: rest ∧ (u = .closeReturn ∨ u = .closeEnd))
      (wire : t.wire = s.wire ++ a ++ hides s ++ b)
      (called : t.called.map methodCall = s.called.map methodCall ++ a ++ b ++ c)
      (whole : t.alive = true → c = [])

theorem Moved.called (h : Moved cfg s a s') : ∃ l, s'.called = s.called ++ l := by
  cases h with
  | still ime | connected _ _ ime | closing ime | shut _ ime | settled _ _ ime
  | hidden _ _ _ ime => exact ⟨[], by rw [ime, List.append_nil]⟩
  | queued _ _ _ _ ime => exact ⟨[], by rw [ime, (queue_calls ..).1, List.append_nil]⟩
  | worker w b ime =>
    obtain ⟨-, ⟨hcalled, -⟩ | ⟨r, -, hcalled, -⟩⟩ := worker_calls ime
    · exact ⟨[], by rw [hcalled, List.append_nil]⟩
    · exact ⟨[r], hcalled⟩

theorem Ending.step {t t' : State} (hr : Reach (step cfg) Any init t) (h : Ending s t)
    (hs : step cfg t a = some t') : Ending s t' := by
  have hclosing := reach_closing hr
  cases h with
  | before mode a' rest here started hide wire called =>
    rcases step_busy here hs with rfl | ⟨hagenda, hchannel, -, hsame | ⟨w, b, hwork⟩⟩
    · refine .after a' [] [] (.inr ⟨started, .closeReturn, rest, rfl, .inl rfl⟩) ?_ ?_ fun _ => rfl
      · change (if t.channel = .opened then t.wire ++ [methodCall ⟨false, mode⟩] else t.wire) = _
        rw [if_pos started, wire, hide, List.append_nil]
      · rw [List.append_nil, List.append_nil]
        exact called
    · exact .before mode a' rest (hagenda.trans here) (hchannel.trans started) hide
        (by rw [hsame, wire]) (by rw [hsame, called])
    · obtain ⟨-, ⟨hcalled, hwire⟩ | ⟨r, -, hcalled, ⟨-, hwire⟩ | ⟨hrefused, -⟩⟩⟩ :=
        worker_calls hwork
      · exact .before mode a' rest (hagenda.trans here) (hchannel.trans started) hide
          (by rw [hwire, wire]) (by rw [hcalled, called])
      · exact .before mode (a' ++ [methodCall r]) rest (hagenda.trans here)
          (hchannel.trans started) hide (by rw [hwire, wire, List.append_assoc])
          (by rw [hcalled, List.map_append, called, List.append_assoc]; rfl)
      · exact absurd started hrefused
  | after a' b c here wire called whole =>
    by_cases hd : t.alive = false
    · obtain ⟨hd', hwire, -⟩ := reach_gone hr hd (.next .start trivial hs)
      obtain ⟨l, hl⟩ := (step_moved hclosing (reach_found hr) hs).called
      refine .after a' b (c ++ l.map methodCall) (.inl hd') (hwire.trans wire) ?_ fun halive => ?_
      · rw [hl, List.map_append, called, List.append_assoc _ c]
      · exact absurd (hd'.symm.trans halive) (by simp)
    · have halive : t.alive = true := by simpa using hd
      obtain rfl := whole halive
      obtain ⟨started, u, rest, hagenda, hu⟩ := here.resolve_left hd
      rcases step_busy hagenda hs with rfl | ⟨hsame, hchannel, -, hime | ⟨w, d, hwork⟩⟩
      · rcases hu with rfl | rfl
        · exact .after a' b [] (.inr ⟨started, .closeEnd, rest, rfl, .inr rfl⟩) wire called
            fun _ => rfl
        · exact .after a' b [] (.inl rfl) wire called fun _ => rfl
      · exact .after a' b [] (.inr ⟨hchannel.trans started, u, rest, hsame.trans hagenda, hu⟩)
          (by rw [hime, wire]) (by rw [hime, called]) fun _ => rfl
      · have here' := Or.inr (a := t'.alive = false)
          (show t'.channel = .opened ∧
              ∃ u rest, t'.agenda = u :: rest ∧ (u = .closeReturn ∨ u = .closeEnd) from
            ⟨hchannel.trans started, u, rest, hsame.trans hagenda, hu⟩)
        obtain ⟨-, ⟨hcalled, hwire⟩ | ⟨r, -, hcalled, ⟨-, hwire⟩ | ⟨hrefused, -⟩⟩⟩ :=
          worker_calls hwork
        · exact .after a' b [] here' (by rw [hwire, wire]) (by rw [hcalled, called]) fun _ => rfl
        · refine .after a' (b ++ [methodCall r]) [] here' ?_ ?_ fun _ => rfl
          · rw [hwire, wire, List.append_assoc _ b]
          · rw [hcalled, List.map_append, called]
            simp
        · exact absurd started hrefused

theorem reach_ending {t u : State} (h : Reach (step cfg) Any init t) (hi : Ending s t)
    (hu : Reach (step cfg) Any t u) : Ending s u := by
  induction hu with
  | start => exact hi
  | next hr _ hs ih => exact ih.step (h.trans hr) hs

theorem Ending.sent {t : State} {late : List Request} (h : Ending s t) (hc : Closing t)
    (hd : t.alive = false) (hlate : t.called = s.called ++ late)
    (hheld : late = [] ∨ ∃ r, Held s r ∧ late = [r]) :
    ∃ a b, t.wire = s.wire ++ a ++ hides s ++ b ∧
      (a ++ b = [] ∨ ∃ r, Held s r ∧ a ++ b = [methodCall r]) := by
  cases h with
  | before mode a rest here =>
    have := hc.away (.inr hd) _ (here ▸ List.mem_cons_self)
    cases this
  | after a b c here wire called =>
    refine ⟨a, b, wire, ?_⟩
    have hcalls : late.map methodCall = a ++ b ++ c := by
      rw [hlate, List.map_append, List.append_assoc, List.append_assoc] at called
      rw [List.append_cancel_left called, List.append_assoc]
    rcases hheld with rfl | ⟨r, hr, rfl⟩
    · exact .inl (List.append_eq_nil_iff.mp hcalls.symm).1
    · rw [List.map_singleton] at hcalls
      cases hab : a ++ b with
      | nil => exact .inl rfl
      | cons x xs =>
        rw [hab, List.cons_append] at hcalls
        obtain ⟨rfl, hrest⟩ := List.cons.inj hcalls
        obtain ⟨rfl, -⟩ := List.append_eq_nil_iff.mp hrest.symm
        exact .inr ⟨r, hr, rfl⟩

/-- From the lock on, with a channel that was never started or is not there. -/
structure Silent (s t : State) : Prop where
  late : t.closed = true
  wire : t.wire = s.wire
  refuses : t.alive = true → t.channel ≠ .opened

theorem Silent.step {t t' : State} (hr : Reach (step cfg) Any init t) (h : Silent s t)
    (hs : step cfg t a = some t') : Silent s t' := by
  have hclosing := reach_closing hr
  have hlate := ((step_moved hclosing (reach_found hr) hs).late h.late).1
  by_cases hd : t.alive = false
  · obtain ⟨hd', hwire, -⟩ := reach_gone hr hd (.next .start trivial hs)
    exact ⟨hlate, hwire.trans h.wire, fun halive => absurd (hd'.symm.trans halive) (by simp)⟩
  · have halive : t.alive = true := by simpa using hd
    have hrefuses := h.refuses halive
    obtain ⟨u, rest, hagenda, hu, -⟩ := hclosing.here h.late halive
    rcases step_busy hagenda hs with rfl | ⟨-, hchannel, -, hime | ⟨w, b, hwork⟩⟩
    · cases u with
      | closeLock | closeReturn => exact ⟨hlate, h.wire, fun _ => hrefuses⟩
      | closeCall mode => exact ⟨hlate, (if_neg hrefuses).trans h.wire, fun _ => hrefuses⟩
      | closeEnd => exact ⟨hlate, h.wire, fun halive => absurd halive (by simp [perform, closeEnd])⟩
      | _ => cases hu
    · exact ⟨hlate, by rw [hime, h.wire], fun _ => hchannel ▸ hrefuses⟩
    · refine ⟨hlate, ?_, fun _ => hchannel ▸ hrefuses⟩
      obtain ⟨-, ⟨-, hwire⟩ | ⟨r, -, -, ⟨hopened, -⟩ | ⟨-, -, hwire⟩⟩⟩ := worker_calls hwork
      · exact hwire.trans h.wire
      · exact absurd hopened hrefuses
      · exact hwire.trans h.wire

/-- The keyboard is shown when the window is closed, and a worker still waits for its answer. -/
def closeShown : List Action :=
  [.attachInputMethod editor (str "zh"), .activateLifecycle true,
    .event (.buttonPress editor (str "zh")), .perform, .worker 0 .take, .worker 0 .call,
    .event .deleteWindow, .perform]

end Msys.TouchApp
