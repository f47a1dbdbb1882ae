import MsysSdk.TouchApp.Steps

/-! The delayed check of the focus: no more than one is ever outstanding, and it is the one that the
application can still cancel. -/

namespace Msys.TouchApp
open Python Transition
open InputMethod (Request)

variable {cfg : Config} {s s' : State} {a : Action} {c c' : Clock} {t : Task}

def Clock.checks (c : Clock) : List Nat := (c.timers.filter fun e => e.2 = .check).map Prod.fst

namespace Clock

structure Sound (c : Clock) : Prop where
  ids : ∀ e ∈ c.timers, e.1 < c.nextTimer
  nodup : (c.timers.map Prod.fst).Nodup
  checks : c.checks = c.inputFocusCheck.toList
  dead : c.alive = false → c.timers = []

theorem ids_after (hi : c.Sound) (h : c.after t = some c') :
    (∀ e ∈ c'.timers, e.1 < c'.nextTimer) ∧ (c'.timers.map Prod.fst).Nodup ∧
      (c'.alive = false → c'.timers = []) ∧ c'.inputFocusCheck = c.inputFocusCheck ∧
      c'.timers = c.timers ++ [(c.nextTimer, t)] := by
  unfold after at h
  split at h
  next halive =>
    obtain rfl := Option.some.inj h
    refine ⟨fun e he => ?_, ?_, fun hdead => ?_, rfl, rfl⟩
    · rcases List.mem_append.mp he with he | he
      · exact Nat.lt_succ_of_lt (hi.ids e he)
      · obtain rfl := List.mem_singleton.mp he
        exact Nat.lt_succ_self _
    · rw [List.map_append, List.map_singleton, List.nodup_append]
      refine ⟨hi.nodup, List.nodup_singleton _, fun i hi' j hj => ?_⟩
      obtain ⟨e, he, rfl⟩ := List.mem_map.mp hi'
      obtain rfl := List.mem_singleton.mp hj
      exact Nat.ne_of_lt (hi.ids e he)
    · rw [halive] at hdead
      cases hdead
  next => cases h

theorem Sound.after (hi : c.Sound) (h : c.after t = some c') (ht : t ≠ .check) : c'.Sound := by
  obtain ⟨hids, hnodup, hdead, hcheck, htimers⟩ := ids_after hi h
  refine ⟨hids, hnodup, ?_, hdead⟩
  rw [hcheck, ← hi.checks, Clock.checks, Clock.checks, htimers, List.filter_append]
  simp [ht]

theorem Sound.filter (hi : c.Sound) (p : Nat × Task → Bool) {f : Option Nat}
    (hf : ((c.timers.filter p).filter fun e => e.2 = .check).map Prod.fst = f.toList) :
    Sound { c with timers := c.timers.filter p, inputFocusCheck := f } where
  ids := fun e he => hi.ids e (List.mem_of_mem_filter he)
  nodup := hi.nodup.sublist (List.filter_sublist.map Prod.fst)
  checks := hf
  dead := fun hdead => by simp [hi.dead hdead]

/-- Without the timer that has this number. -/
theorem checks_filter (c : Clock) (timer : Nat) :
    ((c.timers.filter fun e => e.1 ≠ timer).filter fun e => e.2 = .check).map Prod.fst =
      c.checks.filter fun i => i ≠ timer := by
  rw [Clock.checks, List.filter_map, List.filter_filter, List.filter_filter]
  congr 2
  funext e
  exact Bool.and_comm _ _

theorem Sound.cancel (hi : c.Sound) :
    c.cancelInputFocusCheck.Sound ∧ c.cancelInputFocusCheck.inputFocusCheck = none := by
  unfold cancelInputFocusCheck
  split
  next hnone => exact ⟨hi, hnone⟩
  next timer htimer =>
    have hchecks : c.checks = [timer] := by rw [hi.checks, htimer]; rfl
    have halive : c.alive = true := by
      by_contra hdead
      rw [Clock.checks, hi.dead (Bool.not_eq_true _ ▸ hdead)] at hchecks
      cases hchecks
    rw [afterCancel, if_pos (show Clock.alive { c with inputFocusCheck := none } = true from halive)]
    refine ⟨hi.filter _ ?_, rfl⟩
    rw [checks_filter, hchecks]
    simp

theorem Sound.schedule (hi : c.Sound) : c.scheduleInputFocusCheck.Sound := by
  obtain ⟨hcancel, hnone⟩ := hi.cancel
  unfold scheduleInputFocusCheck
  split
  next after hafter =>
    obtain ⟨hids, hnodup, hdead, -, htimers⟩ := ids_after hcancel hafter
    refine ⟨hids, hnodup, ?_, hdead⟩
    have hchecks := hcancel.checks
    rw [hnone, Clock.checks] at hchecks
    rw [Clock.checks, htimers, List.filter_append, List.map_append, hchecks]
    simp
  next =>
    refine ⟨hcancel.ids, hcancel.nodup, ?_, hcancel.dead⟩
    rw [← hnone]
    exact hcancel.checks

end Clock

/-! ### Steps -/

/-- What a task other than the check itself does to the clock. -/
inductive Ticks (c : Clock) : Clock → Prop
  | still : Ticks c c
  | cancelled : Ticks c c.cancelInputFocusCheck
  | scheduled : Ticks c c.scheduleInputFocusCheck
  | set {c' : Clock} {t : Task} (h : c.after t = some c') (ht : t ≠ .check) : Ticks c c'
  | gone : Ticks c { c with alive := false, timers := [] }

theorem ticks_perform (cfg : Config) (ht : t ≠ .check) : Ticks s.toClock (perform cfg s t).toClock := by
  cases t with
  | shown | touched => exact .cancelled
  | focusOut => exact .scheduled
  | destroyed | inputPointerPress | pollMessages =>
    simp only [perform]
    split <;> exact .still
  | requestInputMethodHide =>
    simp only [perform, requestInputMethodHide]
    split <;> exact .cancelled
  | hideMode =>
    simp only [perform, hideMode]
    split <;> exact .still
  | check => exact absurd rfl ht
  | reconcileInputMethodFocus =>
    simp only [perform, reconcileInputMethodFocus]
    split
    · exact .still
    · split
      · exact .still
      · split
        · exact .still
        · split <;> exact .still
  | drain =>
    simp only [perform, drain]
    split
    · split
      next clock hclock => exact .set hclock (by simp)
      next => exact .still
    · split_ifs
      · unfold lifecycle
        split
        · exact .still
        · exact .still
        · split_ifs <;> exact .still
      · exact .still
  | close =>
    simp only [perform]
    split
    · exact .still
    · exact .cancelled
  | closeLock | closeCall | closeReturn => exact .still
  | closeEnd => exact .gone

theorem free_perform (hfree : .check ∉ s.agenda) (ht : t ≠ .check) :
    .check ∉ (perform cfg s t).agenda := by
  have hpush (ts : List Task) (hts : .check ∉ ts) : .check ∉ ts ++ s.agenda := by
    simp [hts, hfree]
  cases t with
  | shown | touched | focusOut | closeEnd => exact hfree
  | destroyed =>
    simp only [perform]
    split <;> exact hfree
  | inputPointerPress | pollMessages | close =>
    simp only [perform]
    split <;> first | exact hfree | exact hpush [_] (by simp)
  | requestInputMethodHide =>
    simp only [perform, requestInputMethodHide]
    split <;> first | exact hfree | exact hpush [_] (by simp)
  | hideMode =>
    simp only [perform, hideMode]
    split <;> first | exact hfree | exact List.not_mem_nil
  | check => exact absurd rfl ht
  | reconcileInputMethodFocus =>
    simp only [perform, reconcileInputMethodFocus]
    split
    · exact hfree
    · split
      · exact hfree
      · split
        · exact hfree
        · split <;> first | exact hfree | exact hpush [_] (by simp)
  | drain =>
    simp only [perform, drain]
    split
    · split
      · exact hfree
      · exact List.not_mem_nil
    · split_ifs
      · unfold lifecycle
        split
        · exact List.not_mem_nil
        · exact hpush [_] (by simp)
        · split_ifs <;> first | exact List.not_mem_nil | exact hpush [_] (by simp)
      · refine hpush _ fun hmem => ?_
        rcases List.mem_append.mp hmem with hmem | hmem
        · obtain ⟨call, -, hcall⟩ := List.mem_map.mp hmem
          cases call <;> cases hcall
        · simp at hmem
  | closeLock =>
    refine hpush [_] ?_
    split_ifs <;> simp
  | closeCall | closeReturn => exact hpush [_] (by simp)

theorem Ticks.sound (h : Ticks c c') (hi : c.Sound) (hdead : c'.alive = false →
    c.inputFocusCheck = none) : c'.Sound := by
  cases h with
  | still => exact hi
  | cancelled => exact hi.cancel.1
  | scheduled => exact hi.schedule
  | set h ht => exact hi.after h ht
  | gone =>
    refine ⟨fun e he => (nomatch he), List.nodup_nil, ?_, fun _ => rfl⟩
    rw [hdead rfl]
    rfl

/-- Tk that is gone takes no new check. -/
theorem Ticks.quiet (h : Ticks c c') (hnone : c.inputFocusCheck = none)
    (hdead : c.alive = false) : c'.inputFocusCheck = none := by
  have hcancel : c.cancelInputFocusCheck = c := by
    unfold Clock.cancelInputFocusCheck
    rw [hnone]
  cases h with
  | still | gone => exact hnone
  | cancelled => rw [hcancel, hnone]
  | scheduled =>
    unfold Clock.scheduleInputFocusCheck Clock.after
    rw [hcancel, hdead]
    rfl
  | set h ht =>
    unfold Clock.after at h
    rw [hdead] at h
    cases h

/-- While the check is what the Tk thread does, the application still has its number. -/
structure Checking (s : State) : Prop where
  clock : s.agenda ≠ [.check] → s.toClock.Sound
  firing : s.agenda = [.check] → Clock.Sound { s.toClock with inputFocusCheck := none }
  free : s.agenda ≠ [.check] → .check ∉ s.agenda
  closed : s.closed = true → s.inputFocusCheck = none

theorem checking_init : Checking init := by
  refine ⟨fun _ => ⟨?_, List.nodup_singleton _, rfl, nofun⟩, nofun, fun _ => List.not_mem_nil, nofun⟩
  rintro e he
  obtain rfl := List.mem_singleton.mp he
  exact Nat.zero_lt_one

/-- Tk goes only after the application has closed. -/
theorem Checking.of_dead (hi : Checking s) (hc : Closing s) (hdead : s.alive = false) :
    s.inputFocusCheck = none := by
  refine hi.closed ?_
  by_contra hopen
  rw [hc.alive (Bool.not_eq_true _ ▸ hopen)] at hdead
  cases hdead

theorem Checking.ticks (hi : Checking s) (hnot : s.agenda ≠ [.check])
    (h : Ticks s.toClock s'.toClock) (hdead : s'.alive = false → s.inputFocusCheck = none)
    (hfree : .check ∉ s'.agenda) (hclosed : s'.closed = true → s'.inputFocusCheck = none) :
    Checking s' := by
  refine ⟨fun _ => h.sound (hi.clock hnot) hdead, fun hcheck => ?_, fun _ => hfree, hclosed⟩
  rw [hcheck] at hfree
  simp at hfree

theorem Checking.still (hi : Checking s) (hc : Closing s) (hidle : s.agenda = [])
    (clock : s'.toClock = s.toClock) (closed : s'.closed = s.closed)
    (hfree : .check ∉ s'.agenda) : Checking s' := by
  refine hi.ticks (by simp [hidle]) (clock ▸ .still) (fun hdead => ?_) hfree fun h => ?_
  · exact hi.of_dead hc (by rwa [clock] at hdead)
  · rw [clock]
    exact hi.closed (closed ▸ h)

theorem Checking.performCheck (hi : Checking s) (hagenda : s.agenda = [.check]) :
    Checking (perform cfg { s with agenda := [] } .check) := by
  have hsound := hi.firing hagenda
  refine ⟨fun _ => hsound, nofun, fun _ => ?_, fun _ => rfl⟩
  simp [perform, State.push]

theorem Checking.perform {rest : List Task} (hi : Checking s) (hc : Closing s)
    (hagenda : s.agenda = t :: rest) (ht : t ≠ .check) :
    Checking (perform cfg { s with agenda := rest } t) := by
  have hnot : s.agenda ≠ [.check] := by
    rw [hagenda]
    rintro heq
    exact ht (List.cons.inj heq).1
  have hfree : .check ∉ rest := fun hmem => hi.free hnot (hagenda ▸ List.mem_cons_of_mem t hmem)
  have hticks := ticks_perform cfg (s := { s with agenda := rest }) ht
  by_cases hopen : s.closed = false
  · have halive := hc.alive hopen
    have hplain := hc.away (.inl hopen) t (hagenda ▸ List.mem_cons_self)
    by_cases hclose : t = .close
    · subst hclose
      refine hi.ticks hnot hticks (fun hdead => ?_)
        (free_perform (s := { s with agenda := rest }) hfree ht) fun _ => ?_
      · simp only [TouchApp.perform, hopen, Bool.false_eq_true, if_false] at hdead
        have hdead' := (alive_cancel s.toClock).symm.trans hdead
        rw [halive] at hdead'
        cases hdead'
      · simp only [TouchApp.perform, hopen, Bool.false_eq_true, if_false]
        exact (hi.clock hnot).cancel.2
    · have h := plain_perform cfg (s := { s with agenda := rest }) hplain
        fun h => absurd h hclose
      refine hi.ticks hnot hticks (fun hdead => ?_)
        (free_perform (s := { s with agenda := rest }) hfree ht) fun hclosed => ?_
      · rw [h.alive] at hdead
        exact absurd (halive.symm.trans hdead) (by simp)
      · rw [h.closed] at hclosed
        exact absurd (hopen.symm.trans hclosed) (by simp)
  · have hclosed : s.closed = true := by simpa using hopen
    have hnone := hi.closed hclosed
    refine hi.ticks hnot hticks (fun _ => hnone)
      (free_perform (s := { s with agenda := rest }) hfree ht) fun _ => ?_
    by_cases halive : s.alive = false
    · exact hticks.quiet hnone halive
    · obtain ⟨u, rest', hagenda', hu, -⟩ := hc.here hclosed (by simpa using halive)
      rw [hagenda] at hagenda'
      obtain ⟨rfl, rfl⟩ := List.cons.inj hagenda'
      cases t with
      | closeLock | closeCall | closeReturn | closeEnd => exact hnone
      | _ => cases hu

theorem Checking.activate (hi : Checking s) (hc : Closing s) (hidle : s.agenda = [])
    (welcomed : Bool) : Checking (activateLifecycle cfg s welcomed) := by
  have hfree : .check ∉ s.agenda := by simp [hidle]
  unfold activateLifecycle
  split
  next => exact hi.still hc hidle rfl rfl hfree
  next => exact hi
  next =>
    split
    next => exact hi.still hc hidle rfl rfl List.not_mem_nil
    next =>
      dsimp only
      split
      next =>
        split
        next clock hclock =>
          refine hi.ticks (by simp [hidle]) (.set hclock (by simp)) (fun hdead => ?_) hfree
            fun hclosed => ?_
          · exact hi.of_dead hc ((alive_after hclock).symm.trans hdead)
          · exact (Clock.ids_after (hi.clock (by simp [hidle])) hclock).2.2.2.1.trans
              (hi.closed hclosed)
        next => exact hi.still hc hidle rfl rfl List.not_mem_nil
      next => exact hi.still hc hidle rfl rfl hfree

theorem Checking.fire (hi : Checking s) (hidle : s.agenda = []) {timer : Nat} {e : Nat × Task}
    (he : s.timers.find? (fun e => e.1 = timer) = some e) :
    Checking (State.push { s with timers := s.timers.filter fun e => e.1 ≠ timer } [e.2]) := by
  have hsound := hi.clock (by simp [hidle])
  have htimer : e.1 = timer := by simpa using List.find?_some he
  have hmem := List.mem_of_find?_eq_some he
  by_cases ht : e.2 = .check
  · refine ⟨fun hnot => ?_, fun _ => ?_, fun hnot => ?_, hi.closed⟩
    · simp [State.push, hidle, ht] at hnot
    · refine hsound.filter _ ?_
      have hin : timer ∈ s.inputFocusCheck.toList := by
        rw [← hsound.checks, ← htimer]
        exact List.mem_map_of_mem (List.mem_filter.mpr ⟨hmem, by simpa using ht⟩)
      rw [Clock.checks_filter, hsound.checks, Option.mem_toList.mp hin]
      simp
    · simp [State.push, hidle, ht] at hnot
  · refine ⟨fun _ => ?_, fun hfiring => ?_, fun _ => ?_, hi.closed⟩
    · refine hsound.filter _ ?_
      rw [Clock.checks_filter, ← hsound.checks, List.filter_eq_self]
      intro i hin
      obtain ⟨e', he', rfl⟩ := List.mem_map.mp hin
      obtain ⟨hmem', hcheck⟩ := List.mem_filter.mp he'
      have hne : e'.1 ≠ timer := by
        rintro heq
        have hsame := List.inj_on_of_nodup_map hsound.nodup hmem' hmem (heq.trans htimer.symm)
        rw [hsame] at hcheck
        exact ht (by simpa using hcheck)
      simpa using hne
    · simp [State.push, hidle] at hfiring
      exact absurd hfiring ht
    · simp [State.push, hidle, Ne.symm ht]

theorem Checking.step (hi : Checking s) (hc : Closing s) (h : step cfg s a = some s') :
    Checking s' := by
  cases a with
  | event e =>
    simp only [TouchApp.step] at h
    split at h
    next hidle =>
      obtain rfl := Option.some.inj h
      refine hi.still hc hidle.1 rfl rfl ?_
      cases e <;> simp [State.push, hidle.1, Event.task]
    next => cases h
  | call c =>
    simp only [TouchApp.step] at h
    split at h
    next hidle =>
      obtain rfl := Option.some.inj h
      refine hi.still hc hidle rfl rfl ?_
      cases c <;> simp [State.push, hidle, AppCall.task]
    next => cases h
  | attachInputMethod w mode =>
    simp only [TouchApp.step] at h
    split at h
    next hidle =>
      obtain rfl := Option.some.inj h
      unfold attachInputMethod
      dsimp only
      split
      next =>
        split
        next => exact hi.still hc hidle rfl rfl (by simp [hidle])
        next => exact hi.still hc hidle rfl rfl List.not_mem_nil
      next => exact hi.still hc hidle rfl rfl List.not_mem_nil
    next => cases h
  | activateLifecycle welcomed =>
    simp only [TouchApp.step] at h
    split at h
    next hidle =>
      obtain rfl := Option.some.inj h
      exact hi.activate hc hidle welcomed
    next => cases h
  | fire timer =>
    simp only [TouchApp.step] at h
    split at h
    next hidle he =>
      obtain rfl := Option.some.inj h
      exact hi.fire hidle he
    next => cases h
  | perform =>
    simp only [TouchApp.step] at h
    split at h
    next => cases h
    next t rest hagenda =>
      obtain rfl := Option.some.inj h
      by_cases ht : t = .check
      · subst ht
        have hrest : rest = [] := by
          by_contra hne
          have hnot : s.agenda ≠ [.check] := by
            rw [hagenda]
            exact fun heq => hne (List.cons.inj heq).2
          exact hi.free hnot (hagenda ▸ List.mem_cons_self)
        subst hrest
        exact hi.performCheck hagenda
      · exact hi.perform hc hagenda ht
  | moveFocus | post =>
    obtain rfl := Option.some.inj h
    exact ⟨hi.clock, hi.firing, hi.free, hi.closed⟩
  | worker w a =>
    obtain ⟨ime, -, rfl⟩ := Option.map_eq_some_iff.mp h
    exact ⟨hi.clock, hi.firing, hi.free, hi.closed⟩

theorem reach_checking {ok : State → Action → Prop} (h : Reach (step cfg) ok init s) :
    Checking s :=
  h.invariant_of (P := Checking) (fun _ => reach_closing) checking_init
    fun _ _ _ hc hi _ hs => hi.step hc hs

end Msys.TouchApp
