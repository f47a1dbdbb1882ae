import MsysSdk.TouchApp.Requests
import MsysSdk.Coalescing.Crew
import MsysSdk.Runs.Simulation

/-! The input method of the application refines a slot with one worker: whatever thread it is that
works, the application goes through the states of such a slot. -/

namespace Msys.TouchApp
open Python Transition
open InputMethod (Request)
open Coalescing (Phase Sole)

variable {cfg : Config} {s s' : State} {x x' : Ime} {closed : Bool} {channel : Channel}
  {t : Coalescing.State Request}

def WorkerPc.phase : WorkerPc → Option (Phase Request)
  | .absent | .ended => none
  | .loop | .dropping => some .loop
  | .taken r => some (.taken r)
  | .calling r => some (.serving r)
  | .failed r => some (.failed r)

structure Simulates (x : Ime) (closed : Bool) (channel : Channel)
    (t : Coalescing.State Request) : Prop where
  pending : t.pending = x.pending
  wanted : t.wanted = x.desired
  shut : t.shut = closed
  asked : t.asked = x.asked
  begun : t.begun = x.called
  ended : t.ended = x.finished
  flag : x.workerRunning = t.worker.isSome
  sole : Sole (fun k => (x.worker k).phase) t.worker
  fresh : ∀ k, x.spawned ≤ k → x.worker k = .absent
  drops : ∀ k, x.worker k ≠ .dropping
  there : t.worker.isSome = true → channel ≠ .absent

theorem simulates_init : Simulates init.toIme false .absent Coalescing.init where
  pending := rfl
  wanted := rfl
  shut := rfl
  asked := rfl
  begun := rfl
  ended := rfl
  flag := rfl
  sole := fun _ => rfl
  fresh := fun _ _ => rfl
  drops := fun _ h => nomatch h
  there := nofun

/-- One thread goes on to `pc` and the slot's worker with it. -/
theorem Simulates.thread (h : Simulates x closed channel t) {w : Nat} (pc : WorkerPc)
    (hw : (x.worker w).phase.isSome = true) (hpc : pc ≠ .dropping)
    (hthread : x'.worker = Function.update x.worker w pc) (hspawned : x'.spawned = x.spawned)
    {t' : Coalescing.State Request} (hworker : t'.worker = pc.phase)
    (hflag : x'.workerRunning = pc.phase.isSome) (hpending : t'.pending = x'.pending)
    (hwanted : t'.wanted = x'.desired) (hshut : t'.shut = t.shut) (hasked : t'.asked = x'.asked)
    (hbegun : t'.begun = x'.called) (hended : t'.ended = x'.finished) :
    Simulates x' closed channel t' := by
  refine ⟨hpending, hwanted, hshut.trans h.shut, hasked, hbegun, hended, ?_, ?_, fun k hk => ?_,
    fun k => ?_, fun _ => ?_⟩
  · rw [hflag, hworker]
  · have hothers : ∀ j, j ≠ w → (x'.worker j).phase = (x.worker j).phase := fun j hj => by
      rw [hthread, Function.update_of_ne hj]
    have hmoved := h.sole.move hw hothers
    rwa [hthread, Function.update_self, ← hworker, ← hthread] at hmoved
  · have habsent := h.fresh k (hspawned ▸ hk)
    have hne : k ≠ w := by
      rintro rfl
      rw [habsent] at hw
      cases hw
    rw [hthread, Function.update_of_ne hne, habsent]
  · rw [hthread]
    rcases eq_or_ne k w with rfl | hne
    · rwa [Function.update_self]
    · rw [Function.update_of_ne hne]
      exact h.drops k
  · exact h.there (by rwa [h.sole.eq hw])

theorem Simulates.phase (h : Simulates x closed channel t) {w : Nat} {p : Phase Request}
    (hw : (x.worker w).phase = some p) : t.worker = some p :=
  (h.sole.eq (k := w) (by rw [hw]; rfl)).trans hw

theorem Simulates.running (h : Simulates x closed channel t) {p : Phase Request}
    (ht : t.worker = some p) : x.workerRunning = true := by
  rw [h.flag, ht]
  rfl

theorem Simulates.take (h : Simulates x closed channel t) {w : Nat}
    (hs : x.workerTake closed w = some x') :
    ∃ t', Coalescing.take t = some t' ∧ Simulates x' closed channel t' := by
  unfold Ime.workerTake at hs
  split at hs
  next hw =>
    have hphase : (x.worker w).phase = some .loop := congrArg WorkerPc.phase hw
    have ht := h.phase hphase
    have hrunning := h.running ht
    have hworks : (x.worker w).phase.isSome = true := by rw [hphase]; rfl
    unfold Coalescing.take
    rw [ht, h.pending, h.shut]
    cases hp : x.pending with
    | none =>
      rw [hp] at hs
      obtain rfl := Option.some.inj hs
      refine ⟨_, rfl, ?_⟩
      refine h.thread .ended hworks (by simp) ?_ ?_ ?_ ?_ ?_ ?_ ?_ ?_ ?_ ?_
      exacts [rfl, rfl, rfl, rfl, rfl, h.wanted, h.shut.symm, h.asked, h.begun, h.ended]
    | some r =>
      rw [hp] at hs
      cases closed with
      | false =>
        obtain rfl := Option.some.inj hs
        refine ⟨_, rfl, ?_⟩
        refine h.thread (.taken r) hworks (by simp) ?_ ?_ ?_ ?_ ?_ ?_ ?_ ?_ ?_ ?_
        exacts [rfl, rfl, rfl, hrunning, rfl, h.wanted, h.shut.symm, h.asked, h.begun, h.ended]
      | true =>
        obtain rfl := Option.some.inj hs
        refine ⟨_, rfl, ?_⟩
        refine h.thread .ended hworks (by simp) ?_ ?_ ?_ ?_ ?_ ?_ ?_ ?_ ?_ ?_
        exacts [rfl, rfl, rfl, rfl, rfl, h.wanted, h.shut.symm, h.asked, h.begun, h.ended]
  next => cases hs

theorem Simulates.call (h : Simulates x closed channel t) {w : Nat}
    (hs : x.workerCall channel w = some x') :
    ∃ bs t', run Coalescing.step t bs = some t' ∧ Simulates x' closed channel t' := by
  unfold Ime.workerCall at hs
  split at hs
  next r hw =>
    have hphase : (x.worker w).phase = some (.taken r) := congrArg WorkerPc.phase hw
    have hworks : (x.worker w).phase.isSome = true := by rw [hphase]; rfl
    have ht := h.phase hphase
    have hrunning := h.running ht
    split at hs
    next => exact absurd rfl (h.there (by rw [ht]; rfl))
    next =>
      obtain rfl := Option.some.inj hs
      refine ⟨[.begin], { t with worker := some (.serving r), begun := t.begun ++ [r] }, ?_, ?_⟩
      · simp [run, Coalescing.step, Coalescing.begin, ht]
      · refine h.thread (.calling r) hworks (by simp) ?_ ?_ ?_ ?_ ?_ ?_ ?_ ?_ ?_ ?_
        exacts [rfl, rfl, rfl, hrunning, h.pending, h.wanted, rfl, h.asked,
          congrArg (· ++ [r]) h.begun, h.ended]
    all_goals
      obtain rfl := Option.some.inj hs
      refine ⟨[.begin, .finish false], { t with
          worker := some (.failed r)
          begun := t.begun ++ [r]
          ended := t.ended ++ [(r, false)] }, ?_, ?_⟩
      · simp [run, Coalescing.step, Coalescing.begin, Coalescing.finish, ht]
      · refine h.thread (.failed r) hworks (by simp) ?_ ?_ ?_ ?_ ?_ ?_ ?_ ?_ ?_ ?_
        exacts [rfl, rfl, rfl, hrunning, h.pending, h.wanted, rfl, h.asked,
          congrArg (· ++ [r]) h.begun, congrArg (· ++ [(r, false)]) h.ended]
  next => cases hs

theorem Simulates.returned (h : Simulates x closed channel t) {w : Nat} {ok : Bool}
    (hs : x.workerReturn w ok = some x') :
    ∃ t', Coalescing.finish t ok = some t' ∧ Simulates x' closed channel t' := by
  unfold Ime.workerReturn at hs
  split at hs
  next r hw =>
    have hphase : (x.worker w).phase = some (.serving r) := congrArg WorkerPc.phase hw
    have hworks : (x.worker w).phase.isSome = true := by rw [hphase]; rfl
    have ht := h.phase hphase
    have hrunning := h.running ht
    obtain rfl := Option.some.inj hs
    refine ⟨{ t with
      worker := some (if ok then .loop else .failed r)
      ended := t.ended ++ [(r, ok)] }, by simp [Coalescing.finish, ht], ?_⟩
    have hended := congrArg (· ++ [(r, ok)]) h.ended
    cases ok with
    | false =>
      refine h.thread (.failed r) hworks (by simp) ?_ ?_ ?_ ?_ ?_ ?_ ?_ ?_ ?_ ?_
      exacts [rfl, rfl, rfl, hrunning, h.pending, h.wanted, rfl, h.asked, h.begun, hended]
    | true =>
      refine h.thread .loop hworks (by simp) ?_ ?_ ?_ ?_ ?_ ?_ ?_ ?_ ?_ ?_
      exacts [rfl, rfl, rfl, hrunning, h.pending, h.wanted, rfl, h.asked, h.begun, hended]
  next => cases hs

theorem Simulates.note (h : Simulates x closed channel t) {w : Nat}
    (hs : x.workerNote w = some x') :
    ∃ t', Coalescing.note t = some t' ∧ Simulates x' closed channel t' := by
  unfold Ime.workerNote at hs
  split at hs
  next r hw =>
    have hphase : (x.worker w).phase = some (.failed r) := congrArg WorkerPc.phase hw
    have hworks : (x.worker w).phase.isSome = true := by rw [hphase]; rfl
    have ht := h.phase hphase
    obtain rfl := Option.some.inj hs
    refine ⟨{ t with
      worker := some .loop
      wanted := if t.wanted = some r ∧ t.pending = none then none else t.wanted },
      by simp [Coalescing.note, ht], ?_⟩
    refine h.thread .loop hworks (by simp) ?_ ?_ ?_ ?_ ?_ ?_ ?_ ?_ ?_ ?_
    exacts [rfl, rfl, rfl, h.running ht, h.pending, by rw [h.wanted, h.pending], rfl, h.asked,
      h.begun, h.ended]
  next => cases hs

theorem Simulates.work (h : Simulates x closed channel t) {w : Nat} {a : Ime.WorkerAction}
    (hs : x.workerStep closed channel w a = some x') :
    ∃ bs t', run Coalescing.step t bs = some t' ∧ Simulates x' closed channel t' := by
  cases a with
  | take =>
    obtain ⟨t', ht, h'⟩ := h.take hs
    exact ⟨[.take], t', by simp [run, Coalescing.step, ht], h'⟩
  | call => exact h.call hs
  | drop =>
    simp only [Ime.workerStep, Ime.workerDrop] at hs
    split at hs
    next hw => exact absurd hw (h.drops w)
    next => cases hs
  | returned ok =>
    obtain ⟨t', ht, h'⟩ := h.returned hs
    exact ⟨[.finish ok], t', by simp [run, Coalescing.step, ht], h'⟩
  | note =>
    obtain ⟨t', ht, h'⟩ := h.note hs
    exact ⟨[.note], t', by simp [run, Coalescing.step, ht], h'⟩

theorem Simulates.queue (h : Simulates x closed channel t) (r : Request) (force : Bool)
    (there : channel ≠ .absent) :
    Simulates (x.queue r force) closed channel (Coalescing.ask t r force) := by
  have hsuppressed : Coalescing.Suppressed t r force ↔ x.desired = some r ∧
      (force = false ∨ x.pending ≠ none ∨ x.workerRunning = true) := by
    rw [Coalescing.Suppressed, h.wanted, h.pending, h.flag]
  have hasked : t.asked ++ [r] = x.asked ++ [r] := congrArg (· ++ [r]) h.asked
  unfold Ime.queue Coalescing.ask
  split
  next hs =>
    rw [if_pos (hsuppressed.mpr hs)]
    exact { h with asked := hasked }
  next hs =>
    rw [if_neg (mt hsuppressed.mp hs)]
    split
    next hrunning =>
      have hworks : t.worker.isSome = true := h.flag ▸ hrunning
      obtain ⟨p, hp⟩ := Option.isSome_iff_exists.mp hworks
      rw [hp, Option.getD_some, ← hp]
      exact { h with pending := rfl, wanted := rfl, asked := hasked }
    next hrunning =>
      have hnone : t.worker = none := by
        rw [h.flag, Bool.not_eq_true] at hrunning
        exact Option.not_isSome_iff_eq_none.mp (by rw [hrunning]; exact Bool.false_ne_true)
      have hstarted : Sole (fun k =>
          (Function.update x.worker x.spawned .loop k).phase) (some .loop) := by
        have hsole := h.sole
        rw [hnone] at hsole
        have hothers : ∀ j, j ≠ x.spawned →
            (Function.update x.worker x.spawned .loop j).phase = (x.worker j).phase :=
          fun j hj => by rw [Function.update_of_ne hj]
        have hloop := hsole.start hothers
        rwa [Function.update_self] at hloop
      rw [hnone]
      refine ⟨rfl, rfl, h.shut, hasked, h.begun, h.ended, rfl, hstarted, fun k hk => ?_,
        fun k => ?_, fun _ => there⟩
      · have hne : k ≠ x.spawned := fun he => by
          rw [he] at hk
          exact absurd hk (Nat.not_succ_le_self _)
        exact (Function.update_of_ne hne ..).trans (h.fresh k (Nat.le_of_succ_le hk))
      · rcases eq_or_ne k x.spawned with rfl | hne
        · exact ne_of_eq_of_ne (Function.update_self ..) (by simp)
        · exact ne_of_eq_of_ne (Function.update_of_ne hne ..) (h.drops k)

/-- Each step is no step, one step or two of the slot. -/
theorem Moved.simulates (h : Moved cfg s a s') (hi : Simulates s.toIme s.closed s.channel t) :
    ∃ bs t', run Coalescing.step t bs = some t' ∧ Simulates s'.toIme s'.closed s'.channel t' := by
  cases h with
  | still ime closed channel =>
    rw [ime, closed, channel]
    exact ⟨[], t, rfl, hi⟩
  | connected welcomed _ ime closed channel =>
    rw [ime, closed, channel]
    exact ⟨[], t, rfl, { hi with there := fun _ => by cases welcomed <;> simp }⟩
  | queued r force _ there ime closed channel =>
    rw [ime, closed, channel]
    exact ⟨[.ask r force], _, rfl, hi.queue r force there⟩
  | worker w a ime closed channel =>
    rw [closed, channel]
    exact hi.work ime
  | closing ime _ closed channel =>
    rw [ime, closed, channel]
    exact ⟨[.shut], _, rfl, { hi with shut := rfl }⟩
  | settled r late ime closed channel =>
    rw [ime, closed, channel]
    refine ⟨[.settle r], { t with pending := none, wanted := some r }, ?_,
      { hi with pending := rfl, wanted := rfl }⟩
    simp [run, Coalescing.step, Coalescing.settle, hi.shut, late]
  | hidden _ _ _ ime closed channel =>
    rw [ime, closed, channel]
    exact ⟨[], t, rfl, { hi with }⟩
  | shut _ ime closed _ channel =>
    rw [ime, closed, channel]
    exact ⟨[], t, rfl, { hi with there := fun _ => by simp }⟩

theorem reach_simulates {ok : State → Action → Prop} (h : Reach (step cfg) ok init s) :
    ∃ t, Reach Coalescing.step Any Coalescing.init t ∧
      Simulates s.toIme s.closed s.channel t :=
  h.simulate (R := fun s t => Simulates s.toIme s.closed s.channel t) simulates_init
    fun _ _ _ _ hr hi _ hs => (step_moved (reach_closing hr) (reach_found hr) hs).simulates hi

end Msys.TouchApp
