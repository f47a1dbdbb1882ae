import MsysSdk.InputMethod.Steps

/-! One worker at a time, and the flag is up exactly while there is one. -/

namespace Msys.InputMethod
open Python Transition

def WorkerPc.alive : WorkerPc → Bool
  | .absent | .ended => false
  | _ => true

/-- A worker that runs, or that its request is about to start. -/
def Live (requester : Nat → RequestPc) (worker : Nat → WorkerPc) (k : Nat) : Prop :=
  requester k = .starting ∨ (worker k).alive = true

/-! ### The flag -/

structure Sole (running : Bool) (requester : Nat → RequestPc) (worker : Nat → WorkerPc) :
    Prop where
  live : running = true → ∃ k, Live requester worker k
  flag : ∀ k, Live requester worker k → running = true
  unique : ∀ k l, Live requester worker k → Live requester worker l → k = l
  fresh : ∀ k, requester k ≠ .returned → worker k = .absent

section
variable {running : Bool} {requester : Nat → RequestPc} {worker : Nat → WorkerPc} {k w : Nat}

theorem Sole.congr {requester' : Nat → RequestPc} {worker' : Nat → WorkerPc}
    (h : Sole running requester worker)
    (hlive : ∀ k, Live requester' worker' k ↔ Live requester worker k)
    (hfresh : ∀ k, requester' k ≠ .returned → worker' k = .absent) :
    Sole running requester' worker' where
  live hr := (h.live hr).imp fun k hk => (hlive k).mpr hk
  flag k hk := h.flag k ((hlive k).mp hk)
  unique k l hk hl := h.unique k l ((hlive k).mp hk) ((hlive l).mp hl)
  fresh := hfresh

/-- A request that neither is nor becomes about to start a worker. -/
theorem Sole.requester_update {pc : RequestPc} (h : Sole running requester worker)
    (hold : requester k ≠ .starting) (hreturned : requester k ≠ .returned)
    (hpc : pc ≠ .starting) : Sole running (Function.update requester k pc) worker := by
  refine h.congr (fun l => ?_) fun l hl => ?_
  · unfold Live
    rcases eq_or_ne l k with rfl | hne
    · rw [Function.update_self]
      simp [hold, hpc]
    · rw [Function.update_of_ne hne]
  · rcases eq_or_ne l k with rfl | hne
    · exact h.fresh l hreturned
    · exact h.fresh l (by rwa [Function.update_of_ne hne] at hl)

theorem Sole.returned (h : Sole running requester worker) (hw : (worker w).alive = true) :
    requester w = .returned := by
  by_contra hne
  rw [h.fresh w hne] at hw
  cases hw

theorem Sole.worker_update {pc : WorkerPc} (h : Sole running requester worker)
    (hold : (worker w).alive = true) (hpc : pc.alive = true) :
    Sole running requester (Function.update worker w pc) := by
  have hreturned := h.returned hold
  refine h.congr (fun l => ?_) fun l hl => ?_
  · unfold Live
    rcases eq_or_ne l w with rfl | hne
    · rw [Function.update_self, hold, hpc]
    · rw [Function.update_of_ne hne]
  · have hne : l ≠ w := by
      rintro rfl
      exact hl hreturned
    rw [Function.update_of_ne hne]
    exact h.fresh l hl

/-- The flag is down, so nothing is live but the new worker. -/
theorem Sole.start (h : Sole false requester worker) (hreturned : requester k ≠ .returned) :
    Sole true (Function.update requester k .starting) worker := by
  have hnone : ∀ l, ¬Live requester worker l := fun l hl => Bool.false_ne_true (h.flag l hl)
  have hself : ∀ l, Live (Function.update requester k .starting) worker l → l = k := by
    intro l hl
    by_contra hne
    unfold Live at hl
    rw [Function.update_of_ne hne] at hl
    exact hnone l hl
  refine ⟨fun _ => ⟨k, .inl (Function.update_self ..)⟩, fun _ _ => rfl, fun l m hl hm => ?_,
    fun l hl => ?_⟩
  · rw [hself l hl, hself m hm]
  · rcases eq_or_ne l k with rfl | hne
    · exact h.fresh l hreturned
    · exact h.fresh l (by rwa [Function.update_of_ne hne] at hl)

theorem Sole.spawn (h : Sole running requester worker) (pc : requester k = .starting) :
    Sole running (Function.update requester k .returned) (Function.update worker k .loop) := by
  refine h.congr (fun l => ?_) fun l hl => ?_
  · unfold Live
    rcases eq_or_ne l k with rfl | hne
    · rw [Function.update_self, Function.update_self]
      simp [pc, WorkerPc.alive]
    · rw [Function.update_of_ne hne, Function.update_of_ne hne]
  · have hne : l ≠ k := by
      rintro rfl
      exact hl (Function.update_self ..)
    rw [Function.update_of_ne hne] at hl ⊢
    exact h.fresh l hl

theorem Sole.exit (h : Sole running requester worker) (hw : (worker w).alive = true) :
    Sole false requester (Function.update worker w .ended) := by
  have hreturned := h.returned hw
  have hnone : ∀ l, ¬Live requester (Function.update worker w .ended) l := by
    intro l hl
    unfold Live at hl
    rcases eq_or_ne l w with rfl | hne
    · rw [Function.update_self, hreturned] at hl
      simp [WorkerPc.alive] at hl
    · rw [Function.update_of_ne hne] at hl
      exact hne (h.unique l w hl (.inr hw))
  refine ⟨by simp, fun l hl => absurd hl (hnone l), fun l _ hl => absurd hl (hnone l),
    fun l hl => ?_⟩
  have hne : l ≠ w := by
    rintro rfl
    exact hl hreturned
  rw [Function.update_of_ne hne]
  exact h.fresh l hl

/-- While one worker runs, whatever is seen of a running worker is seen of this one. -/
theorem Sole.only {pc q : WorkerPc} {v : Nat} (h : Sole running requester worker)
    (hw : (worker w).alive = true) (hq : q.alive = true)
    (hv : Function.update worker w pc v = q) : v = w ∧ pc = q := by
  rcases eq_or_ne v w with rfl | hne
  · exact ⟨rfl, by rwa [Function.update_self] at hv⟩
  · rw [Function.update_of_ne hne] at hv
    exact absurd (h.unique v w (.inr (by rw [hv, hq])) (.inr hw)) hne

end

theorem sole_step {cfg : Config} {s s' : State} {a : Action} (h : Step cfg s a s')
    (hi : Sole s.workerRunning s.requester s.worker) :
    Sole s'.workerRunning s'.requester s'.worker := by
  cases h with
  | queueTest pc =>
    exact hi.requester_update (by simp [pc]) (by simp [pc]) (by split_ifs <;> simp)
  | joined pc hr running =>
    rw [running] at hi
    exact hi.requester_update (by simp [pc]) (by simp [pc]) (by simp)
  | started pc hr running =>
    rw [running] at hi
    exact hi.start (by simp [pc])
  | spawn pc => exact hi.spawn pc
  | exit pc => exact hi.exit (by rw [pc]; rfl)
  | take pc => exact hi.worker_update (by rw [pc]; rfl) rfl
  | call pc => exact hi.worker_update (by rw [pc]; rfl) rfl
  | succeeded pc => exact hi.worker_update (by rw [pc]; rfl) rfl
  | failed pc => exact hi.worker_update (by rw [pc]; rfl) rfl
  | noted pc => exact hi.worker_update (by rw [pc]; rfl) rfl
  | reset pc => exact hi.worker_update (by rw [pc]; rfl) rfl
  | kept pc => exact hi.worker_update (by rw [pc]; rfl) rfl
  | reported pc => exact hi.worker_update (by rw [pc]; rfl) rfl
  | closeStart | closeHide | closeQuiet | closeCall | closeReturned | closeFailed | closeNoted
  | closeReported => exact hi
  | _ pc => exact hi.requester_update (by simp [pc]) (by simp [pc]) (by simp)

theorem reach_sole {cfg : Config} {ok : State → Action → Prop} {s : State}
    (h : Reach (step cfg) ok init s) : Sole s.workerRunning s.requester s.worker :=
  h.invariant (P := fun s => Sole s.workerRunning s.requester s.worker)
    ⟨by simp [init], by simp [init, Live, WorkerPc.alive], by simp [init, Live, WorkerPc.alive],
      fun _ _ => rfl⟩
    fun _ _ _ hi _ hs => sole_step (step_sound hs) hi

/-! ### Open and closed -/

theorem Step.open_of {cfg : Config} {s s' : State} {a : Action} (h : Step cfg s a s')
    (hc : s'.closed = false) : s.closed = false := by
  cases h with
  | closeHide | closeQuiet => cases hc
  | _ => exact hc

/-- `close` has not yet been through its block. -/
def ClosePc.before : ClosePc → Bool
  | .absent | .lock _ => true
  | _ => false

theorem before_step {cfg : Config} {s s' : State} {a : Action} (h : Step cfg s a s')
    (hi : s.closer.before = !s.closed) : s'.closer.before = !s'.closed := by
  cases h with
  | closeStart pc =>
    rw [pc] at hi
    cases hc : s.closed with
    | false => simp [ClosePc.before]
    | true =>
      rw [hc] at hi
      cases hi
  | closeHide | closeQuiet => rfl
  | closeCall pc | closeReturned pc | closeFailed pc | closeNoted pc | closeReported pc =>
    rw [pc] at hi
    exact hi
  | _ => exact hi

/-- The binding is closed in the block of `close` and nowhere else. -/
theorem reach_before {cfg : Config} {ok : State → Action → Prop} {s : State}
    (h : Reach (step cfg) ok init s) : s.closer.before = !s.closed :=
  h.invariant (P := fun s => s.closer.before = !s.closed) rfl
    fun _ _ _ hi _ hs => before_step (step_sound hs) hi

end Msys.InputMethod
