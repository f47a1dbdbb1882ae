import MsysSdk.Channel.Steps
import Mathlib.Tactic.Common

/-! Invariants of the channel: request ids, the lock, the map, the frames of `send` and of
`_fail_pending`, and that no registered call is forgotten. -/

namespace Msys.Channel
open Python Transition

namespace CallPc

def id? : CallPc → Option Int
  | .registered i | .sending i | .waiting i | .finishing i _ => some i
  | .done i _ => i
  | _ => none

/-- The id of a call that is registered and has not taken itself off the map again. -/
def open? : CallPc → Option Int
  | .registered i | .sending i | .waiting i | .finishing i _ => some i
  | _ => none

def beforeSend : CallPc → Bool
  | .start | .enter | .registering | .registered _ => true
  | _ => false

def afterSend : CallPc → Bool
  | .waiting _ | .finishing .. | .done .. => true
  | _ => false

/-- The call has not yet got anything out of its waiter. -/
def untaken : CallPc → Bool
  | .finishing .. | .done .. => false
  | _ => true

def result? : CallPc → Option Outcome
  | .finishing _ o | .done _ o => some o
  | _ => none

theorem id?_of_open {pc : CallPc} {i : Int} (h : pc.open? = some i) : pc.id? = some i := by
  cases pc <;> simp_all [open?, id?]

theorem untaken_iff {pc : CallPc} : pc.untaken = true ↔ pc.result? = none := by
  cases pc <;> simp [untaken, result?]

theorem afterSend_of_result {pc : CallPc} {o : Outcome} (h : pc.result? = some o) :
    pc.afterSend = true := by
  cases pc <;> simp_all [result?, afterSend]

end CallPc

def SendPc.ended : SendPc → Bool
  | .sent | .raised _ => true
  | _ => false

def FailPc.waiters : FailPc → List Nat
  | .enter => []
  | .putting ws => ws

/-- The pump is in `_fail_pending` or past it. -/
def PumpPc.left : PumpPc → Bool
  | .failing _ | .announcing | .returned => true
  | _ => false

/-! ### Request ids, the lock and the map -/

theorem ids_step {cfg : Config} {s s' : State} {a : Action} (h : Step cfg s a s')
    (hi : Waiters.Ids CallPc.id? s.caller s.nextId) :
    Waiters.Ids CallPc.id? s'.caller s'.nextId := by
  cases h with
  | register pc => exact hi.register rfl
  | _ => first | exact hi | exact hi.update (by simp [CallPc.id?, *])

/-- Only a call between its look at `closed` and its registration holds the lock. -/
def Locked (lock : Option Nat) (caller : Nat → CallPc) : Prop :=
  ∀ c, caller c = .registering → lock = some c

theorem Locked.update {lock : Option Nat} {caller : Nat → CallPc} {c : Nat} {pc : CallPc}
    (h : Locked lock caller) (hpc : pc ≠ .registering) :
    Locked lock (Function.update caller c pc) := by
  intro d hd
  rcases eq_or_ne d c with rfl | hne
  · rw [Function.update_self] at hd
    exact absurd hd hpc
  · exact h d (by rwa [Function.update_of_ne hne] at hd)

theorem Locked.register {lock : Option Nat} {caller : Nat → CallPc} {c : Nat} {pc : CallPc}
    (h : Locked lock caller) (hc : caller c = .registering) (hpc : pc ≠ .registering) :
    Locked none (Function.update caller c pc) := by
  intro d hd
  rcases eq_or_ne d c with rfl | hne
  · rw [Function.update_self] at hd
    exact absurd hd hpc
  · rw [Function.update_of_ne hne] at hd
    exact absurd (Option.some.inj ((h d hd).symm.trans (h c hc))) hne

theorem Locked.step {cfg : Config} {s s' : State} {a : Action} (h : Step cfg s a s')
    (hi : Locked s.pendingLock s.caller) : Locked s'.pendingLock s'.caller := by
  cases h with
  | @lockOpen c pc lock hc =>
    intro d hd
    rcases eq_or_ne d c with rfl | hne
    · rfl
    · have hd : s.caller d = .registering := by
        simpa [State.setCaller, Function.update_of_ne hne] using hd
      simp [lock] at hi
      exact absurd (hi d hd) (by simp)
  | register pc => exact hi.register pc (by simp)
  | _ => first | exact hi | exact hi.update (by simp)

theorem listed_step {cfg : Config} {s s' : State} {a : Action} (h : Step cfg s a s')
    (hi : Waiters.Listed CallPc.open? s.caller s.pending) :
    Waiters.Listed CallPc.open? s'.caller s'.pending := by
  cases h with
  | register pc => exact hi.register (by simp [pc, CallPc.open?]) rfl
  | finish pc lock => exact hi.remove (by simp [pc, CallPc.open?])
  | failEnter frame lock => exact Waiters.Listed.empty
  | _ => first | exact hi | exact hi.update (by simp [CallPc.open?, *])

/-! ### Frames of send -/

structure Sends (caller : Nat → CallPc) (send : Thread → Option SendFrame)
    (transmitted : List (Thread × Value)) : Prop where
  unsent : ∀ c, (caller c).beforeSend = true → send (.caller c) = none
  ended : ∀ c f, (caller c).afterSend = true → send (.caller c) = some f → f.pc.ended = true
  sent : ∀ c m, (.caller c, m) ∈ transmitted → ∃ f, send (.caller c) = some f ∧ f.pc = .sent

section
variable {caller : Nat → CallPc} {send : Thread → Option SendFrame}
  {transmitted : List (Thread × Value)} {c : Nat} {pc : CallPc} {t : Thread} {f g : SendFrame}

theorem Sends.caller_update (h : Sends caller send transmitted)
    (hb : pc.beforeSend = true → (caller c).beforeSend = true)
    (ha : pc.afterSend = true → (caller c).afterSend = true ∨
      ∀ f, send (.caller c) = some f → f.pc.ended = true) :
    Sends (Function.update caller c pc) send transmitted := by
  refine { h with unsent := fun d hd => h.unsent d ?_, ended := fun d f hd hs => ?_ }
  · rcases eq_or_ne d c with rfl | hne
    · rw [Function.update_self] at hd
      exact hb hd
    · rwa [Function.update_of_ne hne] at hd
  · rcases eq_or_ne d c with rfl | hne
    · rw [Function.update_self] at hd
      exact (ha hd).elim (fun hd => h.ended d f hd hs) (· f hs)
    · exact h.ended d f (by rwa [Function.update_of_ne hne] at hd) hs

/-- A frame of a thread that is no caller. -/
theorem Sends.other_update (h : Sends caller send transmitted) (ht : ∀ c, t ≠ .caller c) :
    Sends caller (Function.update send t (some f)) transmitted := by
  have key : ∀ c, Function.update send t (some f) (.caller c) = send (.caller c) :=
    fun c => Function.update_of_ne (ht c).symm ..
  refine ⟨fun c hc => (key c).trans (h.unsent c hc), fun c g hc hg => h.ended c g hc (key c ▸ hg),
    fun c m hm => ?_⟩
  rw [key]
  exact h.sent c m hm

/-- A call begins its send. -/
theorem Sends.begin (h : Sends caller send transmitted) (hb : (caller c).beforeSend = true)
    (hp : pc.beforeSend = false) (ha : pc.afterSend = false) :
    Sends (Function.update caller c pc) (Function.update send (.caller c) (some f))
      transmitted := by
  have hnone := h.unsent c hb
  refine ⟨fun d hd => ?_, fun d g hd hg => ?_, fun d m hm => ?_⟩
  · rcases eq_or_ne d c with rfl | hne
    · simp [hp] at hd
    · rw [Function.update_of_ne (by simpa using hne)]
      exact h.unsent d (by rwa [Function.update_of_ne hne] at hd)
  · rcases eq_or_ne d c with rfl | hne
    · simp [ha] at hd
    · rw [Function.update_of_ne (by simpa using hne)] at hg
      exact h.ended d g (by rwa [Function.update_of_ne hne] at hd) hg
  · obtain ⟨g, hg, hs⟩ := h.sent d m hm
    have hne : d ≠ c := by
      rintro rfl
      simp [hnone] at hg
    exact ⟨g, by rwa [Function.update_of_ne (by simpa using hne)], hs⟩

/-- A step of a send that is under way. -/
theorem Sends.advance (h : Sends caller send transmitted) (hg : send t = some g)
    (hover : g.pc.ended = false) : Sends caller (Function.update send t (some f)) transmitted := by
  refine ⟨fun d hd => ?_, fun d k hd hk => ?_, fun d m hm => ?_⟩
  · have hne : Thread.caller d ≠ t := by
      rintro rfl
      simp [h.unsent d hd] at hg
    rw [Function.update_of_ne hne, h.unsent d hd]
  · have hne : Thread.caller d ≠ t := by
      rintro rfl
      simp [h.ended d g hd hg] at hover
    exact h.ended d k hd (by rwa [Function.update_of_ne hne] at hk)
  · obtain ⟨k, hk, hs⟩ := h.sent d m hm
    have hne : Thread.caller d ≠ t := by
      rintro rfl
      obtain rfl := Option.some.inj (hk.symm.trans hg)
      simp [hs, SendPc.ended] at hover
    exact ⟨k, by rwa [Function.update_of_ne hne], hs⟩

theorem Sends.transmit {m : Value} (h : Sends caller send transmitted)
    (ht : ∃ f, send t = some f ∧ f.pc = .sent) :
    Sends caller send (transmitted ++ [(t, m)]) := by
  refine { h with sent := fun c v hv => ?_ }
  rcases List.mem_append.mp hv with hv | hv
  · exact h.sent c v hv
  · rw [List.mem_singleton, Prod.mk.injEq] at hv
    exact hv.1 ▸ ht

end

theorem Sends.step {cfg : Config} {s s' : State} {a : Action} (h : Step cfg s a s')
    (hi : Sends s.caller s.send s.transmitted) : Sends s'.caller s'.send s'.transmitted := by
  cases h with
  | callSend pc => exact hi.begin (by simp [pc, CallPc.beforeSend]) rfl rfl
  | sendAll frame hn =>
    exact (hi.advance frame rfl).transmit ⟨_, Function.update_self .., rfl⟩
  | sent pc frame =>
    exact hi.caller_update (by simp [CallPc.beforeSend]) (by simp [frame, SendPc.ended])
  | notSent pc frame =>
    exact hi.caller_update (by simp [CallPc.beforeSend]) (by simp [frame, SendPc.ended])
  | @deadline c id pc =>
    have hnone := hi.unsent c (by simp [pc, CallPc.beforeSend])
    exact hi.caller_update (by simp [CallPc.beforeSend]) (by simp [hnone])
  | @callRefused c e pc =>
    have hnone := hi.unsent c (by simp [pc, CallPc.beforeSend])
    exact hi.caller_update (by simp [CallPc.beforeSend]) (by simp [hnone])
  | @lockClosed c pc =>
    have hnone := hi.unsent c (by simp [pc, CallPc.beforeSend])
    exact hi.caller_update (by simp [CallPc.beforeSend]) (by simp [hnone])
  | senderStart => exact hi.other_update (by simp)
  | handle => exact hi.other_update (by simp)
  | returnFailed => exact hi.other_update (by simp)
  | _ =>
    first
    | exact hi
    | exact hi.caller_update (by simp [CallPc.beforeSend, *]) (by simp [CallPc.afterSend, *])
    | (refine hi.advance (by assumption) ?_; rfl)

/-! ### Frames of _fail_pending -/

structure Fails (fail : Thread → Option FailFrame) (pump : PumpPc) (closer : Nat → ClosePc) :
    Prop where
  entered : ∀ f, fail .pump = some f → pump.left = true
  failing : ∀ b, pump = .failing b → (fail .pump).isSome = true
  ended : ∀ f, fail .pump = some f → (∀ b, pump ≠ .failing b) → f.pc = .putting []
  closer : ∀ k, (fail (.closer k)).isSome = true → closer k = .failing ∨ closer k = .closed
  caller : ∀ c, fail (.caller c) = none
  sender : ∀ k, fail (.sender k) = none

section
variable {fail : Thread → Option FailFrame} {pump pump' : PumpPc} {closer : Nat → ClosePc}
  {t : Thread} {f g : FailFrame}

/-- The pump moves on outside `_fail_pending`. -/
theorem Fails.pump_update (h : Fails fail pump closer) (hl : pump.left = false)
    (hf : ∀ b, pump' ≠ .failing b) : Fails fail pump' closer := by
  have hnone : fail .pump = none := by
    by_contra hne
    obtain ⟨f, hsome⟩ := Option.ne_none_iff_exists'.mp hne
    simp [h.entered f hsome] at hl
  exact { h with entered := by simp [hnone], failing := fun b hb => absurd hb (hf b),
                 ended := by simp [hnone] }

theorem Fails.pump_enter {e : Exc} {b : Bool} (h : Fails fail pump closer) :
    Fails (Function.update fail .pump (some ⟨e, .enter⟩)) (.failing b) closer where
  entered := by simp [PumpPc.left]
  failing := by simp
  ended := by simp
  closer := fun k => by simpa using h.closer k
  caller := fun c => by simpa using h.caller c
  sender := fun k => by simpa using h.sender k

theorem Fails.advance (h : Fails fail pump closer) (hg : fail t = some g)
    (ho : g.pc ≠ .putting []) : Fails (Function.update fail t (some f)) pump closer := by
  have key : ∀ u, (Function.update fail t (some f) u).isSome = (fail u).isSome := by
    intro u
    rcases eq_or_ne u t with rfl | hne
    · simp [hg]
    · rw [Function.update_of_ne hne]
  have none_of : ∀ u, fail u = none → Function.update fail t (some f) u = none := by
    intro u hu
    rw [← Option.not_isSome_iff_eq_none, key, hu]
    simp
  refine ⟨fun k hk => ?_, fun b hb => (key _).trans (h.failing b hb), fun k hk hb => ?_,
    fun k hk => h.closer k ((key _) ▸ hk), fun c => none_of _ (h.caller c),
    fun k => none_of _ (h.sender k)⟩
  · obtain ⟨k', hk'⟩ := Option.isSome_iff_exists.mp ((key .pump).symm.trans (by simp [hk]))
    exact h.entered k' hk'
  · have hne : Thread.pump ≠ t := by
      rintro rfl
      exact ho (h.ended g hg hb)
    exact h.ended k (by rwa [Function.update_of_ne hne] at hk) hb

theorem Fails.closer_update {k : Nat} {pc : ClosePc} (h : Fails fail pump closer)
    (hk : (fail (.closer k)).isSome = true → pc = .failing ∨ pc = .closed) :
    Fails fail pump (Function.update closer k pc) := by
  refine { h with closer := fun j hj => ?_ }
  rcases eq_or_ne j k with rfl | hne
  · rw [Function.update_self]
    exact hk hj
  · rw [Function.update_of_ne hne]
    exact h.closer j hj

theorem Fails.closer_enter {k : Nat} {e : Exc} (h : Fails fail pump closer) :
    Fails (Function.update fail (.closer k) (some ⟨e, .enter⟩)) pump
      (Function.update closer k .failing) where
  entered := fun f hf => h.entered f (by simpa using hf)
  failing := fun b hb => by simpa using h.failing b hb
  ended := fun f hf hb => h.ended f (by simpa using hf) hb
  closer := fun j hj => by
    rcases eq_or_ne j k with rfl | hne
    · simp
    · rw [Function.update_of_ne hne]
      exact h.closer j (by rwa [Function.update_of_ne (by simpa using hne)] at hj)
  caller := fun c => by simpa using h.caller c
  sender := fun j => by simpa using h.sender j

/-- The pump leaves `_fail_pending`, or goes on after it. -/
theorem Fails.pump_leave (h : Fails fail pump closer) (hl : pump'.left = true)
    (hf : ∀ b, pump' ≠ .failing b) (hover : ∀ f, fail .pump = some f → f.pc = .putting []) :
    Fails fail pump' closer :=
  { h with entered := fun _ _ => hl, failing := fun b hb => absurd hb (hf b),
           ended := fun f hf _ => hover f hf }

end

/-- The pump is not started twice. -/
theorem started_step {cfg : Config} {s s' : State} {a : Action} (h : Step cfg s a s')
    (hi : s.pumpThread = false → s.pump = .absent) :
    s'.pumpThread = false → s'.pump = .absent := by
  have started : s.pump ≠ .absent → s.pumpThread ≠ false := fun hp ht => hp (hi ht)
  intro ht
  cases h <;> first | exact hi ht | cases ht | exact absurd ht (started (by simp [*]))

theorem pass_cases (cfg : Config) (n : Nat) (m : Dict) :
    pass cfg n m = .loop ∨ (∃ id, pass cfg n m = .handling n m id ∧
      field m "id" = .int id) ∨ pass cfg n m = .callback n m := by
  unfold pass
  split_ifs
  · cases hid : field m "id" <;> simp [Value.asInt]
  · exact .inr (.inr rfl)

theorem pass_left (cfg : Config) (n : Nat) (m : Dict) : (pass cfg n m).left = false := by
  rcases pass_cases cfg n m with h | ⟨id, h, -⟩ | h <;> simp [h, PumpPc.left]

theorem Fails.step {cfg : Config} {s s' : State} {a : Action} (h : Step cfg s a s')
    (hstart : s.pumpThread = false → s.pump = .absent) (hi : Fails s.fail s.pump s.closer) :
    Fails s'.fail s'.pump s'.closer := by
  have hpass : ∀ n m b, pass cfg n m ≠ .failing b := by
    intro n m b hb
    have := pass_left cfg n m
    simp [hb, PumpPc.left] at this
  cases h with
  | failEnter frame lock => exact hi.advance frame (by simp)
  | failPut frame => exact hi.advance frame (by simp)
  | recvBad => exact hi.pump_enter
  | failedOpen => exact hi.pump_enter
  | notifiedEnd => exact hi.pump_enter
  | closeTest pc =>
    refine hi.closer_update fun hk => ?_
    have := hi.closer _ hk
    simp [pc] at this
  | closeSet pc => exact hi.closer_enter
  | closeFinish pc => exact hi.closer_update (by simp)
  | pumpStart ht => exact hi.pump_update (by simp [hstart ht, PumpPc.left]) (by simp)
  | pumpTest pc =>
    refine hi.pump_update (by simp [pc, PumpPc.left]) fun b => ?_
    split_ifs <;> simp
  | pumpSettimeout pc =>
    refine hi.pump_update (by simp [pc, PumpPc.left]) fun b => ?_
    split_ifs <;> simp
  | notReply pc => exact hi.pump_update (by simp [pc, PumpPc.left]) (hpass _ _)
  | unknown pc => exact hi.pump_update (by simp [pc, PumpPc.left]) (hpass _ _)
  | leave pc frame =>
    refine hi.pump_leave ?_ (fun b => ?_) (by simp [frame])
    · split_ifs <;> rfl
    · split_ifs <;> simp
  | announce pc => exact hi.pump_leave rfl (by simp) fun f hf => hi.ended f hf (by simp [pc])
  | _ => first | exact hi | exact hi.pump_update (by simp [PumpPc.left, *]) (by simp)

end Msys.Channel
