import MsysSdk.Channel.Replies

/-! The end of the pump: what it leaves behind for calls that wait and for calls to come. -/

namespace Msys.Channel
open Python Transition

/-- The `_fail_pending` of the pump's exit has emptied the map. -/
def swept (fail : Thread → Option FailFrame) : Bool :=
  match fail .pump with
  | some ⟨_, .putting _⟩ => true
  | _ => false

/-- No call comes to its look at `closed` once the pump has swept the map, unless the channel
has been closed. -/
def timely (s : State) : Action → Bool
  | .callLock _ => !swept s.fail || s.closed
  | _ => true

def Timely (s : State) (a : Action) : Prop := timely s a = true

instance (s : State) (a : Action) : Decidable (Timely s a) := inferInstanceAs (Decidable (_ = true))

/-- Nobody is on the map, and nobody about to be. -/
def Emptied (pending : Waiters.Pending Nat) (caller : Nat → CallPc)
    (fail : Thread → Option FailFrame) : Prop :=
  swept fail = true → pending = ∅ ∧ ∀ c, caller c ≠ .registering

section
variable {pending : Waiters.Pending Nat} {caller : Nat → CallPc} {c : Nat} {pc : CallPc}
  {fail : Thread → Option FailFrame} {t : Thread} {f : FailFrame}

theorem Emptied.caller_update (h : Emptied pending caller fail) (hpc : pc ≠ .registering) :
    Emptied pending (Function.update caller c pc) fail := by
  intro hs
  obtain ⟨hempty, hnone⟩ := h hs
  refine ⟨hempty, fun d hd => ?_⟩
  rcases eq_or_ne d c with rfl | hne
  · rw [Function.update_self] at hd
    exact hpc hd
  · exact hnone d (by rwa [Function.update_of_ne hne] at hd)

theorem swept_update (hf : swept (Function.update fail t (some f)) = true) :
    swept fail = true ∨ t = .pump ∧ f.pc ≠ .enter := by
  rcases eq_or_ne t .pump with rfl | hne
  · refine .inr ⟨rfl, fun henter => ?_⟩
    obtain ⟨e, p⟩ := f
    obtain rfl : p = .enter := henter
    simp [swept] at hf
  · rw [swept, Function.update_of_ne hne.symm] at hf
    exact .inl hf

theorem Emptied.fail_update (h : Emptied pending caller fail)
    (hf : t = .pump → f.pc ≠ .enter → swept fail = true) :
    Emptied pending caller (Function.update fail t (some f)) := by
  intro hs
  rcases swept_update hs with hs | ⟨ht, hpc⟩
  · exact h hs
  · exact h (hf ht hpc)

end

theorem Emptied.step {cfg : Config} {s s' : State} {a : Action} (h : Step cfg s a s')
    (hok : Timely s a) (hl : Locked s.pendingLock s.caller)
    (hi : Emptied s.pending s.caller s.fail) : Emptied s'.pending s'.caller s'.fail := by
  cases h with
  | lockOpen pc lock hc =>
    intro hs
    have hs : swept s.fail = true := hs
    simp [Timely, timely, hs, hc] at hok
  | register pc =>
    intro hs
    exact absurd pc ((hi hs).2 _)
  | finish pc lock =>
    refine Emptied.caller_update (fun hs => ⟨?_, (hi hs).2⟩) (by simp)
    simp [State.unregister, State.setCaller, (hi hs).1]
  | failEnter frame lock =>
    intro _
    refine ⟨rfl, fun c hc => ?_⟩
    have := hl c hc
    simp [lock] at this
  | failPut frame =>
    refine hi.fail_update fun ht _ => ?_
    rw [ht] at frame
    simp [swept, frame]
  | recvBad => exact hi.fail_update (by simp)
  | failedOpen => exact hi.fail_update (by simp)
  | notifiedEnd => exact hi.fail_update (by simp)
  | closeSet => exact hi.fail_update (by simp)
  | _ => first | exact hi | exact hi.caller_update (by simp)

/-- Only a local close starts a closer's `_fail_pending`. -/
theorem closed_step {cfg : Config} {s s' : State} {a : Action} (h : Step cfg s a s')
    (hi : ∀ k, (s.fail (.closer k)).isSome = true → s.closed = true) :
    ∀ k, (s'.fail (.closer k)).isSome = true → s'.closed = true := by
  have keep : ∀ t f, (∀ k, t = .closer k → (s.fail t).isSome = true) →
      ∀ k, (Function.update s.fail t (some f) (.closer k)).isSome = true → s.closed = true := by
    intro t f ht k hk
    rcases eq_or_ne (.closer k) t with heq | hne
    · exact hi k (heq ▸ ht k heq.symm)
    · exact hi k (by rwa [Function.update_of_ne hne] at hk)
  cases h with
  | closeSet => exact fun _ _ => rfl
  | failEnter frame => exact keep _ _ (by simp [frame])
  | failPut frame => exact keep _ _ (by simp [frame])
  | _ => exact hi

theorem reach_closed {cfg : Config} {ok : State → Action → Prop} {s : State}
    (h : Reach (step cfg) ok init s) {t : Thread} {f : FailFrame} (ht : t ≠ .pump)
    (hf : s.fail t = some f) : s.closed = true := by
  have hi := h.invariant (P := fun s => ∀ k, (s.fail (.closer k)).isSome = true → s.closed = true)
    (by simp [init]) fun _ _ _ hi _ hs => closed_step (step_sound hs) hi
  have inv := reach_inv h
  cases t with
  | pump => exact absurd rfl ht
  | caller c => simp [inv.fails.caller] at hf
  | sender k => simp [inv.fails.sender] at hf
  | closer k => exact hi k (by simp [hf])

/-! ### Calls after the pump has ended -/

/-- A call was given its own reply or a failure. -/
def Settled (i : Int) (items : List Item) : Prop :=
  ∀ x ∈ items, (∃ e, x = .failure e) ∨ ∃ n m, x = .record n m ∧ replyId m = .ok (some i)

theorem Items.settled {py : Interpreter} {caller : Nat → CallPc} {given : Nat → List Item}
    {routed : List Routed} {pump : PumpPc} (h : Items py caller given routed pump) {c : Nat} {i : Int}
    (hc : (caller c).open? = some i) : Settled i (given c) := by
  intro x hx
  cases x with
  | failure e => exact .inl ⟨e, rfl⟩
  | record n m =>
    obtain ⟨-, j, hj, hm⟩ := h.routed c n m (h.records c n m hx)
    obtain rfl := Option.some.inj ((CallPc.id?_of_open hc).symm.trans hj)
    exact .inr ⟨n, m, rfl, hm⟩

/-- No call is left waiting and none gets to wait: `closing` stands for the failures that a
local close is still handing out. -/
structure Released (s : State) : Prop where
  empty : s.pending = ∅
  refused : ∀ c, s.caller c ≠ .registering
  settled : ∀ c i, (s.caller c).open? = some i →
    (s.given c ≠ [] ∨ s.closed = true ∧ Busy s.fail c) ∧ Settled i (s.given c)
  waiting : ∀ c i, s.caller c = .waiting i → s.waiter c = none → s.closed = true ∧ Busy s.fail c

/-- Once the map is empty and the pump has failed all that were on it, a call without an
answer is one that a local close is about to fail. -/
theorem reach_answered {cfg : Config} {ok : State → Action → Prop} {s : State} {f : FailFrame}
    (h : Reach (step cfg) ok init s) (hempty : s.pending = ∅) (hf : s.fail .pump = some f)
    (hpc : f.pc = .putting []) {c : Nat} {i : Int} (hc : (s.caller c).open? = some i) :
    s.given c ≠ [] ∨ s.closed = true ∧ Busy s.fail c := by
  -- on the map, at hand for a `_fail_pending`, or answered
  rcases (reach_inv h).covered c i hc with hl | hb | hg
  · simp [hempty] at hl
  · refine .inr ⟨?_, hb⟩
    obtain ⟨t, g, hg, hc⟩ := hb
    refine reach_closed h (fun ht => ?_) hg
    rw [ht, hf, Option.some.injEq] at hg
    simp [← hg, hpc, FailPc.waiters] at hc
  · exact .inl hg

theorem reach_released {cfg : Config} {ok : State → Action → Prop} {s : State} {f : FailFrame}
    (h : Reach (step cfg) ok init s) (hi : Emptied s.pending s.caller s.fail)
    (hf : s.fail .pump = some f) (hpc : f.pc = .putting []) : Released s := by
  have inv := reach_inv h
  have hs : swept s.fail = true := by
    obtain ⟨e, p⟩ := f
    obtain rfl : p = .putting [] := hpc
    simp [swept, hf]
  obtain ⟨hempty, hnone⟩ := hi hs
  refine ⟨hempty, hnone, fun c i hc => ?_, fun c i hc hw => ?_⟩
  · exact ⟨reach_answered h hempty hf hpc hc, inv.items.settled hc⟩
  · have hopen : (s.caller c).open? = some i := by simp [hc, CallPc.open?]
    rcases reach_answered h hempty hf hpc hopen with hg | hb
    · have := inv.slots.fresh c (by simp [hc, CallPc.untaken])
      rw [hw] at this
      exact absurd this hg
    · exact hb

theorem reach_emptied {cfg : Config} {ok : State → Action → Prop} {s : State}
    (hok : ∀ s a, ok s a → Timely s a) (h : Reach (step cfg) ok init s) :
    Emptied s.pending s.caller s.fail :=
  h.invariant_of (P := fun s => Emptied s.pending s.caller s.fail) (fun _ hr => reach_inv hr)
    (by simp [Emptied, swept, init])
    fun _ _ _ inv hi ha hs => hi.step (step_sound hs) (hok _ _ ha) inv.locked

/-- The pump has returned after eof, shutdown or an error of `receive`. -/
theorem calls_after_exit (cfg : Config) (s : State) (h : Reach (step cfg) Timely init s)
    (hp : s.pump = .returned) (hf : (s.fail .pump).isSome = true) : Released s := by
  obtain ⟨f, hf⟩ := Option.isSome_iff_exists.mp hf
  exact reach_released h (reach_emptied (fun _ _ => id) h) hf
    ((reach_inv h).fails.ended f hf (by simp [hp]))

/-- A call of the caller numbered 0 up to its wait, while the pump is running. -/
def oneCall : List Action :=
  [.pumpStart, .callStart 0, .callLock 0, .callRegister 0, .callSend 0 (some 0),
    .sendLocked (.caller 0), .sendWrite (.caller 0) (.ok 107), .callSent 0]

/-- The pump reads the end of the stream, and sweeps the map. -/
def readEof : List Action :=
  [.pumpTest, .pumpSettimeout, .pumpReceive (.data []), .pumpRoute, .pumpCallback, .pumpNotified,
    .failEnter .pump]

theorem calls_after_exit_eof : ∃ s, Reach (step (withTimeout 5)) Timely init s ∧
    s.given 0 = [.failure closedError] ∧ Released s := by
  have h : (runWhere (step (withTimeout 5)) Timely init
      (oneCall ++ readEof ++ [.failPut .pump, .pumpLeave])).map
        (fun s => decide (s.given 0 = [.failure closedError]) && decide (s.pump = .returned) &&
          (s.fail .pump).isSome) = some true := by
    decide +kernel
  obtain ⟨s, hs, hp⟩ := Option.map_eq_some_iff.mp h
  simp only [Bool.and_eq_true, decide_eq_true_eq] at hp
  have hr := Reach.of_runWhere hs
  exact ⟨s, hr, hp.1.1, calls_after_exit (withTimeout 5) s hr hp.1.2 hp.2⟩

/-- The pump has returned, `closed` is not set, and a call registers. -/
theorem call_after_exit_registers :
    ¬∀ cfg s, Reach (step cfg) Any init s → s.pump = .returned → (s.fail .pump).isSome = true →
      Released s := by
  intro hall
  have h : (run (step (withTimeout 5)) init
      (.pumpStart :: readEof ++ [.pumpLeave, .callStart 0, .callLock 0, .callRegister 0])).map
        (fun s => decide (s.pump = .returned) && (s.fail .pump).isSome &&
          (s.pending.lookup 1).isSome) = some true := by
    decide +kernel
  obtain ⟨s, hs, hp⟩ := Option.map_eq_some_iff.mp h
  simp only [Bool.and_eq_true, decide_eq_true_eq] at hp
  -- the waiter on the map is one that nobody will fail
  have hempty := (hall _ s (Reach.of_run hs) hp.1.1 hp.1.2).empty
  simp [hempty] at hp

end Msys.Channel
