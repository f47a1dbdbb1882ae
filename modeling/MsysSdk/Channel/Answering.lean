import MsysSdk.Channel.Replies

/-! The pump comes back from its replies. A thread that holds the lock of `send` is at `sock.send`,
so the pump gets the lock, its record goes out, and it is at its loop again. -/

namespace Msys.Channel
open Python Transition

/-! ### The lock of send -/

structure Sending (s : State) : Prop where
  holder : ∀ t, s.sendLock = some t → ∃ m data, s.send t = some ⟨m, data, .sending⟩
  framed : s.pump.replies = true → ∃ f, s.send .pump = some f

theorem sending_init : Sending init where
  holder := by simp [init]
  framed := by simp [init, PumpPc.replies]

section
variable {cfg : Config} {s s' : State}

theorem State.setSend_self (s : State) (t : Thread) (f : SendFrame) : (s.setSend t f).send t = some f := by
  simp [State.setSend]

theorem State.setSend_of_ne {t u : Thread} (f : SendFrame) (h : u ≠ t) :
    (s.setSend t f).send u = s.send u := by
  simp [State.setSend, h]

theorem Sending.go (hi : Sending s) (pump : PumpPc) (hp : pump.replies = false) :
    Sending { s with pump := pump } :=
  { hi with framed := fun h => absurd h (by simp [hp]) }

/-- A frame of a thread that does not hold the lock. -/
theorem Sending.setSend {t : Thread} (hi : Sending s) (f : SendFrame)
    (ht : ∀ g, s.send t = some g → g.pc ≠ .sending) : Sending (s.setSend t f) where
  holder := fun u hu => by
    obtain ⟨m, data, hsend⟩ := hi.holder u hu
    have hne : u ≠ t := by
      rintro rfl
      exact ht _ hsend rfl
    exact ⟨m, data, (State.setSend_of_ne f hne).trans hsend⟩
  framed := fun hp => by
    rcases eq_or_ne t .pump with rfl | hne
    · exact ⟨f, s.setSend_self .pump f⟩
    · obtain ⟨g, hg⟩ := hi.framed hp
      exact ⟨g, (State.setSend_of_ne f hne.symm).trans hg⟩

/-- The lock changes hands with the frame of the thread that takes it or gives it back. -/
theorem Sending.relock {t : Thread} (hi : Sending s) (f : SendFrame) (lock : Option Thread)
    (sent : List (Thread × Value))
    (hlock : lock = none ∨ lock = some t ∧ f.pc = .sending) :
    Sending { s.setSend t f with sendLock := lock, transmitted := sent } where
  holder := fun u hu => by
    rcases hlock with rfl | ⟨rfl, hf⟩
    · cases hu
    · obtain rfl := Option.some.inj hu
      obtain ⟨m, data, pc⟩ := f
      obtain rfl : pc = .sending := hf
      exact ⟨m, data, s.setSend_self t _⟩
  framed := fun hp => by
    rcases eq_or_ne t .pump with rfl | hne
    · exact ⟨f, s.setSend_self .pump f⟩
    · obtain ⟨g, hg⟩ := hi.framed hp
      exact ⟨g, (State.setSend_of_ne f hne.symm).trans hg⟩

theorem pass_replies (cfg : Config) (n : Nat) (m : Dict) : (pass cfg n m).replies = false := by
  rcases pass_cases cfg n m with h | ⟨id, h, -⟩ | h <;> simp [h, PumpPc.replies]

theorem Sending.step {a : Action} (h : Step cfg s a s') (hserver : Server cfg s)
    (hsends : Sends s.caller s.send s.transmitted) (hi : Sending s) : Sending s' := by
  have idle : s.pump.replies = false → ∀ g, s.send .pump = some g → g.pc ≠ .sending := by
    intro hp g hg hpc
    have := hserver.unsent g hg (.inr hpc)
    simp [hp] at this
  cases h with
  | senderStart frame => exact hi.setSend _ (by simp [frame])
  | sendLocked frame lock => exact hi.relock _ _ s.transmitted (.inr ⟨rfl, rfl⟩)
  | sendAll => exact hi.relock _ _ _ (.inl rfl)
  | sendShort => exact hi.relock _ _ s.transmitted (.inl rfl)
  | sendFailed => exact hi.relock _ _ s.transmitted (.inl rfl)
  | @callSend c id d pc =>
    have hnone := hsends.unsent c (by simp [pc, CallPc.beforeSend])
    exact { hi.setSend (t := .caller c)
      (beginSend cfg.py (.dict (callRecord id (cfg.args c) d))) (by simp [hnone]) with }
  | @handle n m id h frame b pc reply =>
    have hset := hi.setSend frame (idle (by simp [pc, PumpPc.replies]))
    exact { hset with framed := fun _ => ⟨frame, s.setSend_self .pump frame⟩ }
  | returnFailed pc frame => exact absurd rfl (hserver.unfailed _ _ frame)
  | returnRaised pc frame => exact absurd rfl (hserver.unfailed _ _ frame)
  | errorFailed pc frame => exact absurd rfl (hserver.unfailed _ _ frame)
  | notReply pc => exact hi.go _ (pass_replies ..)
  | unknown pc => exact hi.go _ (pass_replies ..)
  | pumpTest => exact hi.go _ (by split_ifs <;> rfl)
  | pumpSettimeout => exact hi.go _ (by split_ifs <;> rfl)
  | leave => exact hi.go _ (by split_ifs <;> rfl)
  | _ => first | exact { hi with } | exact { hi.go _ rfl with }

theorem reach_sending (hh : cfg.handles = true) (h : Reach (step cfg) (Serving cfg) init s) :
    Sending s := by
  refine h.invariant_of (Q := fun s => Inv cfg.py s ∧ Server cfg s)
    (fun _ hr => ⟨reach_inv hr, reach_server hh hr⟩) sending_init ?_
  rintro s a s' ⟨inv, hserver⟩ hsending hok hs
  exact hsending.step (step_sound hs) hserver inv.sends

/-! ### The way back -/

/-- How many sends of others and of the pump's own stand between the pump and its record being
out. -/
def remaining (s : State) : Nat :=
  match s.send .pump with
  | some ⟨_, _, .lock⟩ => if s.sendLock = none then 2 else 3
  | some ⟨_, _, .sending⟩ => 1
  | _ => 0

theorem step_sendLocked {t : Thread} {m : Value} {data : Bytes}
    (hf : s.send t = some ⟨m, data, .lock⟩) (hlock : s.sendLock = none) :
    step cfg s (.sendLocked t) =
      some { s.setSend t ⟨m, data, .sending⟩ with sendLock := some t } := by
  simp only [step, sendLocked, hf, hlock]

theorem step_sendAll {t : Thread} {m : Value} {data : Bytes}
    (hf : s.send t = some ⟨m, data, .sending⟩) :
    step cfg s (.sendWrite t (.ok data.length)) = some { s.setSend t ⟨m, data, .sent⟩ with
      sendLock := none
      transmitted := s.transmitted ++ [(t, m)] } := by
  simp only [step, sendWrite, hf, if_true]

/-- The pump has still to come back from a reply; some step leads on, and each such step brings the
record nearer to the peer. -/
theorem replying_step (hserver : Server cfg s) (hsending : Sending s)
    (hp : s.pump.replies = true) :
    ∃ a s', Serving cfg s a ∧ step cfg s a = some s' ∧ s'.wire = s.wire ∧
      s'.handled = s.handled ∧
      (s'.pump = .loop ∨ s'.pump.replies = true ∧ remaining s' < remaining s) := by
  obtain ⟨⟨m, data, pc⟩, hf⟩ := hsending.framed hp
  cases pc with
  | lock =>
    cases hlock : s.sendLock with
    | none =>
      refine ⟨.sendLocked .pump, _, rfl, step_sendLocked hf hlock, rfl, rfl, .inr ⟨hp, ?_⟩⟩
      simp [remaining, hf, hlock, State.setSend]
    | some t =>
      obtain ⟨m', data', ht⟩ := hsending.holder t hlock
      have hne : t ≠ .pump := by
        rintro rfl
        simp [hf] at ht
      refine ⟨.sendWrite t (.ok data'.length), _, ?_, step_sendAll ht, rfl, rfl, .inr ⟨hp, ?_⟩⟩
      · cases t <;> simp_all [Serving, serving]
      · simp [remaining, hf, hlock, State.setSend_of_ne _ hne.symm]
  | sending =>
    refine ⟨.sendWrite .pump (.ok data.length), _, by simp [Serving, serving, hf],
      step_sendAll hf, rfl, rfl, .inr ⟨hp, ?_⟩⟩
    simp [remaining, hf, State.setSend]
  | sent =>
    obtain ⟨id, b, hpump⟩ : ∃ id b, s.pump = .replying id b := by
      cases hs : s.pump <;> simp_all [PumpPc.replies]
    have hs : step cfg s .pumpSent = some { s with pump := .loop } := by
      simp only [step, pumpSent, hpump, hf]
    exact ⟨.pumpSent, _, rfl, hs, rfl, rfl, .inl rfl⟩
  | raised e => exact absurd rfl (hserver.unfailed _ e hf)

/-- The pump can come back to `receive` having handled just these calls, and the peer has been sent
one record for each. -/
def ComesBack (cfg : Config) (s : State) (handled : List (Int × Handled)) : Prop :=
  ∃ s', Reach (step cfg) (Serving cfg) s s' ∧ s'.pump = .receiving ∧ s'.wire = s.wire ∧
    s'.handled = handled ∧
    sentBy .pump s'.transmitted = handled.map fun p => .dict (replyRecord cfg.py p.1 p.2)

theorem ComesBack.of_step {a : Action} {handled : List (Int × Handled)} (hok : Serving cfg s a)
    (hs : step cfg s a = some s') (hwire : s'.wire = s.wire) (h : ComesBack cfg s' handled) :
    ComesBack cfg s handled := by
  obtain ⟨t, hreach, hpump, ht, hhandled, hsent⟩ := h
  exact ⟨t, (Reach.start.next hok hs).trans hreach, hpump, ht.trans hwire, hhandled, hsent⟩

/-- From the loop two steps lead to `receive`. -/
theorem comesBack_of_loop (hserver : Server cfg s) (hp : s.pump = .loop)
    (hall : ∀ p ∈ s.handled, printable p.2 = true) : ComesBack cfg s s.handled := by
  obtain ⟨hopen, hsock, -⟩ := hserver.opened
  obtain ⟨-, -, hreplies⟩ := hserver.inTurn hall
  rw [hp, inFlight_of_idle rfl, List.append_nil] at hreplies
  have htest : step cfg s .pumpTest = some { s with pump := .settimeout } := by
    simp [step, pumpTest, hp, hopen]
  have hok : Serving cfg s .pumpTest := rfl
  refine .of_step hok htest rfl ⟨{ s with pump := .receiving }, ?_, rfl, rfl, rfl, hreplies⟩
  exact Reach.start.next (a := .pumpSettimeout) rfl (by simp [step, pumpSettimeout, hsock])

/-- Induction on what remains of the sends. -/
theorem comesBack_of_replying (hh : cfg.handles = true)
    (h : Reach (step cfg) (Serving cfg) init s) (hp : s.pump.replies = true)
    (hall : ∀ p ∈ s.handled, printable p.2 = true) : ComesBack cfg s s.handled := by
  obtain ⟨n, hn⟩ : ∃ n, remaining s = n := ⟨_, rfl⟩
  induction n using Nat.strong_induction_on generalizing s with
  | _ n ih =>
    obtain ⟨a, s', hok, hs, hwire, hhandled, hback⟩ :=
      replying_step (reach_server hh h) (reach_sending hh h) hp
    have h' := h.next hok hs
    refine .of_step hok hs hwire ?_
    rw [← hhandled] at hall ⊢
    rcases hback with hloop | ⟨hp', hlt⟩
    · exact comesBack_of_loop (reach_server hh h') hloop hall
    · exact ih _ (hn ▸ hlt) h' hp' hall rfl

/-- The handler ends, its record goes out, and the pump is at its loop again. -/
theorem comesBack_of_handling {n : Nat} {m : Dict} {id : Int} {r : Handled}
    (hh : cfg.handles = true) (h : Reach (step cfg) (Serving cfg) init s)
    (hp : s.pump = .handling n m id) (hr : printable r = true)
    (hall : ∀ p ∈ s.handled, printable p.2 = true) :
    ComesBack cfg s (s.handled ++ [(id, r)]) := by
  have hserver := reach_server hh h
  obtain ⟨data, b, hf⟩ := replyFrame_some cfg.py (hserver.handling n m id hp) hr
  have hok : Serving cfg s (.pumpHandle r) := by
    cases r <;> simp_all [Serving, serving, printable]
  have hs : step cfg s (.pumpHandle r) =
      some { s.setSend .pump ⟨.dict (replyRecord cfg.py id r), data, .lock⟩ with
        pump := .replying id b
        handled := s.handled ++ [(id, r)] } := by
    simp only [step, pumpHandle, hp, hf]
  refine .of_step hok hs rfl (comesBack_of_replying hh (h.next hok hs) rfl ?_)
  exact List.forall_mem_append.mpr ⟨hall, List.forall_mem_singleton.mpr hr⟩

/-- A call that was read is given to the handler. -/
theorem route_call {n : Nat} {m : Dict} {id : Int} (hh : cfg.handles = true)
    (hp : s.pump = .message n m) (hcall : callId m = some id) :
    step cfg s .pumpRoute = some { s with pump := .handling n m id } := by
  unfold callId at hcall
  split_ifs at hcall with htype
  have hreply : replyId m = .ok none := by
    simp [replyId, Value.isKey_iff.mp htype, Value.inStrings, show str "call" ≠ str "return" by decide,
      show str "call" ≠ str "error" by decide]
  simp only [step, pumpRoute, hp, hreply, pass, htype, hh, hcall, Bool.and_true, if_true]

theorem comesBack_of_call {id : Int} {r : Handled} (hh : cfg.handles = true)
    (h : Reach (step cfg) (Serving cfg) init s) (hcall : s.pump.call? = some id)
    (hr : printable r = true) (hall : ∀ p ∈ s.handled, printable p.2 = true) :
    ComesBack cfg s (s.handled ++ [(id, r)]) := by
  cases hp : s.pump with
  | message n m =>
    rw [hp] at hcall
    have hs := route_call hh hp hcall
    have hok : Serving cfg s .pumpRoute := rfl
    exact .of_step hok hs rfl (comesBack_of_handling hh (h.next hok hs) rfl hr hall)
  | handling n m id' =>
    rw [hp] at hcall
    obtain rfl := Option.some.inj hcall
    exact comesBack_of_handling hh h hp hr hall
  | _ => simp [hp, PumpPc.call?] at hcall

end

/-! ### One record for each call -/

/-- Between its replies the pump has sent exactly one record for each call that it has handled, and
it has handled the calls in the order they came. From a reply, and from a call whatever it comes
to, it goes on to the next record. -/
structure Answered (cfg : Config) (s : State) : Prop where
  running : s.pump ≠ .raised
  calls : s.wire.filterMap (inboundCall cfg.py) = s.handled.map Prod.fst ++ s.pump.call?.toList
  transmitted : s.pump.replies = false →
    sentBy .pump s.transmitted = s.handled.map fun p => .dict (replyRecord cfg.py p.1 p.2)
  replies : s.pump.replies = true → ComesBack cfg s s.handled
  handles : ∀ id, s.pump.call? = some id →
    ∀ r, printable r = true → ComesBack cfg s (s.handled ++ [(id, r)])

theorem calls_answered (cfg : Config) (hh : cfg.handles = true) (s : State)
    (h : Reach (step cfg) (Serving cfg) init s) :
    Answered cfg s ↔ ∀ p ∈ s.handled, printable p.2 = true := by
  have hserver := reach_server hh h
  constructor
  · intro ha p hp
    by_contra hbad
    exact ha.running (hserver.stuck ⟨p, hp, by simpa using hbad⟩)
  · intro hall
    obtain ⟨hrun, hcalls, hreplies⟩ := hserver.inTurn hall
    refine ⟨hrun, hcalls, fun hidle => ?_, fun hp => comesBack_of_replying hh h hp hall,
      fun id hcall r hr => comesBack_of_call hh h hcall hr hall⟩
    rwa [inFlight_of_idle hidle, List.append_nil] at hreplies

/-- The pump is back at its loop, and the return has been sent. -/
theorem calls_answered_return : ∃ s, Reach (step (withTimeout 5)) (Serving (withTimeout 5)) init s ∧
    s.pump = .loop ∧ sentBy .pump s.transmitted = [.dict (returnRecord 7 (.dict []))] ∧
    Answered (withTimeout 5) s := by
  have h : (runWhere (step (withTimeout 5)) (Serving (withTimeout 5)) init
      (oneRecord aCall ++ answerWith (.returned (.dict [])) 37)).map
        (fun s => decide (s.pump = .loop ∧
          sentBy .pump s.transmitted = [.dict (returnRecord 7 (.dict []))]) &&
          s.handled.all fun p => printable p.2) = some true := by
    decide +kernel
  obtain ⟨s, hs, hp⟩ := Option.map_eq_some_iff.mp h
  simp only [Bool.and_eq_true, decide_eq_true_eq, List.all_eq_true] at hp
  obtain ⟨⟨hloop, hsent⟩, hhandled⟩ := hp
  have hr := Reach.of_runWhere hs
  exact ⟨s, hr, hloop, hsent, (calls_answered (withTimeout 5) rfl s hr).mpr hhandled⟩

/-- An exception whose text is one lone surrogate. -/
def badText : Handled := .raised [.ofNat 0xD800]

/-- The text of the handler's exception cannot be encoded, and neither can the error reply. -/
theorem surrogate_ends_pump :
    ¬∀ cfg s, cfg.handles = true → Reach (step cfg) (Serving cfg) init s → Answered cfg s := by
  intro hall
  have h : (runWhere (step (withTimeout 5)) (Serving (withTimeout 5)) init
      (oneRecord aCall ++ [.pumpHandle badText])).map
        (fun s => decide (s.pump = .raised)) = some true := by
    decide +kernel
  obtain ⟨s, hs, hp⟩ := Option.map_eq_some_iff.mp h
  exact (hall _ s rfl (Reach.of_runWhere hs)).running (of_decide_eq_true hp)

end Msys.Channel
