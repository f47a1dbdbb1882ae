import MsysSdk.Channel.Exit

/-! Every way out of the pump. An exit is announced unless an exception escapes: from a `type`
without a hash, or from the error reply to a call. -/

namespace Msys.Channel
open Python Transition

def PumpPc.stopped : PumpPc → Bool
  | .returned | .raised => true
  | _ => false

/-- The outcome of a send of the pump lets it go on: an error reply is taken in full, and a
failure to send a return can be told in an error reply. -/
def survives (pump : PumpPc) (frame : Option SendFrame) (written : Except Str Nat) : Bool :=
  match pump, frame, written with
  | .replying _ true, some f, .ok n => n = f.data.length
  | .replying _ true, _, .error _ => false
  | .replying _ false, _, .error text =>
    encodable ((str "Component channel send failed: " ++ text).take 256)
  | _, _, _ => true

/-- Until the channel is closed: no record has a `type` without a hash, what the handler
raises and what the sends do can be told to the peer, and no call comes to its look at
`closed` between the sweep of the map and the end of the pump. -/
def orderly (cfg : Config) (s : State) (a : Action) : Bool :=
  s.closed || match a with
  | .callLock _ => !swept s.fail || s.pump.stopped
  | .pumpReceive (.data b) =>
    match decode cfg.py b with
    | .ok m => hashable (field m "type")
    | .error _ => true
  | .pumpHandle h => printable h
  | .sendWrite .pump written => survives s.pump (s.send .pump) written
  | _ => true

def Orderly (cfg : Config) (s : State) (a : Action) : Prop := orderly cfg s a = true

instance (cfg : Config) (s : State) (a : Action) : Decidable (Orderly cfg s a) :=
  inferInstanceAs (Decidable (_ = true))

/-! ### What the callback is told -/

/-- How many terminal records the callback has been passed. -/
def terminals (callbacks : List (Option Nat × Dict)) : Nat :=
  callbacks.countP fun p => isTerminal p.2

def PumpPc.told : PumpPc → Nat
  | .notified m => if isTerminal m then 1 else 0
  | .failing false | .returned => 1
  | _ => 0

/-- The channel is open: the pump has told the callback what it should by now, and no
exception is on its way out of the pump. -/
structure Ending (s : State) : Prop where
  running : s.pump ≠ .raised
  opened : s.sockClosed = false ∧ ∀ k, s.closer k ≠ .failing
  told : terminals s.callbacks = s.pump.told
  message : ∀ n m, s.pump = .message n m → Short m ∧ hashable (field m "type") = true
  handling : ∀ n m id, s.pump = .handling n m id → id.natAbs < 10 ^ intMaxStrDigits
  replying : ∀ id b, s.pump = .replying id b → id.natAbs < 10 ^ intMaxStrDigits ∧
    ∀ f e, s.send .pump = some f → f.pc = .raised e → b = false ∧ encodable (e.text.take 256) = true

theorem ending_init : Ending init where
  running := by simp [init]
  opened := by simp [init]
  told := rfl
  message := by simp [init]
  handling := by simp [init]
  replying := by simp [init]

section
variable {s : State}

/-- The pump moves on with nothing at hand. -/
theorem Ending.go (hi : Ending s) (pump : PumpPc) (hp : pump.plain = true) (ht : pump.told = s.pump.told) :
    Ending { s with pump := pump } where
  running := by
    rintro rfl
    cases hp
  opened := hi.opened
  told := hi.told.trans ht.symm
  message := by
    rintro n m rfl
    cases hp
  handling := by
    rintro n m id rfl
    cases hp
  replying := by
    rintro id b rfl
    cases hp

theorem Ending.receive {n : Nat} {m : Dict} (hi : Ending s) (pc : s.pump.told = 0) (hm : Short m)
    (ht : hashable (field m "type") = true) : Ending { s with pump := .message n m } :=
  { hi with
    running := by simp
    told := hi.told.trans pc
    message := fun _ _ h => (PumpPc.message.inj h).2 ▸ ⟨hm, ht⟩
    handling := by simp
    replying := by simp }

theorem Ending.pass {cfg : Config} {n : Nat} {m : Dict} (hi : Ending s)
    (pc : s.pump = .message n m) : Ending { s with pump := Channel.pass cfg n m } := by
  have ht : s.pump.told = 0 := by rw [pc]; rfl
  rcases pass_cases cfg n m with hp | ⟨id, hp, hv⟩ | hp <;> rw [hp]
  · exact hi.go _ rfl ht.symm
  · refine { hi with running := by simp, told := hi.told.trans ht, message := by simp,
                     handling := fun n' m' id' h => ?_, replying := by simp }
    obtain ⟨-, -, rfl⟩ := PumpPc.handling.inj h
    exact (hi.message n m pc).1.field "id" _ hv
  · exact hi.go _ rfl ht.symm

/-- A frame of a send is replaced. -/
theorem Ending.send {t : Thread} {f : SendFrame} (hi : Ending s)
    (hf : t = .pump → ∀ id b e, s.pump = .replying id b → f.pc = .raised e →
      b = false ∧ encodable (e.text.take 256) = true) : Ending (s.setSend t f) := by
  refine { hi with replying := fun id b hp => ⟨(hi.replying id b hp).1, fun g e hg he => ?_⟩ }
  by_cases ht : t = .pump
  · subst ht
    obtain rfl : f = g := by simpa [State.setSend] using hg
    exact hf rfl id b e hp he
  · exact (hi.replying id b hp).2 g e (by simpa [State.setSend, Ne.symm ht] using hg) he

/-- The pump begins a reply. -/
theorem Ending.reply {id : Int} {b : Bool} {v : Value} {data : Bytes} (hi : Ending s)
    (hid : id.natAbs < 10 ^ intMaxStrDigits) (ht : s.pump.told = 0) :
    Ending { s.setSend .pump ⟨v, data, .lock⟩ with pump := .replying id b } where
  running := by simp
  opened := hi.opened
  told := hi.told.trans ht
  message := by simp
  handling := by simp
  replying := by
    intro id' b' h
    obtain ⟨rfl, rfl⟩ := PumpPc.replying.inj h
    refine ⟨hid, fun f e hf he => ?_⟩
    obtain rfl : ⟨v, data, .lock⟩ = f := by simpa [State.setSend] using hf
    cases he

end

theorem Ending.step {cfg : Config} {s s' : State} {a : Action} (h : Step cfg s a s')
    (hopen : s.closed = false) (hok : Orderly cfg s a)
    (hstart : s.pumpThread = false → s.pump = .absent) (hi : Ending s) :
    s'.closed = false → Ending s' := by
  intro hopen'
  obtain ⟨hsock, hcloser⟩ := hi.opened
  cases h with
  | sendLocked => exact { hi.send (by simp) with }
  | sendAll => exact { hi.send (by simp) with }
  | @sendShort t m data n frame hn =>
    refine { hi.send fun ht id b e hp he => ?_ with }
    subst ht
    obtain rfl := SendPc.raised.inj he
    cases b with
    | true => simp [Orderly, orderly, survives, hopen, hp, frame, hn] at hok
    | false => exact ⟨rfl, encodable_take 256 (encodable_str _)⟩
  | @sendFailed t m data text frame =>
    refine { hi.send fun ht id b e hp he => ?_ with }
    subst ht
    obtain rfl := SendPc.raised.inj he
    cases b with
    | true => simp [Orderly, orderly, survives, hopen, hp, frame] at hok
    | false => exact ⟨rfl, by simpa [Orderly, orderly, survives, hopen, hp, Exc.text] using hok⟩
  | @closeTest k pc =>
    refine { hi with opened := ⟨hsock, fun j => ?_⟩ }
    rcases eq_or_ne j k with rfl | hne
    · simp [hopen]
    · simpa [Function.update_of_ne hne] using hcloser j
  | closeSet => cases hopen'
  | closeFinish pc => exact absurd pc (hcloser _)
  | pumpStart ht => exact { hi.go .loop rfl (by rw [hstart ht]; rfl) with }
  | pumpTest pc => exact hi.go _ (by simp [hopen, PumpPc.plain]) (by simp [hopen, pc, PumpPc.told])
  | pumpSettimeout pc =>
    exact hi.go _ (by simp [hsock, PumpPc.plain]) (by simp [hsock, pc, PumpPc.told])
  | recvTimeout pc => exact { hi.go .loop rfl (by rw [pc]; rfl) with }
  | recvFailed pc => exact { hi.go (.failed _ _) rfl (by rw [pc]; rfl) with }
  | recvEof pc =>
    exact { hi.receive (by rw [pc]; rfl) (by simp [Short, eof, Value.short]) rfl with }
  | recvBad pc => exact { hi.go (.failing true) rfl (by rw [pc]; rfl) with }
  | @recv b m pc hb packet =>
    have hm : hashable (field m "type") = true := by
      simpa [Orderly, orderly, hopen, packet] using hok
    exact { hi.receive (by rw [pc]; rfl) (decode_short packet) hm with }
  | failedClosed pc hc => simp [hopen] at hc
  | failedOpen pc hc => exact { hi.go (.failing true) rfl (by rw [pc]; rfl) with }
  -- what was received is a dict whose type is hashable
  | unhashable pc hm => exact absurd hm (replyId_of_hashable (hi.message _ _ pc).2)
  | notReply pc => exact hi.pass pc
  | unknown pc => exact hi.pass pc
  | found pc => exact hi.go _ rfl (by rw [pc]; rfl)
  | deliver pc => exact { hi.go .loop rfl (by rw [pc]; rfl) with }
  | full pc => exact { hi.go .loop rfl (by rw [pc]; rfl) with }
  -- the handler's reply is a frame, or the condition fails
  | @handle n m id h frame b pc reply =>
    have hid := hi.handling n m id pc
    obtain ⟨data, b', hf⟩ := replyFrame_some cfg.py hid
      (by simpa [Orderly, orderly, hopen] using hok)
    obtain ⟨rfl, rfl⟩ := Prod.mk.inj (Option.some.inj (reply.symm.trans hf))
    exact { hi.reply hid (by rw [pc]; rfl) with }
  | @handleRaised n m id h pc reply =>
    obtain ⟨data, b', hf⟩ := replyFrame_some cfg.py (hi.handling n m id pc)
      (by simpa [Orderly, orderly, hopen] using hok)
    simp [hf] at reply
  | replied pc => exact hi.go _ rfl (by rw [pc]; rfl)
  -- the text of a failed send can be encoded, so the error reply is a frame as well
  | @returnFailed id m data e f pc frame reply =>
    obtain ⟨hid, hraised⟩ := hi.replying id false pc
    obtain ⟨data, hf⟩ := errorFrame_some cfg.py hid (hraised _ e frame rfl).2
    obtain rfl := Option.some.inj (reply.symm.trans hf)
    exact hi.reply hid (by rw [pc]; rfl)
  | @returnRaised id m data e pc frame reply =>
    obtain ⟨hid, hraised⟩ := hi.replying id false pc
    obtain ⟨data, hf⟩ := errorFrame_some cfg.py hid (hraised _ e frame rfl).2
    simp [hf] at reply
  | @errorFailed id m data e pc frame =>
    have := ((hi.replying id true pc).2 _ e frame rfl).1
    simp at this
  | @callback n m pc =>
    have htold := hi.told
    rw [pc] at htold
    refine { hi with running := by simp, told := ?_, message := by simp, handling := by simp,
                     replying := by simp }
    simp only [terminals, List.countP_append, List.countP_singleton] at htold ⊢
    simp [htold, PumpPc.told]
  | notifiedEnd pc hm =>
    exact { hi.go (.failing false) rfl (by simp [pc, hm, PumpPc.told]) with }
  | notifiedOn pc hm => exact hi.go _ rfl (by simp [pc, hm, PumpPc.told])
  | @leave announce e pc frame =>
    cases announce with
    | true => exact hi.go _ rfl (by rw [pc]; rfl)
    | false => exact hi.go _ rfl (by rw [pc]; rfl)
  | announce pc =>
    have htold := hi.told
    rw [pc] at htold
    refine { hi with running := by simp, told := ?_, message := by simp, handling := by simp,
                     replying := by simp }
    have heof : isTerminal eof = true := rfl
    simp only [terminals, List.countP_append, List.countP_singleton] at htold ⊢
    simp [htold, heof, PumpPc.told]
  | _ => exact { hi with }

/-! ### The end of a run -/

/-- Every call on the map was given its own reply or a failure, and the callback was passed one
terminal record. -/
def Announced (s : State) : Prop :=
  (∀ c i, (s.caller c).open? = some i → s.given c ≠ [] ∧ Settled i (s.given c)) ∧
    terminals s.callbacks = 1

theorem stopped_step {cfg : Config} {s s' : State} {a : Action} (h : Step cfg s a s')
    (hstart : s.pumpThread = false → s.pump = .absent) (hs : s.pump.stopped = true) :
    s'.pump.stopped = true := by
  cases h with
  | pumpStart ht => simp [hstart ht, PumpPc.stopped] at hs
  | _ => first | exact hs | simp_all [PumpPc.stopped]

/-- On an open channel the pump returns through its `_fail_pending` only. -/
theorem failed_step {cfg : Config} {s s' : State} {a : Action} (h : Step cfg s a s')
    (hopen : s.closed = false) (hi : s.pump.left = true → (s.fail .pump).isSome = true) :
    s'.pump.left = true → (s'.fail .pump).isSome = true := by
  have keep : ∀ t f, s.pump.left = true → (Function.update s.fail t (some f) .pump).isSome = true := by
    intro t f hl
    rcases eq_or_ne .pump t with rfl | hne
    · simp
    · rw [Function.update_of_ne hne]
      exact hi hl
  intro hl
  cases h with
  | failEnter => exact keep _ _ hl
  | failPut => exact keep _ _ hl
  | recvBad => simp [State.pumpFail, State.setFail]
  | failedOpen => simp [State.pumpFail, State.setFail]
  | notifiedEnd => simp [State.pumpFail, State.setFail]
  | leave pc frame => simp [frame]
  | announce pc => exact hi (by rw [pc]; rfl)
  | pumpTest => simp [hopen, PumpPc.left] at hl
  | pumpSettimeout =>
    dsimp only at hl
    split_ifs at hl <;> cases hl
  | notReply => simp [pass_left] at hl
  | unknown => simp [pass_left] at hl
  | _ => first | exact hi hl | cases hl

theorem opened_step {cfg : Config} {s s' : State} {a : Action} (h : Step cfg s a s')
    (hopen : s'.closed = false) : s.closed = false := by
  cases h with
  | closeSet => cases hopen
  | _ => exact hopen

/-- The condition for a call to come to its look at `closed`, as long as the pump is running. -/
theorem Orderly.timely {cfg : Config} {s : State} {a : Action} (h : Orderly cfg s a)
    (hrun : s.pump.stopped = false) : Timely s a := by
  cases a with
  | callLock c => simpa [Orderly, orderly, Timely, Channel.timely, hrun, or_comm] using h
  | _ => rfl

theorem reach_ending {cfg : Config} {s : State} (h : Reach (step cfg) (Orderly cfg) init s) :
    s.closed = false → Ending s ∧ (s.pump.left = true → (s.fail .pump).isSome = true) := by
  refine h.invariant_of (P := fun s => s.closed = false → Ending s ∧
    (s.pump.left = true → (s.fail .pump).isSome = true)) (fun _ hr => reach_inv hr)
    (fun _ => ⟨ending_init, by simp [init, PumpPc.left]⟩)
    fun s a s' inv hi hok hs hopen => ?_
  have hstep := step_sound hs
  have hopen₀ := opened_step hstep hopen
  obtain ⟨hend, hfail⟩ := hi hopen₀
  exact ⟨hend.step hstep hopen₀ hok inv.started hopen,
    failed_step hstep hopen₀ hfail⟩

/-- Until the pump stops, the map it has swept stays empty. -/
theorem reach_emptied_running {cfg : Config} {s : State}
    (h : Reach (step cfg) (Orderly cfg) init s) :
    s.pump.stopped = false → Emptied s.pending s.caller s.fail := by
  refine h.invariant_of (P := fun s => s.pump.stopped = false → Emptied s.pending s.caller s.fail)
    (fun _ hr => reach_inv hr) (by simp [Emptied, swept, init])
    fun s a s' inv hi hok hs hrun => ?_
  have hstep := step_sound hs
  have hrun₀ : s.pump.stopped = false := by
    by_contra hne
    simp [stopped_step hstep inv.started (by simpa using hne)] at hrun
  exact (hi hrun₀).step hstep (hok.timely hrun₀) inv.locked

theorem exits_announced (cfg : Config) (s s' : State) (a : Action)
    (h : Reach (step cfg) (Orderly cfg) init s) (hok : Orderly cfg s a)
    (hs : step cfg s a = some s') (hrun : s.pump.stopped = false)
    (hstop : s'.pump.stopped = true) (hopen : s'.closed = false) : Announced s' := by
  have hnext : Reach (step cfg) (Orderly cfg) init s' := h.next hok hs
  have inv := reach_inv hnext
  obtain ⟨hending, hfailed⟩ := reach_ending hnext hopen
  have hpump : s'.pump = .returned := by
    cases hp : s'.pump with
    | returned => rfl
    | raised => exact absurd hp hending.running
    | _ => simp [hp, PumpPc.stopped] at hstop
  obtain ⟨f, hf⟩ := Option.isSome_iff_exists.mp (hfailed (by rw [hpump]; rfl))
  have hpc := inv.fails.ended f hf (by simp [hpump])
  have hswept : swept s'.fail = true := by
    obtain ⟨e, p⟩ := f
    obtain rfl : p = .putting [] := hpc
    simp [swept, hf]
  have hempty := (reach_emptied_running h hrun).step (step_sound hs) (hok.timely hrun)
    (reach_inv h).locked hswept
  refine ⟨fun c i hc => ⟨?_, inv.items.settled hc⟩, by rw [hending.told, hpump]; rfl⟩
  rcases reach_answered hnext hempty.1 hf hpc hc with hg | ⟨hclosed, -⟩
  · exact hg
  · simp [hopen] at hclosed

theorem exits_announced_eof : ∃ s s', Reach (step (withTimeout 5)) (Orderly (withTimeout 5)) init s ∧
    step (withTimeout 5) s .pumpLeave = some s' ∧ s'.given 0 = [.failure closedError] ∧
      Announced s' := by
  have h : (runWhere (step (withTimeout 5)) (Orderly (withTimeout 5)) init
      (oneCall ++ readEof ++ [.failPut .pump])).map (fun s => decide (s.pump.stopped = false) &&
        ((step (withTimeout 5) s .pumpLeave).map fun s' => decide (s'.pump.stopped = true) &&
          decide (s'.closed = false) && decide (s'.given 0 = [.failure closedError])) ==
            some true) = some true := by
    decide +kernel
  obtain ⟨s, hs, hp⟩ := Option.map_eq_some_iff.mp h
  simp only [Bool.and_eq_true, decide_eq_true_eq, beq_iff_eq, Option.map_eq_some_iff] at hp
  obtain ⟨hrun, s', hs', ⟨hstop, hopen⟩, hgiven⟩ := hp
  have hr := Reach.of_runWhere hs
  exact ⟨s, s', hr, hs', hgiven, exits_announced (withTimeout 5) s s' .pumpLeave hr
    (by simp [Orderly, orderly]) hs' hrun hstop hopen⟩

def badType : Bytes := bytes "\x7b\"type\":[]\x7d"

/-- A record with an array for its type stops the pump with a TypeError. -/
theorem bad_type_unannounced :
    ¬∀ cfg s s' a, Reach (step cfg) Any init s → step cfg s a = some s' →
      s.pump.stopped = false → s'.pump.stopped = true → s'.closed = false → Announced s' := by
  intro hall
  have h : (run (step (withTimeout 5)) init
      [.pumpStart, .pumpTest, .pumpSettimeout, .pumpReceive (.data badType)]).map
        (fun s => decide (s.pump.stopped = false) &&
          ((step (withTimeout 5) s .pumpRoute).map fun s' => decide (s'.pump.stopped = true) &&
            decide (s'.closed = false) && decide (terminals s'.callbacks = 0)) == some true) =
          some true := by
    decide +kernel
  obtain ⟨s, hs, hp⟩ := Option.map_eq_some_iff.mp h
  simp only [Bool.and_eq_true, decide_eq_true_eq, beq_iff_eq, Option.map_eq_some_iff] at hp
  obtain ⟨hrun, s', hs', ⟨hstop, hopen⟩, hnone⟩ := hp
  have := (hall _ s s' _ (Reach.of_run hs) hs' hrun hstop hopen).2
  omega

end Msys.Channel
