import MsysSdk.Client.Routing

/-! Every send and every call that fails because the channel ended reports the error of the
attempt to terminate that took effect. -/

namespace Msys.Client
open Python Transition

/-- A send or a call has failed with an error of the client's own hierarchy. -/
def Fails (s : State) (e : Error) : Prop :=
  (∃ t m, s.send t = some ⟨m, .raised (.client e)⟩) ∨
    ∃ c, (s.caller c).result? = some (.raised (.client e))

/-- What the attempt that took effect has left. -/
def Cause (s : State) (e : Error) : Prop := s.closed = true ∧ s.terminalCallError = some e

/-- A send that failed at the socket, and found the client open then, still finds it open when
its own attempt starts, or ended with the same error. -/
def unraced (s : State) : Action → Bool
  | .termEnter t =>
    match s.send t with
    | some ⟨_, .terminating error⟩ => !s.closed || s.terminalCallError = some error
    | _ => true
  | _ => true

def Unraced (s : State) (a : Action) : Prop := unraced s a = true

instance (s : State) (a : Action) : Decidable (Unraced s a) :=
  inferInstanceAs (Decidable (_ = true))

section
variable {cfg : Config} {s s' : State} {a : Action}

theorem Step.cause_kept {e : Error} (h : Step cfg s a s') (hc : Cause s e) : Cause s' e := by
  cases h with
  | win term hopen => exact absurd (hc.1.symm.trans hopen) (by decide)
  | _ => exact hc

theorem Inv.cause_of_won {py : Interpreter} (hi : Inv py s) {t : Thread} {f : TermFrame}
    (ht : s.term t = some f) (hw : f.pc.won = true) : Cause s f.callError :=
  ⟨(hi.terms.cause t f ht hw).1, (hi.terms.cause t f ht hw).2.1⟩

theorem Inv.cause_callTerminalError {py : Interpreter} (hi : Inv py s) (hc : s.closed = true) :
    Cause s s.callTerminalError := by
  obtain ⟨t, f, ht, hw⟩ := hi.terms.winner hc
  obtain ⟨-, he⟩ := hi.cause_of_won ht hw
  refine ⟨hc, ?_⟩
  rw [State.callTerminalError, he]
  rfl

/-- A failure in a waiter was put there by the sweep of the attempt that took effect. -/
theorem Inv.cause_of_slot {py : Interpreter} (hi : Inv py s) {c : Nat} {x : Failure}
    (hslot : s.waiter c = some (.failure x)) : Cause s x.makeError := by
  obtain ⟨t, f, ht, hswept, rfl⟩ := hi.delivery.failures c x (hi.slots.held c _ hslot)
  exact hi.cause_of_won ht (TermPc.won_of_swept hswept)

/-! ### The errors of sends and calls -/

theorem send_update {P : Error → Prop} {send : Thread → Option SendFrame} {t : Thread}
    {f : SendFrame} (h : ∀ u m e, send u = some ⟨m, .raised (.client e)⟩ → P e)
    (hf : ∀ e, f.pc = .raised (.client e) → P e) :
    ∀ u m e, Function.update send t (some f) u = some ⟨m, .raised (.client e)⟩ → P e := by
  intro u m e hu
  rcases eq_or_ne u t with rfl | hne
  · rw [Function.update_self, Option.some.injEq] at hu
    exact hf e (by rw [hu])
  · exact h u m e (by rwa [Function.update_of_ne hne] at hu)

theorem call_update {P : Error → Prop} {caller : Nat → CallPc} {c : Nat} {pc : CallPc}
    (h : ∀ d e, (caller d).result? = some (.raised (.client e)) → P e)
    (hpc : ∀ e, pc.result? = some (.raised (.client e)) → P e) :
    ∀ d e, (Function.update caller c pc d).result? = some (.raised (.client e)) → P e := by
  intro d e hd
  rcases eq_or_ne d c with rfl | hne
  · exact hpc e (by rwa [Function.update_self] at hd)
  · exact h d e (by rwa [Function.update_of_ne hne] at hd)

/-- A send that failed at the socket is to raise the error of its own attempt. -/
structure Own (s : State) (t : Thread) (e : Error) (f : TermFrame) : Prop where
  term : s.term t = some f
  callError : f.callError = e
  cause : f.pc ≠ .enter → Cause s e

structure SameCause (s : State) : Prop where
  send : ∀ t m e, s.send t = some ⟨m, .raised (.client e)⟩ → Cause s e
  call : ∀ c e, (s.caller c).result? = some (.raised (.client e)) → Cause s e
  own : ∀ t m e, s.send t = some ⟨m, .terminating e⟩ → ∃ f, Own s t e f

theorem beginSend_not_client {py : Interpreter} {v : Value} {e : Error} :
    (beginSend py v).pc ≠ .raised (.client e) := by
  unfold beginSend encodeForSend
  split
  next e' he =>
    split at he
    · cases he
      simp
    · split_ifs at he
      cases he
      simp
  next => simp

theorem sends_step (h : Step cfg s a s') (inv : Inv cfg.py s) (hi : SameCause s) :
    ∀ t m e, s'.send t = some ⟨m, .raised (.client e)⟩ → Cause s' e := by
  have kept : ∀ t m e, s.send t = some ⟨m, .raised (.client e)⟩ → Cause s' e :=
    fun t m e ht => h.cause_kept (hi.send t m e ht)
  have terminal : s.closed = true → ∀ e,
      SendPc.raised (.client s.callTerminalError) = .raised (.client e) → Cause s' e := by
    intro hc e he
    cases he
    exact h.cause_kept (inv.cause_callTerminalError hc)
  cases h with
  | callSend pc => exact send_update kept fun e he => absurd he beginSend_not_client
  | senderStart frame => exact send_update kept fun e he => absurd he beginSend_not_client
  | testClosed frame hc => exact send_update kept (terminal hc)
  | lockedClosed frame lock hc => exact send_update kept (terminal hc)
  | failedClosed frame hc => exact send_update kept (terminal hc)
  | sendRaise frame term =>
    refine send_update kept fun e he => ?_
    cases he
    obtain ⟨f, hterm, rfl, hcause⟩ := hi.own _ _ _ frame
    obtain rfl := Option.some.inj (hterm.symm.trans term)
    exact hcause (by simp)
  | _ => first | exact kept | exact send_update kept (by simp)

theorem calls_step (h : Step cfg s a s') (inv : Inv cfg.py s) (hi : SameCause s) :
    ∀ c e, (s'.caller c).result? = some (.raised (.client e)) → Cause s' e := by
  have kept : ∀ c e, (s.caller c).result? = some (.raised (.client e)) → Cause s' e :=
    fun c e hc => h.cause_kept (hi.call c e hc)
  have terminal : s.closed = true → ∀ e,
      some (Outcome.raised (.client s.callTerminalError)) = some (.raised (.client e)) →
        Cause s' e := by
    intro hc e he
    cases he
    exact h.cause_kept (inv.cause_callTerminalError hc)
  have taken : ∀ {c item}, s.waiter c = some item → ∀ e,
      some item.outcome = some (.raised (.client e)) → Cause s' e := by
    intro c item hslot e he
    cases item with
    | record n m => cases he
    | failure x =>
      cases he
      exact h.cause_kept (inv.cause_of_slot hslot)
  cases h with
  | ensureClosed pc hc => exact call_update kept (terminal hc)
  | lockClosed pc lock hc => exact call_update kept (terminal hc)
  | notSent pc frame =>
    refine call_update kept fun e he => ?_
    cases he
    exact hi.send _ _ e frame
  | get pc slot => exact call_update kept (taken slot)
  | recheckItem pc lock slot => exact call_update kept (taken slot)
  | finish pc lock =>
    refine call_update kept fun e he => ?_
    exact hi.call _ e (by rw [pc]; exact he)
  | _ => first | exact kept | exact call_update kept (by simp [CallPc.result?, timedOut])

theorem terminating_of (h : Step cfg s a s') {t : Thread} {m : Value} {e : Error}
    (ht : s'.send t = some ⟨m, .terminating e⟩) : s.send t = some ⟨m, .terminating e⟩ ∨
      s'.term t = some ⟨e, none, some e, .enter⟩ := by
  have other : ∀ {u f}, f.pc ≠ .terminating e →
      Function.update s.send u (some f) t = some ⟨m, .terminating e⟩ →
      s.send t = some ⟨m, .terminating e⟩ := by
    intro u f hf hu
    rcases eq_or_ne t u with rfl | hne
    · rw [Function.update_self, Option.some.injEq] at hu
      exact absurd (by rw [hu]) hf
    · rwa [Function.update_of_ne hne] at hu
  have fresh : ∀ {v}, (beginSend cfg.py v).pc ≠ .terminating e := by
    intro v
    unfold beginSend
    split <;> simp
  cases h with
  | @failedOpen u m' text frame hc =>
    have hsend : Function.update s.send u (some ⟨m', .terminating (sendError text)⟩) t =
        some ⟨m, .terminating e⟩ := ht
    rcases eq_or_ne t u with rfl | hne
    · rw [Function.update_self] at hsend
      cases hsend
      exact .inr (Function.update_self ..)
    · exact .inl (by rwa [Function.update_of_ne hne] at hsend)
  | callSend pc => exact .inl (other fresh ht)
  | senderStart frame => exact .inl (other fresh ht)
  | _ => first | exact .inl ht | exact .inl (other (by simp) ht)

/-- An attempt is past its look at `_closed` when it takes effect or finds the client closed. -/
theorem entered_of (h : Step cfg s a s') {t : Thread} {f g : TermFrame} (hg : s.term t = some g)
    (hf : s'.term t = some f) (hpc : f.pc ≠ .enter) :
    g.pc ≠ .enter ∨ a = .termEnter t ∧ (s.closed = true ∨ Cause s' f.callError) := by
  have same : s.term t = some f → g.pc ≠ .enter := fun hs =>
    Option.some.inj (hs.symm.trans hg) ▸ hpc
  have key : ∀ {u f'} {Q : Prop}, Function.update s.term u (some f') t = some f →
      (t = u → f' = f → g.pc ≠ .enter ∨ Q) → g.pc ≠ .enter ∨ Q := by
    intro u f' Q hu hq
    rcases eq_or_ne t u with rfl | hne
    · exact hq rfl (by rwa [Function.update_self, Option.some.injEq] at hu)
    · exact .inl (same (by rwa [Function.update_of_ne hne] at hu))
  -- a frame that moves on, on the thread where it stands
  have moves : ∀ {u f' p}, s.term u = some p → t = u → p.pc ≠ .enter → f' = f →
      g.pc ≠ .enter := by
    rintro u f' p hp rfl hne -
    exact Option.some.inj (hp.symm.trans hg) ▸ hne
  cases h with
  | late term hc => exact key hf fun htu _ => .inr ⟨by rw [htu], .inl hc⟩
  | win term hc =>
    refine key hf fun htu hfe => .inr ⟨by rw [htu], .inr ⟨rfl, ?_⟩⟩
    rw [← hfe]
  | sweep term => exact key hf fun htu hfe => .inl (moves term htu (by simp) hfe)
  | fail term => exact key hf fun htu hfe => .inl (moves term htu (by simp) hfe)
  | release term => exact key hf fun htu hfe => .inl (moves term htu (by simp) hfe)
  | announce term => exact key hf fun htu hfe => .inl (moves term htu (by simp) hfe)
  | _ =>
    first
    | exact .inl (same hf)
    | exact key hf fun _ hfe => absurd (hfe ▸ rfl) hpc

theorem own_step (h : Step cfg s a s') (inv : Inv cfg.py s) (hok : Unraced s a)
    (hi : SameCause s) :
    ∀ t m e, s'.send t = some ⟨m, .terminating e⟩ → ∃ f, Own s' t e f := by
  intro t m e ht
  rcases terminating_of h ht with hold | hnew
  · obtain ⟨g, hterm, rfl, hcause⟩ := hi.own t m e hold
    obtain ⟨f, hf, hadv⟩ := h.term_kept inv.sends inv.frames hterm
    refine ⟨f, hf, hadv.callError, fun hpc => ?_⟩
    rcases entered_of h hterm hf hpc with hg | ⟨rfl, hclosed | hwon⟩
    · exact h.cause_kept (hcause hg)
    · refine h.cause_kept ⟨hclosed, ?_⟩
      simpa [Unraced, unraced, hold, hclosed] using hok
    · exact hadv.callError ▸ hwon
  · exact ⟨_, hnew, rfl, fun hpc => absurd rfl hpc⟩

theorem SameCause.step (h : Step cfg s a s') (inv : Inv cfg.py s) (hok : Unraced s a)
    (hi : SameCause s) : SameCause s' :=
  ⟨sends_step h inv hi, calls_step h inv hi, own_step h inv hok hi⟩

end

theorem reach_sameCause {cfg : Config} {s : State} (h : Reach (step cfg) Unraced init s) :
    SameCause s :=
  h.invariant_of (fun _ hr => reach_inv hr)
    ⟨by simp [init], by simp [init, CallPc.result?], by simp [init]⟩
    fun _ _ _ inv hi hok hs => hi.step (step_sound hs) inv hok

/-- One attempt took effect, and its error is the one reported. -/
theorem same_cause (cfg : Config) (s : State) (h : Reach (step cfg) Unraced init s) (e : Error)
    (he : Fails s e) :
    ∃ t f, s.term t = some f ∧ f.pc.won = true ∧ f.callError = e ∧
      ∀ u g, s.term u = some g → g.pc.won = true → u = t := by
  have hi := reach_sameCause h
  have inv := reach_inv h
  obtain ⟨hclosed, hcause⟩ : Cause s e := by
    rcases he with ⟨t, m, ht⟩ | ⟨c, hc⟩
    · exact hi.send t m e ht
    · exact hi.call c e hc
  obtain ⟨t, f, ht, hw⟩ := inv.terms.winner hclosed
  refine ⟨t, f, ht, hw, ?_, fun u g hu hg => inv.terms.unique u t g f hu ht hg hw⟩
  exact Option.some.inj ((inv.cause_of_won ht hw).2.symm.trans hcause)

def shutdownRecord : Bytes := bytes "\x7b\"type\":\"shutdown\"\x7d"

def shutdownError : Error := ⟨.shutdown, [str "msysd requested shutdown"]⟩

/-- A send at the socket, and the reader there too. -/
def sendingAndReading : List Action :=
  [.recvStart, .readerTest, .senderStart 0, .sendTest (.sender 0), .sendLocked (.sender 0)]

/-- The shutdown takes effect before the failed send looks at `_closed`. -/
theorem same_cause_shutdown : ∃ s t f, Reach (step (withTimeout 5)) Unraced init s ∧
    Fails s shutdownError ∧ s.term t = some f ∧ f.callError = shutdownError := by
  have h : (runWhere (step (withTimeout 5)) Unraced init (sendingAndReading ++
      [.readerRead (.data shutdownRecord), .termEnter .reader,
        .sendSendall (.sender 0) (some (str "[Errno 32] Broken pipe")),
        .sendFailed (.sender 0)])).map (fun s => decide (s.send (.sender 0) =
          some ⟨.none, .raised (.client shutdownError)⟩)) = some true := by
    decide +kernel
  obtain ⟨s, hs, hp⟩ := Option.map_eq_some_iff.mp h
  have hr := Reach.of_runWhere hs
  have hfails : Fails s shutdownError := .inl ⟨_, _, of_decide_eq_true hp⟩
  obtain ⟨t, f, hterm, -, herror, -⟩ := same_cause _ s hr _ hfails
  exact ⟨s, t, f, hr, hfails, hterm, herror⟩

/-- The shutdown takes effect after that look, and `send` raises its own MsysConnectionClosed. -/
theorem send_raises_own_error :
    ¬∀ cfg s, Reach (step cfg) Any init s → ∀ e, Fails s e →
      ∃ t f, s.term t = some f ∧ f.pc.won = true ∧ f.callError = e := by
  intro hall
  have h : (run (step (withTimeout 5)) init (sendingAndReading ++
      [.sendSendall (.sender 0) (some (str "[Errno 32] Broken pipe")), .sendFailed (.sender 0),
        .readerRead (.data shutdownRecord), .termEnter .reader, .termEnter (.sender 0),
        .sendRaise (.sender 0)])).map (fun s => decide (s.send (.sender 0) =
          some ⟨.none, .raised (.client (sendError (str "[Errno 32] Broken pipe")))⟩ ∧
          s.term .reader = some ⟨shutdownError, some [(.str (str "type"), .str (str "shutdown"))],
            none, .sweep⟩)) = some true := by
    decide +kernel
  obtain ⟨s, hs, hp⟩ := Option.map_eq_some_iff.mp h
  obtain ⟨hsend, hreader⟩ := of_decide_eq_true hp
  have hr := Reach.of_run hs
  obtain ⟨t, f, hterm, hw, he⟩ := hall _ s hr _ (.inl ⟨_, _, hsend⟩)
  -- the reader's attempt is the one that took effect
  obtain rfl := (reach_inv hr).terms.unique t .reader f _ hterm hreader hw rfl
  obtain rfl := Option.some.inj (hterm.symm.trans hreader)
  revert he
  decide

end Msys.Client
