import MsysSdk.Client.Routing

/-! Termination: of any number of attempts one takes effect, and after it nobody waits. -/

namespace Msys.Client
open Python Transition

/-- An attempt that has returned stays as it is. -/
theorem reach_term_returned {cfg : Config} {s s' : State} (h : Reach (step cfg) Any s s')
    (hs : Reach (step cfg) Any init s) {t : Thread} {f : TermFrame} {b : Bool}
    (ht : s.term t = some f) (hp : f.pc = .returned b) : s'.term t = some f := by
  -- on the run after `s`; no step moves a frame that has returned
  induction h with
  | start => exact ht
  | next hr _ hstep ih =>
    have inv := reach_inv (hs.trans hr)
    obtain ⟨f', hf', hadv⟩ := (step_sound hstep).term_kept inv.sends inv.frames ih
    obtain rfl := hadv.returned b hp
    exact hf'

/-- Nothing that a call could wait for is missing once the attempt `f` has returned. -/
structure Terminated (f : TermFrame) (s : State) : Prop where
  cause : s.closed = true ∧ s.terminalCallError = some f.callError ∧
    s.terminalRecvError = f.recvError
  item : s.enqueued.countP InboxItem.isTerminal = 1
  empty : s.pending = ∅
  refused : ∀ c, s.caller c ≠ .registering
  given : ∀ c i, (s.caller c).open? = some i → s.given c ≠ [] ∧ ∀ item ∈ s.given c,
    (∃ k m, item = .record (some k) m ∧ replyId m = .ok (some i)) ∨
      item = .failure (.fromError f.callError)

theorem Inv.terminated {py : Interpreter} {s : State} (hi : Inv py s) {t : Thread} {f : TermFrame}
    (ht : s.term t = some f) (hp : f.pc = .returned true) : Terminated f s := by
  have hw : f.pc.won = true := by simp [hp, TermPc.won]
  have hswept : f.pc.swept = true := by simp [hp, TermPc.swept]
  refine ⟨hi.terms.cause t f ht hw, hi.mailbox.announced t f ht hp,
    hi.table.cleared t f ht hswept, fun c hc => ?_, fun c i hc => ⟨?_, fun item hitem => ?_⟩⟩
  · have := hi.lock.exclusive c t f hc ht
    simp [hswept] at this
  · rcases hi.covered c i hc with hl | ⟨u, g, hu, hg⟩ | hg
    · simp [hi.table.cleared t f ht hswept] at hl
    · -- a sweep still at work would be a second winner
      have hgw : g.pc.won = true := by
        cases hpc : g.pc with
        | sweeping ws => rfl
        | _ => simp [hpc, TermPc.waiters] at hg
      obtain rfl := hi.terms.unique t u f g ht hu hw hgw
      obtain rfl := Option.some.inj (ht.symm.trans hu)
      simp [hp, TermPc.waiters] at hg
    · exact hg
  · cases item with
    | record n m =>
      obtain ⟨k, rfl, hk⟩ := hi.delivery.records c n m hitem
      obtain ⟨-, j, hj, hm⟩ := hi.delivery.routed c k m hk
      obtain rfl := Option.some.inj ((CallPc.id?_of_open hc).symm.trans hj)
      exact .inl ⟨k, m, rfl, hm⟩
    | failure x =>
      obtain ⟨u, g, hu, hg, rfl⟩ := hi.delivery.failures c x hitem
      obtain rfl := hi.terms.unique t u f g ht hu hw (TermPc.won_of_swept hg)
      obtain rfl := Option.some.inj (ht.symm.trans hu)
      exact .inr rfl

/-! An attempt past its look at `_closed` has won or found a winner. -/

theorem past_update {closed : Bool} {term : Thread → Option TermFrame} {t : Thread} {f : TermFrame}
    (h : ∀ u g, term u = some g → g.pc ≠ .enter → closed = true)
    (hf : f.pc ≠ .enter → closed = true ∨ ∃ g, term t = some g ∧ g.pc ≠ .enter) :
    ∀ u g, Function.update term t (some f) u = some g → g.pc ≠ .enter → closed = true := by
  intro u g hu hg
  rcases eq_or_ne u t with rfl | hne
  · rw [Function.update_self, Option.some.injEq] at hu
    rcases hf (hu ▸ hg) with hc | ⟨g', hg', hp⟩
    · exact hc
    · exact h u g' hg' hp
  · exact h u g (by rwa [Function.update_of_ne hne] at hu) hg

theorem Step.past {cfg : Config} {s s' : State} {a : Action} (h : Step cfg s a s')
    (hi : ∀ t f, s.term t = some f → f.pc ≠ .enter → s.closed = true) :
    ∀ t f, s'.term t = some f → f.pc ≠ .enter → s'.closed = true := by
  cases h with
  | late term hc => exact past_update hi fun _ => .inl hc
  | win => exact fun _ _ _ _ => rfl
  | sweep term => exact past_update hi fun _ => .inr ⟨_, term, by simp⟩
  | @fail t e i r c ws term =>
    exact past_update hi fun _ => .inr ⟨_, term, by simp⟩
  | release term => exact past_update hi fun _ => .inr ⟨_, term, by simp⟩
  | announce term => exact past_update hi fun _ => .inr ⟨_, term, by simp⟩
  | _ => first | exact hi | exact past_update hi (by simp)

theorem reach_winner {cfg : Config} {s : State} (h : Reach (step cfg) Any init s) {t : Thread}
    {f : TermFrame} (ht : s.term t = some f) (hp : f.pc ≠ .enter) :
    ∃ u g, s.term u = some g ∧ g.pc.won = true := by
  have hpast := h.invariant (P := fun s => ∀ t f, s.term t = some f → f.pc ≠ .enter →
    s.closed = true) (by simp [init]) fun _ _ _ hi _ hs => (step_sound hs).past hi
  exact (reach_inv h).terms.winner (hpast t f ht hp)

theorem terminate_once (cfg : Config) (s : State) (h : Reach (step cfg) Any init s) :
    (∀ t u f g, s.term t = some f → s.term u = some g → f.pc.won = true → g.pc.won = true →
      t = u) ∧
    (∀ t f, s.term t = some f → f.pc ≠ .enter → ∃ u g, s.term u = some g ∧ g.pc.won = true) ∧
    ((∀ t f, s.term t = some f → f.pc ≠ .returned true) →
      s.enqueued.countP InboxItem.isTerminal = 0) ∧
    ∀ t f, s.term t = some f → f.pc = .returned true →
      ∀ s', Reach (step cfg) Any s s' → Terminated f s' :=
  ⟨(reach_inv h).terms.unique, fun _ _ => reach_winner h, (reach_inv h).mailbox.silent,
    fun _ _ ht hp _ h' => (reach_inv (h.trans h')).terminated (reach_term_returned h' h ht hp) hp⟩

/-- A local close with one call waiting. -/
theorem terminate_once_close : ∃ s f, Reach (step (withTimeout 5)) Any init s ∧
    (s.caller 0).open? = some 1 ∧ s.term (.closer 0) = some f ∧ Terminated f s := by
  have h : (run (step (withTimeout 5)) init (oneCall ++ [.closeStart 0, .termEnter (.closer 0),
      .termSweep (.closer 0), .termPut (.closer 0), .termRelease (.closer 0),
      .termAnnounce (.closer 0)])).map (fun s => decide ((s.caller 0).open? = some 1 ∧
        s.term (.closer 0) = some ⟨closeError, some eof, none, .returned true⟩)) =
          some true := by
    decide +kernel
  obtain ⟨s, hs, hp⟩ := Option.map_eq_some_iff.mp h
  obtain ⟨hopen, hterm⟩ := of_decide_eq_true hp
  have hr := Reach.of_run hs
  exact ⟨s, _, hr, hopen, hterm, (terminate_once _ s hr).2.2.2 _ _ hterm rfl s .start⟩

end Msys.Client
