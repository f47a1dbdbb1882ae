import MsysSdk.Client.Steps
import Mathlib.Tactic.Common

/-! Invariants of the program counters: request ids are handed out once, a thread runs at
most one `send` and enters `_terminate` at most once, and one attempt wins. -/

namespace Msys.Client
open Python

def CallPc.id? : CallPc → Option Int
  | .registered i | .sending i | .waiting i | .expired i | .finishing i _ => some i
  | .done i _ => i
  | _ => none

def CallPc.beforeSend : CallPc → Bool
  | .start | .enter | .registering | .registered _ => true
  | _ => false

def Exc.isTimeout : Exc → Bool
  | .timeoutError _ => true
  | _ => false

def Outcome.isTimeout : Outcome → Bool
  | .raised e => e.isTimeout
  | .returned .. => false

/-- What `send` itself may raise. -/
def Exc.ofSend : Exc → Bool
  | .client _ | .valueError _ | .dumps _ => true
  | _ => false

def SendPc.late : SendPc → Bool
  | .terminating _ | .raised _ => true
  | _ => false

def ReaderPc.late : ReaderPc → Bool
  | .terminating | .stopped => true
  | _ => false

/-- The attempt found the client open and closed it. -/
def TermPc.won : TermPc → Bool
  | .sweep | .sweeping _ | .announce | .returned true => true
  | _ => false

/-- The attempt has emptied the map. -/
def TermPc.swept : TermPc → Bool
  | .sweeping _ | .announce | .returned true => true
  | _ => false

/-- The waiters an attempt has still to fail. -/
def TermPc.waiters : TermPc → List Nat
  | .sweeping ws => ws
  | _ => []

theorem TermPc.won_of_swept {p : TermPc} (h : p.swept = true) : p.won = true := by
  cases p with
  | returned b => cases b <;> simp_all [swept, won]
  | _ => simp_all [swept, won]

@[simp] theorem Outcome.isTimeout_raised (e : Exc) : (Outcome.raised e).isTimeout = e.isTimeout := rfl

@[simp] theorem Exc.isTimeout_client (e : Error) : (Exc.client e).isTimeout = false := rfl

theorem Exc.isTimeout_of_ofSend {e : Exc} (h : e.ofSend = true) : e.isTimeout = false := by
  cases e <;> simp_all [ofSend, isTimeout]

@[simp] theorem Exc.isTimeout_deadline : Exc.deadline.isTimeout = false := rfl

@[simp] theorem Exc.isTimeout_overflow : Exc.overflowError.isTimeout = false := rfl

@[simp] theorem isTimeout_timedOut (a : CallArgs) : (timedOut a).isTimeout = true := rfl

@[simp] theorem InboxItem.outcome_isTimeout (item : InboxItem) : item.outcome.isTimeout = false := by
  cases item <;> rfl

/-! ### Request ids -/

theorem ids_step {cfg : Config} {s s' : State} {a : Action} (h : Step cfg s a s')
    (hi : Waiters.Ids CallPc.id? s.caller s.nextId) :
    Waiters.Ids CallPc.id? s'.caller s'.nextId := by
  cases h with
  | register pc => exact hi.register rfl
  | _ => first | exact hi | exact hi.update (by simp [CallPc.id?, *])

/-! ### Frames of send -/

structure Sends (caller : Nat → CallPc) (send : Thread → Option SendFrame) : Prop where
  unsent : ∀ c, (caller c).beforeSend = true → send (.caller c) = none
  raised : ∀ t m e, send t = some ⟨m, .raised e⟩ → e.ofSend = true
  reader : send .reader = none
  closer : ∀ k, send (.closer k) = none

theorem Sends.caller_update {caller : Nat → CallPc} {send : Thread → Option SendFrame} {c : Nat}
    {pc : CallPc} (h : Sends caller send)
    (hpc : pc.beforeSend = true → (caller c).beforeSend = true) :
    Sends (Function.update caller c pc) send := by
  refine { h with unsent := fun d hd => h.unsent d ?_ }
  rcases eq_or_ne d c with rfl | hne
  · rw [Function.update_self] at hd
    exact hpc hd
  · rwa [Function.update_of_ne hne] at hd

theorem Sends.send_update {caller : Nat → CallPc} {send : Thread → Option SendFrame} {t : Thread}
    {f : SendFrame} (h : Sends caller send)
    (ht : ∀ c, t = .caller c → (caller c).beforeSend = false)
    (hr : t ≠ .reader) (hk : ∀ k, t ≠ .closer k)
    (hf : ∀ m e, f = ⟨m, .raised e⟩ → e.ofSend = true) :
    Sends caller (Function.update send t (some f)) := by
  refine ⟨fun c hc => ?_, fun u m e hu => ?_, ?_, fun k => ?_⟩
  · have hne : Thread.caller c ≠ t := by
      intro heq
      simp [ht c heq.symm] at hc
    rw [Function.update_of_ne hne, h.unsent c hc]
  · rcases eq_or_ne u t with rfl | hne
    · rw [Function.update_self, Option.some.injEq] at hu
      exact hf m e hu
    · rw [Function.update_of_ne hne] at hu
      exact h.raised u m e hu
  · rw [Function.update_of_ne hr.symm, h.reader]
  · rw [Function.update_of_ne (hk k).symm, h.closer]

/-- A frame that is there belongs to a caller past its registration or to a sender. -/
theorem Sends.send_advance {caller : Nat → CallPc} {send : Thread → Option SendFrame} {t : Thread}
    {f g : SendFrame} (h : Sends caller send) (hg : send t = some g)
    (hf : ∀ m e, f = ⟨m, .raised e⟩ → e.ofSend = true) :
    Sends caller (Function.update send t (some f)) := by
  refine h.send_update (fun c hc => ?_) (fun hr => ?_) (fun k hk => ?_) hf
  · subst hc
    by_contra hb
    simp [h.unsent c (by simpa using hb)] at hg
  · simp [hr, h.reader] at hg
  · simp [hk, h.closer] at hg

theorem beginSend_raised {py : Interpreter} {v m : Value} {e : Exc}
    (h : beginSend py v = ⟨m, .raised e⟩) : e.ofSend = true := by
  unfold beginSend encodeForSend at h
  grind [Exc.ofSend]

theorem Sends.step {cfg : Config} {s s' : State} {a : Action} (h : Step cfg s a s')
    (hi : Sends s.caller s.send) : Sends s'.caller s'.send := by
  cases h with
  | @callSend c id d pc =>
    have hc : Sends (Function.update s.caller c (.sending id)) s.send :=
      hi.caller_update (by simp [CallPc.beforeSend])
    refine hc.send_update (fun c' hc' => ?_) (by simp) (by simp) fun m e => beginSend_raised
    cases hc'
    simp [CallPc.beforeSend]
  | senderStart frame =>
    exact hi.send_update (by simp) (by simp) (by simp) fun m e => beginSend_raised
  | _ =>
    first
    | exact hi
    | exact hi.caller_update (by simp [CallPc.beforeSend, *])
    | exact hi.send_advance (by assumption) (by simp +contextual [Exc.ofSend])

/-! ### Frames of _terminate -/

structure Frames (send : Thread → Option SendFrame) (term : Thread → Option TermFrame)
    (reader : ReaderPc) : Prop where
  entered : ∀ t f, term t = some f →
    (t = .reader ∧ reader.late = true) ∨ (∃ k, t = .closer k) ∨
      ∃ g, send t = some g ∧ g.pc.late = true

theorem Frames.send_update {send : Thread → Option SendFrame} {term : Thread → Option TermFrame}
    {reader : ReaderPc} {t : Thread} {f : SendFrame} (h : Frames send term reader)
    (hf : ∀ g, send t = some g → g.pc.late = true → f.pc.late = true) :
    Frames (Function.update send t (some f)) term reader := by
  refine ⟨fun u g hu => ?_⟩
  rcases h.entered u g hu with hr | hk | ⟨g', hg', hl⟩
  · exact .inl hr
  · exact .inr (.inl hk)
  · refine .inr (.inr ?_)
    rcases eq_or_ne u t with rfl | hne
    · exact ⟨f, Function.update_self .., hf g' hg' hl⟩
    · exact ⟨g', by rw [Function.update_of_ne hne, hg'], hl⟩

theorem Frames.reader_update {send : Thread → Option SendFrame}
    {term : Thread → Option TermFrame} {reader reader' : ReaderPc} (h : Frames send term reader)
    (hr : reader.late = true → reader'.late = true) : Frames send term reader' :=
  ⟨fun t f ht => (h.entered t f ht).imp_left fun ⟨ht, hl⟩ => ⟨ht, hr hl⟩⟩

theorem Frames.term_update {send : Thread → Option SendFrame} {term : Thread → Option TermFrame}
    {reader : ReaderPc} {t : Thread} {f : TermFrame} (h : Frames send term reader)
    (ht : (t = .reader ∧ reader.late = true) ∨ (∃ k, t = .closer k) ∨
      ∃ g, send t = some g ∧ g.pc.late = true) :
    Frames send (Function.update term t (some f)) reader := by
  refine ⟨fun u g hu => ?_⟩
  rcases eq_or_ne u t with rfl | hne
  · exact ht
  · exact h.entered u g (by rwa [Function.update_of_ne hne] at hu)

theorem State.startReader_late (s : State) (h : s.reader.late = true) :
    s.startReader.reader.late = true := by
  unfold State.startReader
  split_ifs with ha
  · simp [ha, ReaderPc.late] at h
  · exact h

theorem Frames.step {cfg : Config} {s s' : State} {a : Action} (h : Step cfg s a s')
    (hs : Sends s.caller s.send) (hi : Frames s.send s.term s.reader) :
    Frames s'.send s'.term s'.reader := by
  cases h with
  | @callSend c id d pc =>
    have hnone := hs.unsent c (by simp [CallPc.beforeSend, pc])
    exact hi.send_update (by simp [hnone])
  | senderStart frame => exact hi.send_update (by simp [frame])
  | failedOpen frame hc =>
    exact (hi.send_update (by simp [SendPc.late])).term_update
      (.inr (.inr ⟨_, Function.update_self .., rfl⟩))
  | ensureOpen pc hc => exact hi.reader_update s.startReader_late
  | recvStart pc =>
    refine hi.reader_update fun hl => ?_
    split_ifs
    · exact hl
    · exact s.startReader_late hl
  | readerTest pc => exact hi.reader_update (by simp [ReaderPc.late, pc])
  | closeStart term => exact hi.term_update (.inr (.inl ⟨_, rfl⟩))
  | _ =>
    first
    | exact hi
    | exact hi.send_update (by simp [SendPc.late, *])
    | exact hi.term_update (hi.entered _ _ (by assumption))
    | exact hi.reader_update (by simp [ReaderPc.late, *])
    | exact Frames.term_update (hi.reader_update fun _ => rfl) (.inl ⟨rfl, rfl⟩)

theorem Frames.not_entered {send : Thread → Option SendFrame} {term : Thread → Option TermFrame}
    {reader : ReaderPc} {caller : Nat → CallPc} {t : Thread} {g : SendFrame}
    (h : Frames send term reader) (hs : Sends caller send) (hg : send t = some g)
    (hl : g.pc.late = false) : term t = none := by
  rw [Option.eq_none_iff_forall_ne_some]
  intro f hf
  rcases h.entered t f hf with ⟨rfl, -⟩ | ⟨k, rfl⟩ | ⟨g', hg', hl'⟩
  · simp [hs.reader] at hg
  · simp [hs.closer] at hg
  · simp_all

theorem Frames.reader_not_entered {caller : Nat → CallPc} {send : Thread → Option SendFrame}
    {term : Thread → Option TermFrame} {reader : ReaderPc} (h : Frames send term reader)
    (hs : Sends caller send) (hl : reader.late = false) : term .reader = none := by
  rw [Option.eq_none_iff_forall_ne_some]
  intro f hf
  rcases h.entered _ f hf with ⟨-, hl'⟩ | ⟨k, hk⟩ | ⟨g, hg, -⟩
  · simp [hl] at hl'
  · cases hk
  · simp [hs.reader] at hg

/-- What a step may do to the frame `g` of an attempt, on thread `t`. -/
structure Advance (a : Action) (t : Thread) (g f : TermFrame) : Prop where
  callError : f.callError = g.callError
  swept : g.pc.swept = true → f.pc.swept = true
  waiters : ∀ c ∈ g.pc.waiters, c ∈ f.pc.waiters ∨ ∃ ws, a = .termPut t ∧ g.pc = .sweeping (c :: ws)
  returned : ∀ b, g.pc = .returned b → f = g

theorem Advance.refl (a : Action) (t : Thread) (g : TermFrame) : Advance a t g g :=
  ⟨rfl, id, fun _ => .inl, fun _ _ => rfl⟩

/-- An attempt that has no waiters at hand goes on. -/
theorem Advance.next {a : Action} {t : Thread} {e : Error} {i : Option Dict} {r : Option Error}
    {p p' : TermPc} (hs : p.swept = true → p'.swept = true) (hw : p.waiters = [])
    (hr : ∀ b, p ≠ .returned b) : Advance a t ⟨e, i, r, p⟩ ⟨e, i, r, p'⟩ :=
  ⟨rfl, hs, by simp [hw], fun b hb => absurd hb (hr b)⟩

/-- A frame that is replaced, or put where there was none. -/
theorem advance_update {a : Action} {term : Thread → Option TermFrame} {t u : Thread}
    {f g : TermFrame} (hg : term t = some g) (hf : t = u → Advance a t g f) :
    ∃ f', Function.update term u (some f) t = some f' ∧ Advance a t g f' := by
  rcases eq_or_ne t u with rfl | hne
  · exact ⟨f, Function.update_self .., hf rfl⟩
  · exact ⟨g, by rwa [Function.update_of_ne hne], .refl a t g⟩

theorem Step.term_kept {cfg : Config} {s s' : State} {a : Action} (h : Step cfg s a s')
    (hs : Sends s.caller s.send) (hf : Frames s.send s.term s.reader) {t : Thread} {g : TermFrame}
    (hg : s.term t = some g) : ∃ f, s'.term t = some f ∧ Advance a t g f := by
  have fresh : ∀ u f, s.term u = none →
      ∃ f', Function.update s.term u (some f) t = some f' ∧ Advance a t g f' := by
    intro u f hu
    refine advance_update hg ?_
    rintro rfl
    simp [hu] at hg
  have reader : ∀ f, s.reader.late = false →
      ∃ f', Function.update s.term .reader (some f) t = some f' ∧ Advance a t g f' :=
    fun f hl => fresh .reader f (hf.reader_not_entered hs hl)
  have moves : ∀ {u e i r p p'}, s.term u = some ⟨e, i, r, p⟩ →
      (t = u → g = ⟨e, i, r, p⟩ → Advance a t g ⟨e, i, r, p'⟩) →
      ∃ f', Function.update s.term u (some ⟨e, i, r, p'⟩) t = some f' ∧ Advance a t g f' := by
    intro u e i r p p' hu hp
    refine advance_update hg fun htu => hp htu ?_
    subst htu
    exact Option.some.inj (hg.symm.trans hu)
  cases h with
  | failedOpen frame => exact fresh _ _ (hf.not_entered hs frame rfl)
  | closeStart term => exact fresh _ _ term
  | readBad pc => exact reader _ (by simp [pc, ReaderPc.late])
  | readEof pc => exact reader _ (by simp [pc, ReaderPc.late])
  | readShutdown pc => exact reader _ (by simp [pc, ReaderPc.late])
  | readerFailed pc => exact reader _ (by simp [pc, ReaderPc.late])
  | unhashable pc => exact reader _ (by simp [pc, ReaderPc.late])
  | late term hc => exact moves term fun _ hg => hg ▸ .next (by simp [TermPc.swept]) rfl (by simp)
  | win term hc => exact moves term fun _ hg => hg ▸ .next (by simp [TermPc.swept]) rfl (by simp)
  | sweep term lock => exact moves term fun _ hg => hg ▸ .next (by simp [TermPc.swept]) rfl (by simp)
  -- the sweep hands a failure to the first waiter on its list
  | @fail u e i r c ws term =>
    refine moves term fun htu hg => hg ▸ ⟨rfl, fun _ => rfl, fun d hd => ?_, by simp⟩
    rcases List.mem_cons.mp hd with rfl | hd
    · exact .inr ⟨ws, by rw [htu], rfl⟩
    · exact .inl hd
  | release term => exact moves term fun _ hg => hg ▸ .next (by simp [TermPc.swept]) rfl (by simp)
  | announce term => exact moves term fun _ hg => hg ▸ .next (by simp [TermPc.swept]) rfl (by simp)
  | _ => exact ⟨g, hg, .refl _ t g⟩

/-- An attempt takes effect by announcing the end. -/
theorem Step.returned_of {cfg : Config} {s s' : State} {a : Action} (h : Step cfg s a s')
    {t : Thread} {f : TermFrame} (hf : s'.term t = some f) (hp : f.pc = .returned true)
    (ha : a ≠ .termAnnounce t) : s.term t = some f := by
  have key : ∀ u g, (t = u → g.pc ≠ .returned true) →
      Function.update s.term u (some g) t = some f → s.term t = some f := by
    intro u g hg hu
    rcases eq_or_ne t u with rfl | hne
    · rw [Function.update_self, Option.some.injEq] at hu
      exact absurd (hu ▸ hp) (hg rfl)
    · rwa [Function.update_of_ne hne] at hu
  cases h with
  | announce term => exact key _ _ (fun htu => absurd (by rw [htu]) ha) hf
  | _ => first | exact hf | exact key _ _ (by simp) hf

/-! ### The winning attempt -/

theorem terminalItems_length {i : Option Dict} {r : Option Error}
    (h : i.isSome = true ∨ r.isSome = true) : (terminalItems i r).length = 1 := by
  cases i <;> cases r <;> simp_all [terminalItems]

structure Terms (closed : Bool) (callError recvError : Option Error)
    (term : Thread → Option TermFrame) : Prop where
  cause : ∀ t f, term t = some f → f.pc.won = true →
    closed = true ∧ callError = some f.callError ∧ recvError = f.recvError
  unique : ∀ t u f g, term t = some f → term u = some g → f.pc.won = true → g.pc.won = true →
    t = u
  winner : closed = true → ∃ t f, term t = some f ∧ f.pc.won = true
  item : ∀ t f, term t = some f → (terminalItems f.inboxMessage f.recvError).length = 1

section
variable {closed : Bool} {callError recvError : Option Error} {term : Thread → Option TermFrame}
  {t : Thread} {e : Error} {i : Option Dict} {r : Option Error}

theorem Terms.start (h : Terms closed callError recvError term) (ht : term t = none)
    (hitem : i.isSome = true ∨ r.isSome = true) :
    Terms closed callError recvError (Function.update term t (some ⟨e, i, r, .enter⟩)) := by
  have key : ∀ u f, Function.update term t (some ⟨e, i, r, .enter⟩) u = some f →
      f.pc.won = true → term u = some f := by
    intro u f hu hw
    rcases eq_or_ne u t with rfl | hne
    · rw [Function.update_self, Option.some.injEq] at hu
      simp [← hu, TermPc.won] at hw
    · rwa [Function.update_of_ne hne] at hu
  refine ⟨fun u f hu hw => h.cause u f (key u f hu hw) hw, fun u v f g hu hv hf hg =>
    h.unique u v f g (key u f hu hf) (key v g hv hg) hf hg, fun hc => ?_, fun u f hu => ?_⟩
  · obtain ⟨u, f, hu, hw⟩ := h.winner hc
    have hne : u ≠ t := by
      rintro rfl
      simp [ht] at hu
    exact ⟨u, f, by rwa [Function.update_of_ne hne], hw⟩
  · rcases eq_or_ne u t with rfl | hne
    · rw [Function.update_self, Option.some.injEq] at hu
      rw [← hu]
      exact terminalItems_length hitem
    · exact h.item u f (by rwa [Function.update_of_ne hne] at hu)

/-- A step of an attempt that neither wins nor loses keeps everything. -/
theorem Terms.advance {p p' : TermPc} (h : Terms closed callError recvError term)
    (ht : term t = some ⟨e, i, r, p⟩) (hp : p'.won = p.won) :
    Terms closed callError recvError (Function.update term t (some ⟨e, i, r, p'⟩)) := by
  have key : ∀ u f, Function.update term t (some ⟨e, i, r, p'⟩) u = some f →
      ∃ q, term u = some ⟨f.callError, f.inboxMessage, f.recvError, q⟩ ∧ q.won = f.pc.won := by
    intro u f hu
    rcases eq_or_ne u t with rfl | hne
    · rw [Function.update_self, Option.some.injEq] at hu
      subst hu
      exact ⟨p, ht, hp.symm⟩
    · rw [Function.update_of_ne hne] at hu
      exact ⟨f.pc, hu, rfl⟩
  refine ⟨fun u f hu hw => ?_, fun u v f g hu hv hf hg => ?_, fun hc => ?_, fun u f hu => ?_⟩
  · obtain ⟨q, hq, hqw⟩ := key u f hu
    have hcause := h.cause u _ hq (hqw.trans hw)
    exact hcause
  · obtain ⟨q, hq, hqw⟩ := key u f hu
    obtain ⟨q', hq', hqw'⟩ := key v g hv
    exact h.unique u v _ _ hq hq' (hqw.trans hf) (hqw'.trans hg)
  · obtain ⟨u, f, hu, hw⟩ := h.winner hc
    rcases eq_or_ne u t with rfl | hne
    · rw [ht, Option.some.injEq] at hu
      refine ⟨u, _, Function.update_self .., ?_⟩
      rw [← hu] at hw
      exact hp.trans hw
    · exact ⟨u, f, by rwa [Function.update_of_ne hne], hw⟩
  · obtain ⟨q, hq, -⟩ := key u f hu
    have hitem := h.item u _ hq
    exact hitem

/-- The attempt that finds the client open is the first winner. -/
theorem Terms.win (h : Terms false callError recvError term) (ht : term t = some ⟨e, i, r, .enter⟩) :
    Terms true (some e) r (Function.update term t (some ⟨e, i, r, .sweep⟩)) := by
  -- nobody has won yet: a winner would have closed the client
  have key : ∀ u f, Function.update term t (some ⟨e, i, r, .sweep⟩) u = some f →
      f.pc.won = true → u = t ∧ f = ⟨e, i, r, .sweep⟩ := by
    intro u f hu hw
    rcases eq_or_ne u t with rfl | hne
    · rw [Function.update_self, Option.some.injEq] at hu
      exact ⟨rfl, hu.symm⟩
    · rw [Function.update_of_ne hne] at hu
      exact absurd (h.cause u f hu hw).1 (by simp)
  refine ⟨fun u f hu hw => ?_, fun u v f g hu hv hf hg => ?_, fun _ => ?_, fun u f hu => ?_⟩
  · obtain ⟨-, rfl⟩ := key u f hu hw
    exact ⟨rfl, rfl, rfl⟩
  · rw [(key u f hu hf).1, (key v g hv hg).1]
  · exact ⟨t, _, Function.update_self .., rfl⟩
  · rcases eq_or_ne u t with rfl | hne
    · rw [Function.update_self, Option.some.injEq] at hu
      have hitem := h.item u _ ht
      exact hu ▸ hitem
    · exact h.item u f (by rwa [Function.update_of_ne hne] at hu)

end

theorem Terms.step {cfg : Config} {s s' : State} {a : Action} (h : Step cfg s a s')
    (hs : Sends s.caller s.send) (hf : Frames s.send s.term s.reader)
    (hi : Terms s.closed s.terminalCallError s.terminalRecvError s.term) :
    Terms s'.closed s'.terminalCallError s'.terminalRecvError s'.term := by
  cases h with
  | failedOpen frame hc => exact hi.start (hf.not_entered hs frame rfl) (.inr rfl)
  | closeStart term => exact hi.start term (.inl rfl)
  | readBad pc => exact hi.start (hf.reader_not_entered hs (by simp [ReaderPc.late, pc])) (.inr rfl)
  | readEof pc => exact hi.start (hf.reader_not_entered hs (by simp [ReaderPc.late, pc])) (.inl rfl)
  | readShutdown pc =>
    exact hi.start (hf.reader_not_entered hs (by simp [ReaderPc.late, pc])) (.inl rfl)
  | readerFailed pc =>
    exact hi.start (hf.reader_not_entered hs (by simp [ReaderPc.late, pc])) (.inr rfl)
  | unhashable pc =>
    exact hi.start (hf.reader_not_entered hs (by simp [ReaderPc.late, pc])) (.inr rfl)
  | win term hc => exact (hc ▸ hi).win term
  | _ => first | exact hi | (refine hi.advance (by assumption) ?_; rfl)

end Msys.Client
