import MsysSdk.Client.Termination

/-! `recv` against the reader alone: records in wire order, then the end of the channel. The
order is lost where `recv` looks at `_closed` after it has found the queue empty. -/

namespace Msys.Client
open Python Transition

/-- The reader thread and one consumer, on a socket whose `recv` does not fail. -/
def solo : Action → Bool
  | .readerTest | .readerRead (.data _) | .readerFailed | .readerDispatch | .readerEnqueue
  | .readerStop | .termEnter .reader | .termSweep .reader | .termPut .reader
  | .termRelease .reader | .termAnnounce .reader | .recvStart | .recvTest | .recvItem
  | .recvEmpty | .recvRefused | .recvRecheck | .recvTerminal => true
  | _ => false

/-- The record in a packet that does not end the channel. -/
def unsolicited? (py : Interpreter) : Received → Option Dict
  | .osError _ => none
  | .data b =>
    match readPacket py b with
    | .ok (some m) => if (field m "type").isKey (str "shutdown") then none else some m
    | _ => none

def unsolicited (py : Interpreter) (wire : List Received) : List Dict :=
  wire.filterMap (unsolicited? py)

def isShutdown (py : Interpreter) : Received → Bool
  | .osError _ => false
  | .data b =>
    match readPacket py b with
    | .ok (some m) => (field m "type").isKey (str "shutdown")
    | _ => false

/-- How a packet ends the channel, as `recv` is to report it. -/
def ending (py : Interpreter) : Received → Option (Except Error Dict)
  | .osError _ => none
  | .data b =>
    match readPacket py b with
    | .error e => some (.error e)
    | .ok none => some (.ok eof)
    | .ok (some m) => if (field m "type").isKey (str "shutdown") then some (.ok m) else none

/-- The records up to the first terminal result, and that result. -/
def upToTerminal : List RecvResult → List Dict × Option (Except Error Dict)
  | [] => ([], none)
  | .record m :: rs => (m :: (upToTerminal rs).1, (upToTerminal rs).2)
  | .terminal t :: _ => ([], some t)

def Delivered (py : Interpreter) (s : State) : Prop :=
  match upToTerminal s.results with
  | (ms, none) => ms <+: unsolicited py s.wire
  | (ms, some t) => ms = unsolicited py s.wire ∧ s.wire.getLast?.bind (ending py) = some t ∧
    ∀ e, t = .error e → e.errorType = .protocol

theorem readPacket_error {py : Interpreter} {b : Bytes} {e : Error}
    (h : readPacket py b = .error e) : e.errorType = .protocol := by
  unfold readPacket at h
  split_ifs at h
  · cases h
    rfl
  · split at h
    · dsimp only at h
      split_ifs at h <;> cases h <;> rfl
    · cases h
    · cases h
      rfl

theorem ending_error {py : Interpreter} {r : Received} {e : Error}
    (h : ending py r = some (.error e)) : e.errorType = .protocol := by
  unfold ending at h
  split at h
  next => cases h
  next b =>
    split at h
    next e' he =>
      cases h
      exact readPacket_error he
    next => cases h
    next => split_ifs at h; cases h

/-! ### Where it goes wrong -/

def InboxItem.mail? : InboxItem → Option Dict
  | .record (some _) m => some m
  | _ => none

def mails (queue : List InboxItem) : List Dict := queue.filterMap InboxItem.mail?

/-- `recv` reports the end off the queue only once nothing is queued and not after a shutdown,
and no record has a `type` without a hash. -/
def undisturbed (cfg : Config) (s : State) : Action → Bool
  | .recvTerminal => (upToTerminal s.results).2.isSome ||
    (mails s.eventQueue).isEmpty && !s.wire.getLast?.any (isShutdown cfg.py)
  | .readerRead r => (unsolicited? cfg.py r).all fun m => hashable (field m "type")
  | _ => true

def Undisturbed (cfg : Config) (s : State) (a : Action) : Prop :=
  solo a = true ∧ undisturbed cfg s a = true

/-! ### Results up to the first terminal one -/

theorem upToTerminal_append_record {rs : List RecvResult} (m : Dict)
    (h : (upToTerminal rs).2 = none) :
    upToTerminal (rs ++ [.record m]) = ((upToTerminal rs).1 ++ [m], none) := by
  induction rs with
  | nil => rfl
  | cons r rs ih =>
    cases r with
    | record m' => simp [upToTerminal, ih h]
    | terminal t => simp [upToTerminal] at h

theorem upToTerminal_append_terminal {rs : List RecvResult} (t : Except Error Dict)
    (h : (upToTerminal rs).2 = none) :
    upToTerminal (rs ++ [.terminal t]) = ((upToTerminal rs).1, some t) := by
  induction rs with
  | nil => rfl
  | cons r rs ih =>
    cases r with
    | record m' => simp [upToTerminal, ih h]
    | terminal t => simp [upToTerminal] at h

theorem upToTerminal_append (rs more : List RecvResult)
    (h : (upToTerminal rs).2.isSome = true) : upToTerminal (rs ++ more) = upToTerminal rs := by
  induction rs with
  | nil => simp [upToTerminal] at h
  | cons r rs ih =>
    cases r with
    | record m' => simp [upToTerminal, ih h]
    | terminal t => rfl

theorem unsolicited_append (py : Interpreter) (wire : List Received) (r : Received) :
    unsolicited py (wire ++ [r]) = unsolicited py wire ++ (unsolicited? py r).toList := by
  simp only [unsolicited, List.filterMap_append, List.filterMap_cons, List.filterMap_nil]
  cases unsolicited? py r <;> rfl

@[simp] theorem mails_append (xs ys : List InboxItem) : mails (xs ++ ys) = mails xs ++ mails ys :=
  List.filterMap_append ..

/-! ### The run -/

/-- What `recv` reports without the queue, once the attempt `f` has won. -/
def TermFrame.report (f : TermFrame) : Except Error Dict :=
  match f.recvError with
  | some e => .error e
  | none => .ok eof

structure Consumer (cfg : Config) (s : State) : Prop where
  callers : ∀ c, s.caller c = .start
  others : ∀ t, t ≠ .reader → s.term t = none
  working : ∀ text, s.reader ≠ .failed text
  hashed : ∀ n m, s.reader.hand? = some (n, m) → hashable (field m "type") = true
  ordered : s.eventQueue.Pairwise fun x _ => x.isTerminal = false
  terminals : ∀ x ∈ s.eventQueue, x.isTerminal = true →
    (∃ f, s.term .reader = some f ∧ f.pc = .returned true) ∧
      ∃ t, s.wire.getLast?.bind (ending cfg.py) = some t ∧ x.result = .terminal t
  frame : ∀ f, s.term .reader = some f →
    ∃ r t, s.wire.getLast? = some r ∧ ending cfg.py r = some t ∧
      (∀ x ∈ terminalItems f.inboxMessage f.recvError, x.result = .terminal t) ∧
      (isShutdown cfg.py r = false → f.report = t)
  noticed : s.receiver = .nowait ∨ s.receiver = .terminal ∨
    (upToTerminal s.results).2.isSome = true → s.closed = true
  consumed : (upToTerminal s.results).2 = none →
    (upToTerminal s.results).1 ++ mails s.eventQueue ++ (s.reader.hand?.map Prod.snd).toList =
      unsolicited cfg.py s.wire
  delivered : ∀ t, (upToTerminal s.results).2 = some t →
    (upToTerminal s.results).1 = unsolicited cfg.py s.wire ∧
      s.wire.getLast?.bind (ending cfg.py) = some t

theorem consumer_init (cfg : Config) : Consumer cfg init where
  callers := fun _ => rfl
  others := fun _ _ => rfl
  working := by simp [init]
  hashed := by simp [init, ReaderPc.hand?]
  ordered := by simp [init]
  terminals := by simp [init]
  frame := by simp [init]
  noticed := by simp [init, upToTerminal]
  consumed := fun _ => rfl
  delivered := by simp [init, upToTerminal]

theorem Consumer.delivered_prefix {cfg : Config} {s : State} (h : Consumer cfg s) :
    Delivered cfg.py s := by
  unfold Delivered
  split
  next ms hu =>
    have := h.consumed (by rw [hu])
    rw [hu, List.append_assoc] at this
    exact ⟨_, this⟩
  next ms t hu =>
    obtain ⟨hms, hend⟩ := h.delivered t (by rw [hu])
    rw [hu] at hms
    obtain ⟨r, -, hr⟩ := Option.bind_eq_some_iff.mp hend
    exact ⟨hms, hend, fun e he => ending_error (he ▸ hr)⟩

section
variable {cfg : Config} {s : State}

/-- Once the client is closed the reader has nothing in hand. -/
theorem Consumer.closed_late (hi : Consumer cfg s) (inv : Inv cfg.py s) (hc : s.closed = true) :
    s.reader.late = true ∧ ∃ f, s.term .reader = some f ∧ f.pc.won = true := by
  obtain ⟨t, f, ht, hw⟩ := inv.terms.winner hc
  obtain rfl : t = .reader := by
    by_contra hne
    simp [hi.others t hne] at ht
  refine ⟨?_, f, ht, hw⟩
  by_contra hl
  simp [inv.frames.reader_not_entered inv.sends (by simpa using hl)] at ht

theorem Consumer.not_closed (hi : Consumer cfg s) (inv : Inv cfg.py s) (hl : s.reader.late = false) :
    s.closed = false := by
  by_contra hc
  have := (hi.closed_late inv (by simpa using hc)).1
  simp [hl] at this

theorem Consumer.no_result (hi : Consumer cfg s) (inv : Inv cfg.py s) (hl : s.reader.late = false) :
    (upToTerminal s.results).2 = none := by
  by_contra hr
  have := hi.noticed (.inr (.inr (by simpa [Option.isSome_iff_ne_none] using hr)))
  simp [hi.not_closed inv hl] at this

/-- The reader moves on with what it has in hand. -/
theorem Consumer.reader_update {pc : ReaderPc} (hi : Consumer cfg s)
    (hh : pc.hand? = s.reader.hand?) (hw : ∀ text, pc ≠ .failed text) :
    Consumer cfg { s with reader := pc } :=
  { hi with
    working := hw
    hashed := fun n m hn => hi.hashed n m (hh ▸ hn)
    consumed := fun hr => by
      have := hi.consumed hr
      rwa [← hh] at this }

/-- An attempt moves on short of returning. -/
theorem Consumer.term_update {f g : TermFrame} (hi : Consumer cfg s)
    (hf : s.term .reader = some f) (hp : f.pc ≠ .returned true)
    (hg : g.inboxMessage = f.inboxMessage ∧ g.recvError = f.recvError) :
    Consumer cfg (s.setTerm .reader g) := by
  have hframe := hi.frame f hf
  refine { hi with others := fun t ht => ?_, terminals := fun x hx hxt => ?_,
                   frame := fun g' hg' => ?_ }
  · exact (Function.update_of_ne ht ..).trans (hi.others t ht)
  · obtain ⟨⟨f', hf', hp'⟩, -⟩ := hi.terminals x hx hxt
    obtain rfl := Option.some.inj (hf.symm.trans hf')
    exact absurd hp' hp
  · obtain rfl : g = g' := by simpa [State.setTerm] using hg'
    rw [TermFrame.report, hg.1, hg.2]
    exact hframe

/-- The reader enters `_terminate` on the packet it has just read. -/
theorem Consumer.terminate {r : Received} {e : Error} {i : Option Dict} {x : Option Error}
    {t : Except Error Dict} (hi : Consumer cfg s) (inv : Inv cfg.py s) (hl : s.reader.late = false)
    (hh : s.reader.hand? = none) (hu : unsolicited? cfg.py r = none)
    (he : ending cfg.py r = some t)
    (hitems : ∀ y ∈ terminalItems i x, y.result = .terminal t)
    (hreport : isShutdown cfg.py r = false → TermFrame.report ⟨e, i, x, .enter⟩ = t) :
    Consumer cfg (s.readerTerminate (s.wire ++ [r]) e i x) := by
  have hnone := inv.frames.reader_not_entered inv.sends hl
  refine { hi with others := fun u hne => ?_, working := by simp [State.readerTerminate],
                   hashed := by simp [State.readerTerminate, ReaderPc.hand?],
                   terminals := fun y hy hyt => ?_, frame := fun g hg => ?_,
                   consumed := fun hr => ?_, delivered := fun u hr => ?_ }
  · exact (Function.update_of_ne hne ..).trans (hi.others u hne)
  · obtain ⟨⟨f, hf, -⟩, -⟩ := hi.terminals y hy hyt
    simp [hnone] at hf
  · obtain rfl : ⟨e, i, x, .enter⟩ = g := by simpa [State.readerTerminate, State.setTerm] using hg
    exact ⟨r, t, List.getLast?_concat, he, hitems, hreport⟩
  · have := hi.consumed hr
    rw [hh] at this
    simp only [State.readerTerminate, unsolicited_append, hu]
    simpa [ReaderPc.hand?, State.setTerm] using this
  · have := hi.no_result inv hl
    rw [show (upToTerminal s.results).2 = some u from hr] at this
    cases this

theorem Consumer.read {b : Bytes} {m : Dict} (hi : Consumer cfg s) (inv : Inv cfg.py s)
    (pc : s.reader = .reading) (hu : unsolicited? cfg.py (.data b) = some m)
    (hh : hashable (field m "type") = true) :
    Consumer cfg { s with
      reader := .dispatch (s.wire.length + 1) m
      wire := s.wire ++ [.data b] } := by
  have hl : s.reader.late = false := by simp [pc, ReaderPc.late]
  have hnone := inv.frames.reader_not_entered inv.sends hl
  have hres := hi.no_result inv hl
  refine { hi with working := by simp, hashed := fun n m' hn => ?_, terminals := fun y hy hyt => ?_,
                   frame := fun f hf => ?_, consumed := fun hr => ?_, delivered := fun t hr => ?_ }
  · simp only [ReaderPc.hand?, Option.some.injEq, Prod.mk.injEq] at hn
    exact hn.2 ▸ hh
  · obtain ⟨⟨f, hf, -⟩, -⟩ := hi.terminals y hy hyt
    simp [hnone] at hf
  · simp [hnone] at hf
  · have := hi.consumed hr
    rw [pc] at this
    rw [unsolicited_append, hu, ← this]
    simp [ReaderPc.hand?]
  · simp [hres] at hr

theorem Consumer.enqueue {n : Nat} {m : Dict} (hi : Consumer cfg s) (inv : Inv cfg.py s)
    (pc : s.reader = .enqueue n m) : Consumer cfg { s with
      reader := .loop
      eventQueue := s.eventQueue ++ [.record (some n) m]
      enqueued := s.enqueued ++ [.record (some n) m]
      routed := s.routed ++ [⟨n, m, .mailbox⟩] } := by
  have hl : s.reader.late = false := by simp [pc, ReaderPc.late]
  have hnone := inv.frames.reader_not_entered inv.sends hl
  have hopen : ∀ x ∈ s.eventQueue, x.isTerminal = false := by
    intro x hx
    by_contra hxt
    obtain ⟨⟨f, hf, -⟩, -⟩ := hi.terminals x hx (by simpa using hxt)
    simp [hnone] at hf
  refine { hi with working := by simp, hashed := by simp [ReaderPc.hand?], ordered := ?_,
                   terminals := fun x hx hxt => ?_, consumed := fun hr => ?_ }
  · exact List.pairwise_append.mpr ⟨hi.ordered, List.pairwise_singleton .., fun x hx _ _ => hopen x hx⟩
  · rcases List.mem_append.mp hx with hx | hx
    · simp [hopen x hx] at hxt
    · simp [List.mem_singleton.mp hx, InboxItem.isTerminal] at hxt
  · have := hi.consumed hr
    rw [pc] at this
    rw [← this]
    simp [ReaderPc.hand?, mails, InboxItem.mail?]

theorem mails_terminalItems (i : Option Dict) (r : Option Error) : mails (terminalItems i r) = [] := by
  unfold terminalItems
  split <;> rfl

theorem Consumer.announce {e : Error} {i : Option Dict} {x : Option Error} (hi : Consumer cfg s)
    (inv : Inv cfg.py s) (term : s.term .reader = some ⟨e, i, x, .announce⟩) :
    Consumer cfg { s.setTerm .reader ⟨e, i, x, .returned true⟩ with
      eventQueue := s.eventQueue ++ terminalItems i x
      enqueued := s.enqueued ++ terminalItems i x } := by
  obtain ⟨r, t, hlast, hend, hitems, hreport⟩ := hi.frame _ term
  have hopen : ∀ y ∈ s.eventQueue, y.isTerminal = false := by
    intro y hy
    by_contra hyt
    obtain ⟨⟨f, hf, hp⟩, -⟩ := hi.terminals y hy (by simpa using hyt)
    obtain rfl := Option.some.inj (term.symm.trans hf)
    cases hp
  have hone : (terminalItems i x).Pairwise fun y _ => y.isTerminal = false := by
    have := inv.terms.item _ _ term
    obtain ⟨y, hy⟩ := List.length_eq_one_iff.mp this
    exact hy ▸ List.pairwise_singleton ..
  refine { hi with others := fun u hne => ?_, ordered := ?_, terminals := fun y hy hyt => ?_,
                   frame := fun g hg => ?_, consumed := fun hr => ?_ }
  · exact (Function.update_of_ne hne ..).trans (hi.others u hne)
  · exact List.pairwise_append.mpr ⟨hi.ordered, hone, fun y hy _ _ => hopen y hy⟩
  · rcases List.mem_append.mp hy with hy | hy
    · simp [hopen y hy] at hyt
    · have hself : (s.setTerm .reader ⟨e, i, x, .returned true⟩).term .reader =
          some ⟨e, i, x, .returned true⟩ := by simp [State.setTerm]
      refine ⟨⟨_, hself, rfl⟩, t, ?_, hitems y hy⟩
      have hw : s.wire.getLast?.bind (ending cfg.py) = some t := by rw [hlast]; exact hend
      exact hw
  · obtain rfl : ⟨e, i, x, .returned true⟩ = g := by simpa [State.setTerm] using hg
    exact ⟨r, t, hlast, hend, hitems, hreport⟩
  · have := hi.consumed hr
    simpa [mails_terminalItems, State.setTerm] using this

/-- `recv` moves on without a result. -/
theorem Consumer.receiver_update {pc : RecvPc} (hi : Consumer cfg s)
    (hp : pc = .nowait ∨ pc = .terminal → s.closed = true) :
    Consumer cfg { s with receiver := pc } :=
  { hi with
    noticed := by
      rintro (h | h | h)
      · exact hp (.inl h)
      · exact hp (.inr h)
      · exact hi.noticed (.inr (.inr h)) }

theorem Consumer.recvItem {item : InboxItem} {rest : List InboxItem} (hi : Consumer cfg s)
    (inv : Inv cfg.py s) (queue : s.eventQueue = item :: rest) : Consumer cfg { s with
      receiver := .idle
      eventQueue := rest
      results := s.results ++ [item.result] } := by
  have hord := List.pairwise_cons.mp (queue ▸ hi.ordered)
  have hterm : ∀ x ∈ rest, x.isTerminal = true → _ := fun x hx =>
    hi.terminals x (queue ▸ List.mem_cons_of_mem _ hx)
  cases hu : (upToTerminal s.results).2 with
  | some t =>
    have happ := upToTerminal_append s.results [item.result] (by simp [hu])
    have hc := hi.noticed (.inr (.inr (by simp [hu])))
    refine { hi with ordered := hord.2, terminals := hterm, noticed := fun _ => hc,
                     consumed := fun hr => ?_, delivered := fun u hr => ?_ }
    · simp [happ, hu] at hr
    · have := hi.delivered u (by rwa [happ] at hr)
      rwa [← happ] at this
  | none =>
    have hcons := hi.consumed hu
    cases hx : item.isTerminal with
    | false =>
      obtain ⟨n, m, rfl⟩ : ∃ n m, item = .record (some n) m := by
        rcases item with ⟨_ | n, m⟩ | f
        · cases hx
        · exact ⟨n, m, rfl⟩
        · cases hx
      have happ := upToTerminal_append_record m hu
      refine { hi with ordered := hord.2, terminals := hterm, noticed := ?_,
                       consumed := fun hr => ?_, delivered := fun u hr => ?_ }
      · simp [InboxItem.result, happ]
      · rw [queue] at hcons
        simp only [InboxItem.result, happ, ← hcons]
        simp [mails, InboxItem.mail?]
      · simp [InboxItem.result, happ] at hr
    | true =>
      obtain ⟨⟨f, hf, hp⟩, t, ht, hres⟩ := hi.terminals item (by simp [queue]) hx
      have happ := upToTerminal_append_terminal t hu
      have hw : f.pc.won = true := by simp [hp, TermPc.won]
      have hc := (inv.terms.cause _ f hf hw).1
      have hrest : rest = [] := by
        refine List.eq_nil_iff_forall_not_mem.mpr fun y hy => ?_
        simp [hord.1 y hy] at hx
      have hmail : mails [item] = [] := by
        rcases item with ⟨_ | n, m⟩ | g
        · rfl
        · cases hx
        · rfl
      refine { hi with ordered := hord.2, terminals := hterm, noticed := fun _ => hc,
                       consumed := fun hr => ?_, delivered := fun u hr => ?_ }
      · simp [hres, happ] at hr
      · simp only [hres, happ, Option.some.injEq] at hr ⊢
        rw [queue, hrest, hmail, hand_of_late (hi.closed_late inv hc).1] at hcons
        exact ⟨by simpa using hcons, hr ▸ ht⟩

theorem Consumer.recvTerminal (hi : Consumer cfg s) (inv : Inv cfg.py s) (pc : s.receiver = .terminal)
    (hok : undisturbed cfg s .recvTerminal = true) : Consumer cfg { s with
      receiver := .idle
      results := s.results ++ [.terminal (terminalRecvResult s)] } := by
  have hc := hi.noticed (.inr (.inl pc))
  cases hu : (upToTerminal s.results).2 with
  | some t =>
    have happ := upToTerminal_append s.results [.terminal (terminalRecvResult s)]
      (by simp [hu])
    refine { hi with noticed := fun _ => hc, consumed := fun hr => ?_, delivered := fun u hr => ?_ }
    · simp [happ, hu] at hr
    · have := hi.delivered u (by rwa [happ] at hr)
      rwa [← happ] at this
  | none =>
    obtain ⟨hl, f, hf, hw⟩ := hi.closed_late inv hc
    have happ := upToTerminal_append_terminal (terminalRecvResult s) hu
    obtain ⟨r, t, hlast, hend, -, hreport⟩ := hi.frame f hf
    simp only [undisturbed, hu, hlast, Option.isSome_none, Bool.false_or, Option.any_some,
      Bool.and_eq_true, List.isEmpty_iff, Bool.not_eq_true'] at hok
    have heq : terminalRecvResult s = t := by
      rw [← hreport hok.2, terminalRecvResult, (inv.terms.cause _ f hf hw).2.2]
      rfl
    refine { hi with noticed := fun _ => hc, consumed := fun hr => ?_, delivered := fun u hr => ?_ }
    · simp [happ] at hr
    · have hcons := hi.consumed hu
      rw [hok.1, hand_of_late hl] at hcons
      simp only [happ, Option.some.injEq] at hr ⊢
      refine ⟨by simpa using hcons, ?_⟩
      rw [hlast, ← hr, heq]
      exact hend

end

theorem unsolicited?_of_error {py : Interpreter} {b : Bytes} {e : Error}
    (h : readPacket py b = .error e) :
    unsolicited? py (.data b) = none ∧ ending py (.data b) = some (.error e) := by
  simp [unsolicited?, ending, h]

theorem unsolicited?_of_record {py : Interpreter} {b : Bytes} {m : Dict}
    (h : readPacket py b = .ok (some m))
    (hm : (field m "type").isKey (str "shutdown") = false) :
    unsolicited? py (.data b) = some m := by
  simp [unsolicited?, h, hm]

theorem Consumer.step {cfg : Config} {s s' : State} {a : Action} (h : Step cfg s a s')
    (hok : Undisturbed cfg s a) (inv : Inv cfg.py s) (hi : Consumer cfg s) : Consumer cfg s' := by
  obtain ⟨hsolo, hund⟩ := hok
  have no_waiter : ∀ id c, s.pending.lookup id ≠ some c := by
    intro id c hl
    have := inv.table.listed id c hl
    simp [hi.callers, CallPc.open?] at this
  cases h with
  | readerTest pc =>
    refine hi.reader_update ?_ ?_
    · split_ifs <;> simp [pc, ReaderPc.hand?]
    · split_ifs <;> simp
  | readFailed => simp [solo] at hsolo
  | @readBad b e pc packet =>
    obtain ⟨hu, he⟩ := unsolicited?_of_error packet
    exact hi.terminate inv (by simp [pc, ReaderPc.late]) (by simp [pc, ReaderPc.hand?]) hu he
      (by simp [terminalItems, InboxItem.result, Failure.fromError, Failure.makeError])
      fun _ => rfl
  | readEof pc packet =>
    exact hi.terminate (t := .ok eof) inv (by simp [pc, ReaderPc.late])
      (by simp [pc, ReaderPc.hand?]) (by simp [unsolicited?, packet]) (by simp [ending, packet])
      (by simp [terminalItems, InboxItem.result]) fun _ => rfl
  | @readShutdown b m pc packet hm =>
    exact hi.terminate (t := .ok m) inv (by simp [pc, ReaderPc.late])
      (by simp [pc, ReaderPc.hand?]) (by simp [unsolicited?, packet, hm])
      (by simp [ending, packet, hm]) (by simp [terminalItems, InboxItem.result])
      (by simp [isShutdown, packet, hm])
  | read pc packet hm =>
    have hu := unsolicited?_of_record packet hm
    exact hi.read inv pc hu (by simpa [undisturbed, hu] using hund)
  | readerDead pc => exact absurd pc (hi.working _)
  | readerFailed pc => exact absurd pc (hi.working _)
  | unhashable pc hm =>
    exact absurd hm (replyId_of_hashable (hi.hashed _ _ (by rw [pc]; rfl)))
  | notReply pc => exact hi.reader_update (by simp [pc, ReaderPc.hand?]) (by simp)
  | unknown pc => exact hi.reader_update (by simp [pc, ReaderPc.hand?]) (by simp)
  | full pc hm lock look => exact absurd look (no_waiter _ _)
  | deliver pc hm lock look => exact absurd look (no_waiter _ _)
  | enqueue pc => exact hi.enqueue inv pc
  | readerStop pc => exact hi.reader_update (by simp [pc, ReaderPc.hand?]) (by simp)
  | @late t e i r term hc =>
    cases t with
    | reader => exact hi.term_update term (by simp) ⟨rfl, rfl⟩
    | _ => simp [solo] at hsolo
  | @win t e i r term hc =>
    cases t with
    | reader =>
      have hi' := hi.term_update (g := ⟨e, i, r, .sweep⟩) term (by simp) ⟨rfl, rfl⟩
      exact { hi' with noticed := fun _ => rfl }
    | _ => simp [solo] at hsolo
  | @sweep t e i r term lock =>
    cases t with
    | reader =>
      have hi' := hi.term_update (g := ⟨e, i, r, .sweeping (Waiters.listed s.pending)⟩)
        term (by simp) ⟨rfl, rfl⟩
      exact { hi' with }
    | _ => simp [solo] at hsolo
  | @fail t e i r c ws term =>
    cases t with
    | reader =>
      have hi' := hi.term_update (g := ⟨e, i, r, .sweeping ws⟩) term (by simp) ⟨rfl, rfl⟩
      exact { hi' with }
    | _ => simp [solo] at hsolo
  | @release t e i r term =>
    cases t with
    | reader =>
      have hi' := hi.term_update (g := ⟨e, i, r, .announce⟩) term (by simp) ⟨rfl, rfl⟩
      exact { hi' with }
    | _ => simp [solo] at hsolo
  | @announce t e i r term =>
    cases t with
    | reader => exact hi.announce inv term
    | _ => simp [solo] at hsolo
  | recvStart pc =>
    have hr : Consumer cfg { s with
        reader := if s.closed then s.reader else s.startReader.reader } := by
      refine hi.reader_update ?_ fun text => ?_
      · split_ifs
        · rfl
        · exact s.startReader_hand
      · unfold State.startReader
        split_ifs <;> simp [hi.working]
    exact hr.receiver_update (by simp)
  | recvTest pc =>
    refine hi.receiver_update fun hp => ?_
    by_contra hc
    simp [hc] at hp
  | recvItem queue pc => exact hi.recvItem inv queue
  | recvNone pc queue => exact hi.receiver_update fun _ => hi.noticed (.inl pc)
  | recvTimeout pc queue => exact hi.receiver_update (by simp)
  | recvRefused pc => exact hi.receiver_update (by simp)
  | recvRecheck pc =>
    refine hi.receiver_update fun hp => ?_
    by_contra hc
    simp [hc] at hp
  | recvTerminal pc => exact hi.recvTerminal inv pc hund
  | _ => simp [solo] at hsolo

theorem recv_delivers (cfg : Config) (s : State)
    (h : Reach (step cfg) (Undisturbed cfg) init s) : Delivered cfg.py s := by
  have hi := h.invariant_of (P := Consumer cfg) (fun _ hr => reach_inv hr) (consumer_init cfg)
    fun _ _ _ inv hi hok hs => hi.step (step_sound hs) hok inv
  exact hi.delivered_prefix

def anEvent : Bytes := bytes "\x7b\"type\":\"event\"\x7d"

/-- The reader takes one record and hands it on. -/
def oneEvent : List Action :=
  [.readerTest, .readerRead (.data anEvent), .readerDispatch, .readerEnqueue]

/-- The end of the stream, announced. -/
def atEof : List Action :=
  [.readerTest, .readerRead (.data []), .termEnter .reader, .termSweep .reader,
    .termRelease .reader, .termAnnounce .reader]

instance (cfg : Config) (s : State) (a : Action) : Decidable (Undisturbed cfg s a) :=
  inferInstanceAs (Decidable (_ ∧ _))

theorem recv_delivers_eof : ∃ s,
    Reach (step (withTimeout 5)) (Undisturbed (withTimeout 5)) init s ∧
      (upToTerminal s.results).2.isSome = true ∧ Delivered plain s := by
  have h : (runWhere (step (withTimeout 5)) (Undisturbed (withTimeout 5)) init
      (.recvStart :: .recvTest :: oneEvent ++ .recvItem :: atEof ++
        [.recvStart, .recvTest, .recvItem])).map
          (fun s => (upToTerminal s.results).2.isSome) = some true := by
    decide +kernel
  obtain ⟨s, hs, hp⟩ := Option.map_eq_some_iff.mp h
  have hr := Reach.of_runWhere hs
  exact ⟨s, hr, hp, recv_delivers (withTimeout 5) s hr⟩

/-- `recv` finds the queue empty at its timeout; a record and the end come before its look
at `_closed`. -/
theorem recv_reports_end_early :
    ¬∀ cfg s, Reach (step cfg) (fun _ a => solo a = true) init s → Delivered cfg.py s := by
  intro hall
  have h : (runWhere (step (withTimeout 5)) (fun _ a => solo a = true) init
      (.recvStart :: .recvTest :: .recvEmpty :: oneEvent ++ atEof ++
        [.recvRecheck, .recvTerminal])).map
          (fun s => (upToTerminal s.results).1.isEmpty && (upToTerminal s.results).2.isSome &&
            !(unsolicited plain s.wire).isEmpty) = some true := by
    decide +kernel
  obtain ⟨s, hs, hp⟩ := Option.map_eq_some_iff.mp h
  have hdel := hall _ s (Reach.of_runWhere hs)
  simp only [Bool.and_eq_true, Bool.not_eq_true', List.isEmpty_eq_false_iff,
    List.isEmpty_iff] at hp
  unfold Delivered at hdel
  split at hdel
  next ms hu => simp [hu] at hp
  next ms t hu =>
    rw [hu] at hp
    exact hp.2 (hdel.1 ▸ hp.1.1)

end Msys.Client
