import MsysSdk.Client.Recv

/-! Events on their way from the socket to `recv`, in every interleaving. No waiter takes one, so
none overtakes another; one may come too late for a consumer that has met the end of the channel,
unless the reader itself ended it. -/

namespace Msys.Client
open Python Transition

def isEvent (m : Dict) : Bool := (field m "type").isKey (str "event")

/-- The events on the wire. -/
def events (py : Interpreter) (wire : List Received) : List Dict :=
  wire.filterMap fun r => (readRecord py r).filter isEvent

def InboxItem.event? : InboxItem → Option Dict
  | .record _ m => (some m).filter isEvent
  | .failure _ => none

def RecvResult.event? : RecvResult → Option Dict
  | .record m | .terminal (.ok m) => (some m).filter isEvent
  | .terminal (.error _) => none

def ReaderPc.event? (pc : ReaderPc) : Option Dict := (pc.hand?.map Prod.snd).filter isEvent

def received (results : List RecvResult) : List Dict := results.filterMap RecvResult.event?

/-- The events that the reader took from the socket and `recv` has still to give. -/
def underway (queue : List InboxItem) (reader : ReaderPc) : List Dict :=
  queue.filterMap InboxItem.event? ++ reader.event?.toList

theorem replyId_of_event {m : Dict} (h : isEvent m = true) : replyId m = .ok none := by
  have htype := Value.isKey_iff.mp h
  rw [replyId, htype]
  rfl

theorem isEvent_of_type {m : Dict} {name : String} (h : (field m "type").isKey (str name) = true)
    (hname : str name ≠ str "event") : isEvent m = false := by
  have htype := Value.isKey_iff.mp h
  simp [isEvent, htype, Value.isKey, hname]

theorem InboxItem.event?_result (item : InboxItem) : item.result.event? = item.event? := by
  cases item with
  | record n m => cases n <;> rfl
  | failure f => rfl

theorem events_append (py : Interpreter) (wire : List Received) (r : Received) :
    events py (wire ++ [r]) = events py wire ++ ((readRecord py r).filter isEvent).toList := by
  rw [events, List.filterMap_append, List.filterMap_cons, List.filterMap_nil]
  cases h : (readRecord py r).filter isEvent <;> simp [events]

/-- Nothing that ends the channel is an event, and no event is lost or overtaken. -/
structure Flow (py : Interpreter) (s : State) : Prop where
  quiet : ∀ t f m, s.term t = some f → f.inboxMessage = some m → isEvent m = false
  ordered : received s.results ++ underway s.eventQueue s.reader = events py s.wire

section
variable {cfg : Config} {s s' : State} {a : Action}

theorem Flow.init (py : Interpreter) : Flow py init := ⟨by simp [Client.init], rfl⟩

theorem quiet_update {term : Thread → Option TermFrame} {t : Thread} {f : TermFrame}
    (h : ∀ t f m, term t = some f → f.inboxMessage = some m → isEvent m = false)
    (hf : ∀ m, f.inboxMessage = some m → isEvent m = false) :
    ∀ u g m, Function.update term t (some f) u = some g → g.inboxMessage = some m →
      isEvent m = false := by
  intro u g m hu hm
  rcases eq_or_ne u t with rfl | hne
  · rw [Function.update_self, Option.some.injEq] at hu
    exact hf m (hu ▸ hm)
  · exact h u g m (by rwa [Function.update_of_ne hne] at hu) hm

theorem Step.quiet (h : Step cfg s a s')
    (hi : ∀ t f m, s.term t = some f → f.inboxMessage = some m → isEvent m = false) :
    ∀ t f m, s'.term t = some f → f.inboxMessage = some m → isEvent m = false := by
  cases h with
  | readShutdown pc packet hm =>
    refine quiet_update hi fun m heq => ?_
    obtain rfl := Option.some.inj heq
    exact isEvent_of_type hm (by decide)
  | readEof pc packet =>
    refine quiet_update hi fun m heq => ?_
    obtain rfl := Option.some.inj heq
    decide
  | closeStart term =>
    refine quiet_update hi fun m heq => ?_
    obtain rfl := Option.some.inj heq
    decide
  | late term | win term | sweep term | fail term | release term | announce term =>
    exact quiet_update hi fun m heq => hi _ _ m term heq
  | _ => first | exact hi | exact quiet_update hi (by simp)

theorem received_append (results : List RecvResult) (r : RecvResult) :
    received (results ++ [r]) = received results ++ r.event?.toList := by
  rw [received, List.filterMap_append, List.filterMap_cons, List.filterMap_nil]
  cases h : r.event? <;> rfl

theorem terminalItems_quiet {i : Option Dict} {r : Option Error}
    (h : ∀ m, i = some m → isEvent m = false) :
    (terminalItems i r).filterMap InboxItem.event? = [] := by
  cases i with
  | some m => simp [terminalItems, InboxItem.event?, h m rfl]
  | none => cases r <;> rfl

/-- The reader moves and keeps what it has in its hand. -/
theorem Flow.reader_update (hi : Flow cfg.py s) {reader : ReaderPc}
    (hhand : reader.hand? = s.reader.hand?) :
    received s.results ++ underway s.eventQueue reader = events cfg.py s.wire := by
  rw [← hi.ordered, underway, underway, ReaderPc.event?, ReaderPc.event?, hhand]

/-- The reader, with nothing in its hand, reads a packet. -/
theorem Flow.read (hi : Flow cfg.py s) {reader : ReaderPc} {r : Received} (pc : s.reader = .reading)
    (hr : reader.event? = (readRecord cfg.py r).filter isEvent) :
    received s.results ++ underway s.eventQueue reader = events cfg.py (s.wire ++ [r]) := by
  rw [events_append, ← hi.ordered, pc, underway, underway, hr]
  simp [ReaderPc.event?, ReaderPc.hand?]

/-- The reader lets go of a record that is no event. -/
theorem Flow.drop (hi : Flow cfg.py s) {reader : ReaderPc} {n : Nat} {m : Dict}
    (pc : s.reader = .dispatch n m) (hm : replyId m ≠ .ok none) (hhand : reader.hand? = none) :
    received s.results ++ underway s.eventQueue reader = events cfg.py s.wire := by
  have hevent : isEvent m = false := by
    rw [Bool.eq_false_iff]
    exact fun h => hm (replyId_of_event h)
  rw [← hi.ordered, underway, underway, ReaderPc.event?, ReaderPc.event?, hhand, pc]
  simp [ReaderPc.hand?, hevent]

theorem Flow.step (h : Step cfg s a s') (hi : Flow cfg.py s) : Flow cfg.py s' := by
  refine ⟨h.quiet hi.quiet, ?_⟩
  have hord := hi.ordered
  cases h with
  | ensureOpen => exact hi.reader_update s.startReader_hand
  | recvStart =>
    refine hi.reader_update ?_
    split_ifs
    · rfl
    · exact s.startReader_hand
  | readerTest pc =>
    refine hi.reader_update ?_
    split_ifs <;> simp [pc, ReaderPc.hand?]
  | readFailed pc => exact hi.read pc rfl
  | readBad pc packet =>
    exact hi.read pc (by
      simp [readRecord, packet, Except.toOption, State.readerTerminate, ReaderPc.event?,
        ReaderPc.hand?])
  | readEof pc packet =>
    exact hi.read pc (by
      simp [readRecord, packet, Except.toOption, State.readerTerminate, ReaderPc.event?,
        ReaderPc.hand?])
  | readShutdown pc packet hm =>
    have hevent := isEvent_of_type hm (by decide)
    exact hi.read pc (by
      simp [readRecord, packet, Except.toOption, State.readerTerminate, ReaderPc.event?,
        ReaderPc.hand?, Option.filter_some, hevent])
  | read pc packet hm =>
    exact hi.read pc (by simp [readRecord, packet, Except.toOption, ReaderPc.event?, ReaderPc.hand?])
  | readerFailed pc => exact hi.reader_update (by rw [pc]; rfl)
  | unhashable pc hm => exact hi.drop pc (by simp [hm]) rfl
  | deliver pc hm =>
    rw [State.put_of_empty _ ‹_›]
    exact hi.drop pc (by simp [hm]) rfl
  | @enqueue n m pc =>
    show received s.results ++ underway (s.eventQueue ++ [.record (some n) m]) .loop =
      events cfg.py s.wire
    rw [← hord, underway, underway, List.filterMap_append, pc]
    cases hm : (some m).filter isEvent <;>
      simp [InboxItem.event?, ReaderPc.event?, ReaderPc.hand?, hm]
  | @announce t e i r term =>
    show received s.results ++ underway (s.eventQueue ++ terminalItems i r) s.reader =
      events cfg.py s.wire
    rw [← hord, underway, underway, List.filterMap_append,
      terminalItems_quiet fun m hm => hi.quiet _ _ m term hm, List.append_nil]
  | @recvItem item rest queue pc =>
    show received (s.results ++ [item.result]) ++ underway rest s.reader =
      events cfg.py s.wire
    rw [← hord, received_append, underway, underway, queue, InboxItem.event?_result]
    cases hm : item.event? <;> simp [hm]
  | recvTerminal pc =>
    show received (s.results ++ [.terminal (terminalRecvResult s)]) ++ _ = _
    have hnone : (RecvResult.terminal (terminalRecvResult s)).event? = none := by
      unfold terminalRecvResult
      cases s.terminalRecvError <;> rfl
    rw [received_append, hnone, Option.toList_none, List.append_nil]
    exact hord
  | _ => first | exact hord | exact hi.reader_update (by simp [ReaderPc.hand?, *])

/-! ### Behind the end -/

/-- The reader ended the channel, and not a sender or a local close. -/
def State.EndedByReader (s : State) : Prop := ∃ f, s.term .reader = some f ∧ f.pc.won = true

/-- How many records the reader can put into the queue without another look at `_closed`. -/
def ReaderPc.busy : ReaderPc → Nat
  | .reading | .dispatch .. | .enqueue .. => 1
  | _ => 0

theorem ReaderPc.busy_le (pc : ReaderPc) : pc.busy ≤ 1 := by cases pc <;> simp [busy]

theorem ReaderPc.busy_of_late {pc : ReaderPc} (h : pc.late = true) : pc.busy = 0 := by
  cases pc <;> simp_all [late, busy]

/-- One record comes too late at most, and none behind an end that the reader met. -/
def Spare (s : State) (n : Nat) : Prop := n ≤ 1 ∧ (s.EndedByReader → n = 0)

/-- How many events `recv` may still give once the client is closed. -/
def State.coming (s : State) : Nat :=
  (s.eventQueue.filterMap InboxItem.event?).length + s.reader.busy

theorem underway_le_coming : (underway s.eventQueue s.reader).length ≤ s.coming := by
  rw [underway, List.length_append, State.coming]
  refine Nat.add_le_add_left ?_ _
  cases s.reader <;> simp [ReaderPc.event?, ReaderPc.hand?, ReaderPc.busy]

theorem Step.closed_kept (h : Step cfg s a s') (hc : s.closed = true) : s'.closed = true := by
  cases h with
  | win => rfl
  | _ => exact hc

/-- Once the client is closed no other attempt wins. -/
theorem Step.won_back (h : Step cfg s a s') (hc : s.closed = true) {t : Thread} {f : TermFrame}
    (hf : s'.term t = some f) (hw : f.pc.won = true) :
    ∃ g, s.term t = some g ∧ g.pc.won = true := by
  have key : ∀ u g, (t = u → g.pc.won = true → ∃ g', s.term u = some g' ∧ g'.pc.won = true) →
      Function.update s.term u (some g) t = some f → ∃ g, s.term t = some g ∧ g.pc.won = true := by
    intro u g hg hu
    rcases eq_or_ne t u with rfl | hne
    · rw [Function.update_self, Option.some.injEq] at hu
      exact hg rfl (hu ▸ hw)
    · exact ⟨f, by rwa [Function.update_of_ne hne] at hu, hw⟩
  cases h with
  | win term hopen => simp [hc] at hopen
  | sweep term | fail term | release term | announce term =>
    exact key _ _ (fun _ _ => ⟨_, term, rfl⟩) hf
  | _ => first | exact ⟨f, hf, hw⟩ | exact key _ _ (by simp [TermPc.won]) hf

theorem Spare.step {n n' : Nat} (h : Spare s n) (hs : Step cfg s a s') (hc : s.closed = true)
    (hn : n' ≤ n) : Spare s' n' := by
  refine ⟨Nat.le_trans hn h.1, fun hended => ?_⟩
  obtain ⟨f, hf, hw⟩ := hended
  have hzero := h.2 (hs.won_back hc hf hw)
  omega

theorem Step.busy_le (h : Step cfg s a s') (hc : s.closed = true) :
    s'.reader.busy ≤ s.reader.busy := by
  cases h with
  | ensureOpen pc hopen => simp [hc] at hopen
  | recvStart pc =>
    show (if s.closed then s.reader else s.startReader.reader).busy ≤ _
    rw [if_pos hc]
  | readerTest pc => simp [hc, ReaderPc.busy]
  | read pc | notReply pc | unknown pc | full pc => simp [pc, ReaderPc.busy]
  | _ => first | exact le_rfl | exact Nat.zero_le _

theorem Step.coming_le (h : Step cfg s a s') (hi : Flow cfg.py s) (hc : s.closed = true) :
    s'.coming ≤ s.coming := by
  have hbusy := h.busy_le hc
  cases h with
  | @enqueue n m pc =>
    show ((s.eventQueue ++ [InboxItem.record (some n) m]).filterMap InboxItem.event?).length + 0 ≤ _
    rw [State.coming, List.filterMap_append, List.length_append, pc, Nat.add_zero]
    refine Nat.add_le_add_left ?_ _
    exact (List.length_filterMap_le _ _)
  | @announce t e i r term =>
    show ((s.eventQueue ++ terminalItems i r).filterMap InboxItem.event?).length + _ ≤ _
    rw [List.filterMap_append, terminalItems_quiet fun m hm => hi.quiet _ _ m term hm,
      List.append_nil]
    exact le_rfl
  | @recvItem item rest queue pc =>
    show (rest.filterMap InboxItem.event?).length + _ ≤ _
    rw [State.coming, queue]
    refine Nat.add_le_add_right ?_ _
    exact (((List.sublist_cons_self item rest).filterMap _).length_le)
  | _ => exact Nat.add_le_add_left hbusy _

/-- Behind the terminal item of the queue comes what the reader could not hold back. -/
structure Behind (s : State) : Prop where
  queued : s.eventQueue <:+ s.enqueued
  spare : ∀ front x back, s.enqueued = front ++ x :: back → x.isTerminal = true →
    s.closed = true ∧ Spare s (back.length + s.reader.busy)

theorem Behind.init : Behind init := ⟨List.suffix_rfl, by simp [Client.init]⟩

/-- The reader that ended the channel has stopped reading. -/
theorem Inv.busy_zero {py : Interpreter} (inv : Inv py s) (h : s.EndedByReader) :
    s.reader.busy = 0 := by
  obtain ⟨f, hf, -⟩ := h
  rcases inv.frames.entered _ f hf with ⟨-, hlate⟩ | ⟨k, hk⟩ | ⟨g, hg, -⟩
  · exact ReaderPc.busy_of_late hlate
  · cases hk
  · simp [inv.sends.reader] at hg

theorem suffix_append {α : Type*} {xs ys : List α} (h : xs <:+ ys) (zs : List α) :
    xs ++ zs <:+ ys ++ zs := by
  obtain ⟨front, rfl⟩ := h
  exact ⟨front, (List.append_assoc ..).symm⟩

/-- Where an element stands in a list with one more element at its end. -/
theorem split_concat {α : Type*} {xs front back : List α} {x y : α}
    (h : xs ++ [y] = front ++ x :: back) :
    back = [] ∧ x = y ∨ ∃ back', back = back' ++ [y] ∧ xs = front ++ x :: back' := by
  rcases List.eq_nil_or_concat back with rfl | ⟨back', b, rfl⟩
  · obtain ⟨-, hxy⟩ := List.append_inj' h rfl
    exact .inl ⟨rfl, (List.cons.inj hxy).1.symm⟩
  · rw [List.concat_eq_append, ← List.cons_append, ← List.append_assoc] at h
    obtain ⟨hxs, hy⟩ := List.append_inj' h rfl
    exact .inr ⟨back', by rw [List.concat_eq_append, (List.cons.inj hy).1], hxs⟩

theorem Behind.step (hi : Behind s) (h : Step cfg s a s') (inv : Inv cfg.py s) : Behind s' := by
  have inv' := inv.step h
  have keep : s'.enqueued = s.enqueued → ∀ front x back, s'.enqueued = front ++ x :: back →
      x.isTerminal = true → s'.closed = true ∧ Spare s' (back.length + s'.reader.busy) := by
    intro hsame front x back heq hx
    obtain ⟨hc, hspare⟩ := hi.spare front x back (hsame ▸ heq) hx
    exact ⟨h.closed_kept hc, hspare.step h hc (Nat.add_le_add_left (h.busy_le hc) _)⟩
  have hstep := h
  cases h with
  | @enqueue n m pc =>
    refine ⟨suffix_append hi.queued _, fun front x back heq hx => ?_⟩
    rcases split_concat heq with ⟨-, rfl⟩ | ⟨back', rfl, hold⟩
    · cases hx
    · obtain ⟨hc, hspare⟩ := hi.spare front x back' hold hx
      refine ⟨hc, hspare.step hstep hc ?_⟩
      rw [pc, List.length_append]
      exact le_rfl
  | @announce t e i r term =>
    refine ⟨suffix_append hi.queued _, fun front x back heq hx => ?_⟩
    obtain ⟨y, hy⟩ := List.length_eq_one_iff.mp (inv.terms.item t _ term)
    have hc := (inv.terms.cause t _ term rfl).1
    have heq : s.enqueued ++ terminalItems i r = front ++ x :: back := heq
    rw [show terminalItems i r = [y] from hy] at heq
    rcases split_concat heq with ⟨rfl, -⟩ | ⟨back', -, hold⟩
    · rw [List.length_nil, Nat.zero_add]
      exact ⟨hc, ReaderPc.busy_le _, inv'.busy_zero⟩
    · -- the winner has not announced the end before
      have hzero := inv.mailbox.silent fun u f hu hp => by
        have hut := inv.terms.unique u t f _ hu term (by simp [hp, TermPc.won]) rfl
        rw [hut, term, Option.some.injEq] at hu
        simp [← hu] at hp
      have hmem : x ∈ s.enqueued := hold ▸ List.mem_append_right _ (List.mem_cons_self ..)
      exact absurd hx (by simpa using List.countP_eq_zero.mp hzero x hmem)
  | recvItem queue pc =>
    refine ⟨?_, keep rfl⟩
    exact (List.suffix_cons _ _).trans (queue ▸ hi.queued)
  | _ => exact ⟨hi.queued, keep rfl⟩

end

end Msys.Client
