import MsysSdk.Client.Delivery
import MsysSdk.Waiters.Log

/-! A record is put in one place only, and the event queue holds the records put there and
at most one terminal item. -/

namespace Msys.Client
open Python Transition

/-- The record in what the reader has read, also one that ends the channel. -/
def readRecord (py : Interpreter) : Received → Option Dict
  | .osError _ => none
  | .data b => (readPacket py b).toOption.join

/-- The record the reader has read and not yet routed. -/
def ReaderPc.hand? : ReaderPc → Option (Nat × Dict)
  | .dispatch n m | .enqueue n m => some (n, m)
  | _ => none

theorem hand_of_late {pc : ReaderPc} (h : pc.late = true) : pc.hand? = none := by
  cases pc <;> simp_all [ReaderPc.late, ReaderPc.hand?]

def numbered (r : Routed) : Nat × Dict := (r.serial, r.message)

theorem State.startReader_hand (s : State) : s.startReader.reader.hand? = s.reader.hand? := by
  unfold State.startReader
  split_ifs with h
  · simp [h, ReaderPc.hand?]
  · rfl

abbrev Seen (py : Interpreter) (s : State) : Prop :=
  Waiters.Seen (readRecord py) answers s.wire (s.routed.map numbered) s.reader.hand?

theorem seen_step {cfg : Config} {s s' : State} {a : Action} (h : Step cfg s a s')
    (hi : Seen cfg.py s) : Seen cfg.py s' := by
  have same : ∀ reader : ReaderPc, reader.hand? = s.reader.hand? →
      Waiters.Seen (readRecord cfg.py) answers s.wire (s.routed.map numbered) reader.hand? :=
    fun reader hr => hr ▸ hi
  have route : ∀ n m p, s.reader.hand? = some (n, m) →
      Waiters.Seen (readRecord cfg.py) answers s.wire
        ((s.routed ++ [Routed.mk n m p]).map numbered) none := by
    intro n m p hn
    rw [List.map_append]
    exact hi.place hn
  cases h with
  | ensureOpen => exact same _ s.startReader_hand
  | recvStart =>
    refine same _ ?_
    split_ifs
    · rfl
    · exact s.startReader_hand
  | readerTest pc =>
    refine same _ ?_
    split_ifs <;> simp [pc, ReaderPc.hand?]
  | readFailed pc => exact hi.skip (by rw [pc]; rfl) rfl
  | readBad pc packet =>
    exact hi.skip (by rw [pc]; rfl) (by simp [Waiters.entryId, readRecord, packet, Except.toOption])
  | readEof pc packet =>
    exact hi.skip (by rw [pc]; rfl) (by simp [Waiters.entryId, readRecord, packet, Except.toOption])
  | readShutdown pc packet hm =>
    have hnone := answers_of_type hm (by decide) (by decide)
    refine hi.skip (by rw [pc]; rfl) ?_
    simpa [Waiters.entryId, readRecord, packet, Except.toOption] using hnone
  | @read b m pc packet =>
    have hm : readRecord cfg.py (.data b) = some m := by simp [readRecord, packet, Except.toOption]
    exact hi.read (by rw [pc]; rfl) (fun _ _ => hm) (fun _ _ => hm)
  | readerFailed pc => exact same .terminating (by rw [pc]; rfl)
  | @unhashable n m text pc hm =>
    have hhand : s.reader.hand? = some (n, m) := by rw [pc]; rfl
    exact hi.drop hhand (by simp [answers, hm, Except.toOption])
  | deliver pc hm lock look slot =>
    rw [State.put_of_empty _ slot]
    exact route _ _ _ (by rw [pc]; rfl)
  | enqueue pc => exact route _ _ _ (by rw [pc]; rfl)
  | @fail t e i r c ws term =>
    cases slot : s.waiter c with
    | some x =>
      rw [State.put_of_full _ slot]
      exact hi
    | none =>
      rw [State.put_of_empty _ slot]
      exact hi
  | _ => first | exact hi | exact same _ (by simp [ReaderPc.hand?, *])

/-! ### The event queue -/

def InboxItem.isTerminal : InboxItem → Bool
  | .record (some _) _ => false
  | _ => true

structure Mailbox (enqueued : List InboxItem) (routed : List Routed)
    (term : Thread → Option TermFrame) : Prop where
  mailed : ∀ n m, .record (some n) m ∈ enqueued ↔ ⟨n, m, .mailbox⟩ ∈ routed
  announced : ∀ t f, term t = some f → f.pc = .returned true →
    enqueued.countP InboxItem.isTerminal = 1
  silent : (∀ t f, term t = some f → f.pc ≠ .returned true) →
    enqueued.countP InboxItem.isTerminal = 0

/-- The items `_terminate` puts are terminal. -/
theorem countP_terminalItems (i : Option Dict) (r : Option Error) :
    (terminalItems i r).countP InboxItem.isTerminal = (terminalItems i r).length := by
  unfold terminalItems
  split <;> rfl

theorem not_mem_terminalItems {i : Option Dict} {r : Option Error} {n : Nat} {m : Dict} :
    InboxItem.record (some n) m ∉ terminalItems i r := by
  unfold terminalItems
  split <;> simp

theorem Mailbox.step {cfg : Config} {s s' : State} {a : Action} (h : Step cfg s a s')
    (hs : Sends s.caller s.send) (hf : Frames s.send s.term s.reader)
    (ht : Terms s.closed s.terminalCallError s.terminalRecvError s.term)
    (hi : Mailbox s.enqueued s.routed s.term) : Mailbox s'.enqueued s'.routed s'.term := by
  -- Only the step that announces the end makes an attempt return with effect.
  have keep : (∀ t, a ≠ .termAnnounce t) → Mailbox s.enqueued s.routed s'.term := by
    intro ha
    refine { hi with announced := fun t f hf hp => ?_, silent := fun hret => hi.silent ?_ }
    · exact hi.announced t f (h.returned_of hf hp (ha t)) hp
    · intro t g hg hp
      obtain ⟨f, hf, hadv⟩ := h.term_kept hs hf hg
      obtain rfl := hadv.returned _ hp
      exact hret t f hf hp
  cases h with
  | deliver pc =>
    have hi := keep (by simp)
    exact { hi with mailed := fun n m => by simp [State.put, hi.mailed] }
  | enqueue pc =>
    have hi := keep (by simp)
    exact { mailed := fun n m => by simp [hi.mailed]
            announced := fun t f hf hp => by simpa [InboxItem.isTerminal] using hi.announced t f hf hp
            silent := fun hs => by simpa [InboxItem.isTerminal] using hi.silent hs }
  | @announce t e i r term =>
    have hitem := ht.item t _ term
    -- no other attempt has announced the end, for the winner is unique
    have hzero : s.enqueued.countP InboxItem.isTerminal = 0 := by
      refine hi.silent fun u f hu hp => ?_
      have hut := ht.unique u t f _ hu term (by simp [hp, TermPc.won]) rfl
      rw [hut, term, Option.some.injEq] at hu
      simp [← hu] at hp
    have hone : (s.enqueued ++ terminalItems i r).countP InboxItem.isTerminal = 1 := by
      rw [List.countP_append, hzero, countP_terminalItems, hitem]
    refine ⟨fun n m => ?_, fun _ _ _ _ => hone, fun hs => ?_⟩
    · simp [State.setTerm, not_mem_terminalItems, hi.mailed]
    · exact absurd rfl (hs t _ (Function.update_self ..))
  | _ => exact keep (by simp)

/-! ### All of it -/

structure Inv (py : Interpreter) (s : State) : Prop where
  ids : Waiters.Ids CallPc.id? s.caller s.nextId
  sends : Sends s.caller s.send
  frames : Frames s.send s.term s.reader
  terms : Terms s.closed s.terminalCallError s.terminalRecvError s.term
  lock : Lock s.pendingLock s.caller s.term
  table : Table s.caller s.pending s.term
  slots : Waiters.Slots CallPc.untaken s.caller s.waiter s.given
  delivery : Delivery s.caller s.given s.routed s.term
  covered : Waiters.Covered CallPc.open? s.caller s.pending (Busy s.term) s.given
  seen : Seen py s
  mailbox : Mailbox s.enqueued s.routed s.term

theorem inv_init (py : Interpreter) : Inv py init where
  ids := ⟨by simp [init, CallPc.id?], by simp [init, CallPc.id?]⟩
  sends := ⟨fun _ _ => rfl, by simp [init], rfl, fun _ => rfl⟩
  frames := ⟨by simp [init]⟩
  terms := ⟨by simp [init], by simp [init], by simp [init], by simp [init]⟩
  lock := ⟨by simp [init], by simp [init], by simp [init]⟩
  table := ⟨Waiters.Listed.empty, by simp [init], by simp [init]⟩
  slots := ⟨by simp [init], fun _ _ => rfl⟩
  delivery := ⟨by simp [init, CallPc.result?], by simp [init, CallPc.result?], by simp [init],
    by simp [init], by simp [init]⟩
  covered := fun c i hc => by simp [init, CallPc.open?] at hc
  seen := Waiters.Seen.nil
  mailbox := ⟨by simp [init], by simp [init], by simp [init]⟩

theorem Inv.step {cfg : Config} {s s' : State} {a : Action} (hi : Inv cfg.py s)
    (h : Step cfg s a s') : Inv cfg.py s' where
  ids := ids_step h hi.ids
  sends := hi.sends.step h
  frames := hi.frames.step h hi.sends
  terms := hi.terms.step h hi.sends hi.frames
  lock := hi.lock.step h hi.terms
  table := hi.table.step h hi.sends hi.lock
  slots := slots_step h hi.slots
  delivery := hi.delivery.step h hi.sends hi.frames hi.table hi.slots
  covered := covered_step h hi.ids hi.sends hi.frames hi.slots hi.covered
  seen := seen_step h hi.seen
  mailbox := hi.mailbox.step h hi.sends hi.frames hi.terms

theorem reach_inv {cfg : Config} {ok : State → Action → Prop} {s : State}
    (h : Reach (step cfg) ok init s) : Inv cfg.py s :=
  h.invariant (inv_init cfg.py) fun _ _ _ hi _ hs => hi.step (step_sound hs)

end Msys.Client
