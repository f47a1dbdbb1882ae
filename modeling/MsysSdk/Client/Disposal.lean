import MsysSdk.Client.Routing

/-! What becomes of a record the reader has read: a waiter gets it, or the event queue, or it
ends the client. The reader ends the client itself when the `type` of the record has no hash. -/

namespace Msys.Client
open Python Transition

variable {cfg : Config} {s s' : State} {a : Action} {n : Nat} {m : Dict}

/-- One waiter was given the record, and nothing else has it. -/
structure InWaiter (n : Nat) (m : Dict) (c : Nat) (s : State) : Prop where
  given : .record (some n) m ∈ s.given c
  only : ∀ d m', .record (some n) m' ∈ s.given d → d = c
  queue : ∀ m', .record (some n) m' ∉ s.enqueued

/-- The event queue was given the record, and nothing else has it. -/
structure InMailbox (n : Nat) (m : Dict) (s : State) : Prop where
  queue : .record (some n) m ∈ s.enqueued
  only : ∀ d m', .record (some n) m' ∉ s.given d

/-- The reader ends the client for the shutdown record. -/
structure ShutDown (py : Interpreter) (n : Nat) (m : Dict) (s : State) : Prop where
  type : (field m "type").isKey (str "shutdown") = true
  error : ∃ f, s.term .reader = some f ∧ f.callError = ⟨.shutdown, [shutdownReason py m]⟩
  unplaced : ∀ r ∈ s.routed, r.serial ≠ n

/-- The record `m`, the `n`th on the wire, is in the reader's hand or disposed of. The reader,
while it has read nothing after the record, is not ending the client with a protocol error, and
only the lock keeps it from going on. -/
structure Disposed (cfg : Config) (n : Nat) (m : Dict) (s : State) : Prop where
  place : s.reader.hand? = some (n, m) ∨
    (∃ c, s.routed.filter (·.serial = n) = [⟨n, m, .waiter c⟩] ∧ InWaiter n m c s) ∨
    (s.routed.filter (·.serial = n) = [⟨n, m, .mailbox⟩] ∧ InMailbox n m s) ∨
    ShutDown cfg.py n m s
  protocol : s.wire.length = n → s.reader = .terminating → ∀ f, s.term .reader = some f →
    f.callError.errorType ≠ .protocol
  moves : s.reader.hand? = some (n, m) → s.pendingLock = none →
    ∃ a, (a = .readerDispatch ∨ a = .readerEnqueue) ∧ (step cfg s a).isSome = true

/-- The three stages of a record that the reader can look at without an exception. -/
inductive Stage (py : Interpreter) (n : Nat) (m : Dict) (s : State) : Prop
  | hand (hand : s.reader.hand? = some (n, m))
  | placed (p : Place) (routed : ⟨n, m, p⟩ ∈ s.routed)
      (reader : s.wire.length = n → s.reader = .loop ∨ s.reader = .reading ∨ s.reader = .stopped)
  | shut (end' : ShutDown py n m s) (late : s.reader.late = true)

theorem ReaderPc.hand?_eq_some {pc : ReaderPc} :
    pc.hand? = some (n, m) ↔ pc = .dispatch n m ∨ pc = .enqueue n m := by
  cases pc <;> simp [hand?]

/-- A record that has its number is not read a second time. -/
theorem Seen.routed_le {py : Interpreter} (h : Seen py s) {r : Routed} (hr : r ∈ s.routed) :
    r.serial ≤ s.wire.length :=
  h.bound (numbered r) (List.mem_append_left _ (List.mem_map_of_mem hr))

theorem Step.routed_mono (h : Step cfg s a s') {r : Routed} (hr : r ∈ s.routed) :
    r ∈ s'.routed := by
  have put : ∀ c item, (s.put c item).routed = s.routed := fun _ _ => rfl
  cases h <;> first | exact hr | exact List.mem_append_left _ hr

theorem ShutDown.step (h : Step cfg s a s') (inv : Inv cfg.py s) (hi : ShutDown cfg.py n m s)
    (hl : s.reader.late = true) : ShutDown cfg.py n m s' ∧ s'.reader.late = true := by
  obtain ⟨g, hg, he⟩ := hi.error
  obtain ⟨f, hf, hadv⟩ := h.term_kept inv.sends inv.frames hg
  have herror : ∃ f, s'.term .reader = some f ∧
      f.callError = ⟨.shutdown, [shutdownReason cfg.py m]⟩ := ⟨f, hf, hadv.callError.trans he⟩
  -- a late reader has no record in hand, so nothing is placed
  have hstay : s'.routed = s.routed ∧ s'.reader.late = true := by
    cases h with
    | ensureOpen => exact ⟨rfl, s.startReader_late hl⟩
    | recvStart =>
      refine ⟨rfl, ?_⟩
      show (if s.closed then s.reader else s.startReader.reader).late = true
      split_ifs
      · exact hl
      · exact s.startReader_late hl
    | _ => first | exact ⟨rfl, hl⟩ | exact ⟨rfl, rfl⟩ | simp_all [ReaderPc.late]
  exact ⟨⟨hi.type, herror, hstay.1 ▸ hi.unplaced⟩, hstay.2⟩

theorem Stage.step (h : Step cfg s a s') (inv : Inv cfg.py s)
    (hm : hashable (field m "type") = true) (hi : Stage cfg.py n m s) : Stage cfg.py n m s' := by
  -- on where the record is; only the reader's own steps move it on
  cases hi with
  | hand hand =>
    have same : s'.reader = s.reader → Stage cfg.py n m s' := fun hr => .hand (hr ▸ hand)
    have started : s.startReader.reader.hand? = some (n, m) := s.startReader_hand.trans hand
    have moved : ∀ n' m', s.reader = .dispatch n' m' → s'.reader = .enqueue n' m' →
        Stage cfg.py n m s' := fun n' m' hpc hr => .hand (by rw [hr, ← hand, hpc]; rfl)
    cases h with
    | ensureOpen => exact .hand started
    | recvStart =>
      refine .hand ?_
      show (if s.closed then s.reader else s.startReader.reader).hand? = some (n, m)
      split_ifs
      · exact hand
      · exact started
    | unhashable pc text =>
      rw [pc] at hand
      obtain ⟨rfl, rfl⟩ := Prod.mk.inj (Option.some.inj hand)
      exact absurd text (replyId_of_hashable hm)
    | notReply pc => exact moved _ _ pc rfl
    | unknown pc => exact moved _ _ pc rfl
    | full pc => exact moved _ _ pc rfl
    | deliver pc =>
      rw [pc] at hand
      obtain ⟨rfl, rfl⟩ := Prod.mk.inj (Option.some.inj hand)
      exact .placed (.waiter _) (List.mem_append_right _ (List.mem_singleton_self _))
        fun _ => .inl rfl
    | enqueue pc =>
      rw [pc] at hand
      obtain ⟨rfl, rfl⟩ := Prod.mk.inj (Option.some.inj hand)
      exact .placed .mailbox (List.mem_append_right _ (List.mem_singleton_self _)) fun _ => .inl rfl
    | _ => first | exact same rfl | simp_all [ReaderPc.hand?]
  | placed p routed reader =>
    refine .placed p (h.routed_mono routed) fun hn => ?_
    have hle : n ≤ s.wire.length := inv.seen.routed_le routed
    have past : ∀ r : Received, (s.wire ++ [r]).length ≠ n := by
      intro r
      rw [List.length_append, List.length_singleton]
      exact fun hl => absurd hle (by omega)
    cases h with
    | ensureOpen =>
      unfold State.setCaller State.startReader
      dsimp only
      split_ifs
      · exact .inl rfl
      · exact reader hn
    | recvStart =>
      unfold State.startReader
      dsimp only
      split_ifs
      · exact reader hn
      · exact .inl rfl
      · exact reader hn
    | readerTest pc =>
      dsimp only
      split_ifs
      · exact .inr (.inr rfl)
      · exact .inr (.inl rfl)
    | readFailed => exact absurd hn (past _)
    | readBad => exact absurd hn (past _)
    | readEof => exact absurd hn (past _)
    | readShutdown => exact absurd hn (past _)
    | read => exact absurd hn (past _)
    | deliver => exact .inl rfl
    | enqueue => exact .inl rfl
    | readerDead => exact .inr (.inr rfl)
    | readerStop => exact .inr (.inr rfl)
    | readerFailed pc => simp [pc] at reader; exact absurd hn reader
    | unhashable pc => simp [pc] at reader; exact absurd hn reader
    | notReply pc => simp [pc] at reader; exact absurd hn reader
    | unknown pc => simp [pc] at reader; exact absurd hn reader
    | full pc => simp [pc] at reader; exact absurd hn reader
    | _ => exact reader hn
  | shut hshut late =>
    obtain ⟨hshut, late⟩ := hshut.step h inv late
    exact .shut hshut late

/-- A list with no key twice has one entry for the key of an entry. -/
theorem filter_key {ρ κ : Type*} [DecidableEq κ] {key : ρ → κ} {rs : List ρ} {r : ρ}
    (h : (rs.map key).Nodup) (hr : r ∈ rs) : rs.filter (fun x => key x = key r) = [r] := by
  induction rs with
  | nil => cases hr
  | cons x rs ih =>
    obtain ⟨hx, hrs⟩ := List.nodup_cons.mp h
    rcases List.mem_cons.mp hr with rfl | hr
    · rw [List.filter_cons_of_pos (by simp), List.filter_eq_nil_iff.mpr]
      intro y hy heq
      exact hx (List.mem_map.mpr ⟨y, hy, of_decide_eq_true heq⟩)
    · rw [List.filter_cons_of_neg, ih hrs hr]
      simp only [decide_eq_true_eq]
      exact fun heq => hx (List.mem_map.mpr ⟨r, hr, heq.symm⟩)

theorem Inv.same_place {py : Interpreter} (inv : Inv py s) {m' : Dict} {p p' : Place}
    (h : ⟨n, m, p⟩ ∈ s.routed) (h' : ⟨n, m', p'⟩ ∈ s.routed) : p = p' :=
  congrArg Routed.place (List.inj_on_of_nodup_map inv.serials h h' rfl)

theorem Inv.inWaiter {py : Interpreter} (inv : Inv py s) {c : Nat}
    (h : ⟨n, m, .waiter c⟩ ∈ s.routed) : InWaiter n m c s where
  given := (inv.delivery.routed c n m h).1
  only := by
    intro d m' hd
    obtain ⟨k, hk, hr⟩ := inv.delivery.records d _ m' hd
    obtain rfl := Option.some.inj hk
    exact (Place.waiter.inj (inv.same_place h hr)).symm
  queue := fun m' hm' => by cases inv.same_place h ((inv.mailbox.mailed n m').mp hm')

theorem Inv.inMailbox {py : Interpreter} (inv : Inv py s)
    (h : ⟨n, m, .mailbox⟩ ∈ s.routed) : InMailbox n m s where
  queue := (inv.mailbox.mailed n m).mpr h
  only := by
    intro d m' hd
    obtain ⟨k, hk, hr⟩ := inv.delivery.records d _ m' hd
    obtain rfl := Option.some.inj hk
    cases inv.same_place h hr

theorem readerTerminate_term (wire : List Received) (e : Error) (i : Option Dict)
    (r : Option Error) : (s.readerTerminate wire e i r).term .reader = some ⟨e, i, r, .enter⟩ := by
  show Function.update s.term .reader (some ⟨e, i, r, .enter⟩) .reader = _
  rw [Function.update_self]

theorem readerDispatch_unhashable {text : Str} (pc : s.reader = .dispatch n m)
    (hm : replyId m = .error text) : step cfg s .readerDispatch =
      some (s.readerTerminate s.wire (readerError text) none (some (readerError text))) := by
  simp only [step, readerDispatch, pc, hm]

theorem readerDispatch_isSome (pc : s.reader = .dispatch n m) (lock : s.pendingLock = none) :
    (step cfg s .readerDispatch).isSome = true := by
  simp only [step, readerDispatch, pc, lock]
  split
  · rfl
  · rfl
  · split
    · rfl
    · split <;> rfl

theorem Stage.disposed (inv : Inv cfg.py s) (hi : Stage cfg.py n m s) : Disposed cfg n m s := by
  cases hi with
  | hand hand =>
    have hpc := ReaderPc.hand?_eq_some.mp hand
    refine ⟨.inl hand, fun _ ht => ?_, fun _ lock => ?_⟩
    · rw [ht] at hand
      cases hand
    · rcases hpc with pc | pc
      · exact ⟨_, .inl rfl, readerDispatch_isSome pc lock⟩
      · exact ⟨_, .inr rfl, by simp [Client.step, readerEnqueue, pc]⟩
  | placed p routed reader =>
    have hnew : s.reader.hand? ≠ some (n, m) := fun hh =>
      inv.seen.hand_new hh (List.mem_map_of_mem (f := numbered) routed)
    refine ⟨.inr ?_, fun hn ht => ?_, fun hh => absurd hh hnew⟩
    · have hone : s.routed.filter (fun r => r.serial = n) = [⟨n, m, p⟩] :=
        filter_key inv.serials routed
      cases p with
      | waiter c => exact .inl ⟨c, hone, inv.inWaiter routed⟩
      | mailbox => exact .inr (.inl ⟨hone, inv.inMailbox routed⟩)
    · simp [ht] at reader
      exact absurd hn reader
  | shut hshut late =>
    refine ⟨.inr (.inr (.inr hshut)), fun _ _ f hf => ?_, fun hh => ?_⟩
    swap
    · cases (hand_of_late late).symm.trans hh
    obtain ⟨g, hg, he⟩ := hshut.error
    obtain rfl := Option.some.inj (hf.symm.trans hg)
    rw [he]
    show ErrorType.shutdown ≠ ErrorType.protocol
    decide

theorem readerRead_stage {b : Bytes} (inv : Inv cfg.py s)
    (hp : readPacket cfg.py b = .ok (some m)) (h : Step cfg s (.readerRead (.data b)) s') :
    Stage cfg.py (s.wire.length + 1) m s' := by
  cases h with
  | readBad pc packet => cases hp.symm.trans packet
  | readEof pc packet => cases hp.symm.trans packet
  | readShutdown pc packet hm =>
    cases hp.symm.trans packet
    refine .shut ⟨hm, ⟨_, readerTerminate_term .., rfl⟩, fun r hr hn => ?_⟩ rfl
    exact absurd (inv.seen.routed_le hr) (by omega)
  | read pc packet hm =>
    cases hp.symm.trans packet
    exact .hand rfl

theorem replyId_of_unhashable {m : Dict} (h : hashable (field m "type") = false) :
    ∃ text, replyId m = .error text := by
  unfold replyId
  cases hv : field m "type" <;> simp_all [hashable, Value.inStrings]

/-- With every other thread of the client and at every moment: an object record is disposed of,
whatever its fields hold, unless its `type` is an array or an object. -/
theorem records_disposed {b : Bytes} (hr : Reach (step cfg) Any init s)
    (hp : readPacket cfg.py b = .ok (some m)) (hs : step cfg s (.readerRead (.data b)) = some s') :
    (∀ t, Reach (step cfg) Any s' t → Disposed cfg (s.wire.length + 1) m t) ↔
      hashable (field m "type") = true := by
  have hr' : Reach (step cfg) Any init s' := hr.next trivial hs
  constructor
  · intro hall
    by_contra hm
    obtain ⟨text, htext⟩ := replyId_of_unhashable (Bool.eq_false_iff.mpr hm)
    cases step_sound hs with
    | readBad pc packet => cases hp.symm.trans packet
    | readEof pc packet => cases hp.symm.trans packet
    | readShutdown pc packet htype =>
      cases hp.symm.trans packet
      rw [Value.isKey_iff.mp htype] at hm
      exact hm rfl
    | read pc packet htype =>
      cases hp.symm.trans packet
      -- the set test raises TypeError, whatever else is going on
      have hstep : step cfg { s with
          reader := .dispatch (s.wire.length + 1) m
          wire := s.wire ++ [.data b] } .readerDispatch = some _ :=
        readerDispatch_unhashable rfl htext
      exact (hall _ (.next .start trivial hstep)).protocol (by simp [State.readerTerminate]) rfl _
        (readerTerminate_term ..) rfl
  · intro hm t ht
    have hstage := ht.invariant_of (P := Stage cfg.py (s.wire.length + 1) m)
      (fun _ ht => reach_inv (hr'.trans ht)) (readerRead_stage (reach_inv hr) hp (step_sound hs))
      fun _ _ _ inv hi _ hs => hi.step (step_sound hs) inv hm
    exact hstage.disposed (reach_inv (hr'.trans ht))

/-- One consumer, and the reader at the socket. -/
def listening : List Action := [.recvStart, .readerTest]

def typedRecord : Bytes := bytes "\x7b\"type\":\"event\",\"id\":[1]\x7d"

theorem records_disposed_event : ∃ s s' m, Reach (step (withTimeout 5)) Any init s ∧
    step (withTimeout 5) s (.readerRead (.data typedRecord)) = some s' ∧
    ∀ t, Reach (step (withTimeout 5)) Any s' t → Disposed (withTimeout 5) 1 m t := by
  have h : ((run (step (withTimeout 5)) init listening).bind fun s =>
      (step (withTimeout 5) s (.readerRead (.data typedRecord))).map fun _ => s.wire) =
        some [] := by
    decide +kernel
  obtain ⟨s, hs, h⟩ := Option.bind_eq_some_iff.mp h
  obtain ⟨s', hs', hw⟩ := Option.map_eq_some_iff.mp h
  have hp : readPacket plain typedRecord =
      .ok (some [(.str (str "type"), .str (str "event")), (.str (str "id"), .list [.int 1])]) := by
    decide +kernel
  have hall := (records_disposed (Reach.of_run hs) hp hs').mpr (by decide +kernel)
  rw [hw] at hall
  exact ⟨s, s', _, Reach.of_run hs, hs', hall⟩

def untypedRecord : Bytes := bytes "\x7b\"type\":[]\x7d"

/-- An array under `type` makes the set test of `_dispatch_message` raise, and the reader ends
the client with a protocol error. -/
theorem array_type_terminates : ¬∀ cfg s s' b m, Reach (step cfg) Any init s →
    readPacket cfg.py b = .ok (some m) → step cfg s (.readerRead (.data b)) = some s' →
    ∀ t, Reach (step cfg) Any s' t → Disposed cfg (s.wire.length + 1) m t := by
  intro hall
  have h : ((run (step (withTimeout 5)) init listening).bind fun s =>
      (step (withTimeout 5) s (.readerRead (.data untypedRecord))).bind fun s' =>
        (step (withTimeout 5) s' .readerDispatch).map fun t => decide (s.wire = [] ∧
          t.wire.length = 1 ∧ t.reader = .terminating ∧
          (t.term .reader).map (fun f => f.callError.errorType) = some .protocol)) = some true := by
    decide +kernel
  obtain ⟨s, hs, h⟩ := Option.bind_eq_some_iff.mp h
  obtain ⟨s', hs', h⟩ := Option.bind_eq_some_iff.mp h
  obtain ⟨t, ht, h⟩ := Option.map_eq_some_iff.mp h
  obtain ⟨hw, hlen, hreader, hterm⟩ := of_decide_eq_true h
  have hp : readPacket plain untypedRecord = .ok (some [(.str (str "type"), .list [])]) := by
    decide +kernel
  obtain ⟨f, hf, hprotocol⟩ := Option.map_eq_some_iff.mp hterm
  have hdisposed := hall _ s s' _ _ (Reach.of_run hs) hp hs' t (Reach.next .start trivial ht)
  rw [hw] at hdisposed
  exact hdisposed.protocol hlen hreader f hf hprotocol

end Msys.Client
