import MsysSdk.Channel.Announce
import MsysSdk.Waiters.Log

/-! Reply routing. A reply that answers a transmitted request reaches the call with its id or
the callback, unless the pump puts it into a waiter whose call has stopped waiting. -/

namespace Msys.Channel
open Python Transition

def readRecord (py : Interpreter) : Received → Option Dict
  | .data b => (decode py b).toOption
  | _ => none

def arrivingId (py : Interpreter) (r : Received) : Option Int :=
  Waiters.entryId (readRecord py) answers r

/-- A call with this id has handed its record to the socket. -/
def requested (s : State) (id : Int) : Bool :=
  s.transmitted.any fun p =>
    match p.1 with
    | .caller c => (s.caller c).id? = some id
    | _ => false

theorem requested_iff {s : State} {id : Int} :
    requested s id = true ↔ ∃ c m, (.caller c, m) ∈ s.transmitted ∧ (s.caller c).id? = some id := by
  simp only [requested, List.any_eq_true, Prod.exists]
  constructor
  · rintro ⟨t, m, hm, ht⟩
    cases t with
    | caller c => exact ⟨c, m, hm, by simpa using ht⟩
    | _ => simp at ht
  · rintro ⟨c, m, hm, hc⟩
    exact ⟨.caller c, m, hm, by simpa using hc⟩

/-- The peer answers an id at most once, and only a request that was transmitted. Nobody
closes the channel. -/
def honest (cfg : Config) (s : State) : Action → Bool
  | .pumpReceive r =>
    match arrivingId cfg.py r with
    | none => true
    | some id => requested s id && s.wire.all fun q => arrivingId cfg.py q ≠ some id
  | .closeTest _ => false
  | _ => true

def Honest (cfg : Config) (s : State) (a : Action) : Prop := honest cfg s a = true

instance (cfg : Config) (s : State) (a : Action) : Decidable (Honest cfg s a) :=
  inferInstanceAs (Decidable (_ = true))

/-- The pump fills a waiter only while its call has not stopped waiting. -/
def inTime (s : State) : Action → Bool
  | .pumpDeliver =>
    match s.pump with
    | .deliver _ _ c => (s.caller c).untaken
    | _ => true
  | _ => true

/-- The peer is honest, and replies reach their waiters in time. -/
def Prompt (cfg : Config) (s : State) (a : Action) : Prop :=
  Honest cfg s a ∧ inTime s a = true

instance (cfg : Config) (s : State) (a : Action) : Decidable (Prompt cfg s a) :=
  inferInstanceAs (Decidable (_ ∧ _))

/-! ### The peer -/

/-- The peer was honest in all that has been read. -/
structure Answers (cfg : Config) (s : State) : Prop where
  once : Waiters.Once (readRecord cfg.py) answers s.wire
  asked : ∀ q ∈ s.wire, ∀ id, arrivingId cfg.py q = some id → requested s id = true

theorem Step.id?_mono {cfg : Config} {s s' : State} {a : Action} (h : Step cfg s a s') {c : Nat}
    {i : Int} (hi : (s.caller c).id? = some i) : (s'.caller c).id? = some i := by
  have key : ∀ d pc, ((s.caller d).id? = some i → pc.id? = some i) →
      (Function.update s.caller d pc c).id? = some i := fun _ _ hpc => Waiters.update_mono hi hpc
  cases h <;> first | exact hi | exact key _ _ (by simp [CallPc.id?, *])

theorem Step.requested_mono {cfg : Config} {s s' : State} {a : Action} (h : Step cfg s a s')
    {id : Int} (hr : requested s id = true) : requested s' id = true := by
  obtain ⟨c, m, hm, hc⟩ := requested_iff.mp hr
  refine requested_iff.mpr ⟨c, m, ?_, h.id?_mono hc⟩
  cases h with
  | sendAll => exact List.mem_append_left _ hm
  | _ => exact hm

theorem Step.wire_eq {cfg : Config} {s s' : State} {a : Action} (h : Step cfg s a s') :
    s'.wire = s.wire ∨ ∃ r, a = .pumpReceive r ∧ s'.wire = s.wire ++ [r] := by
  cases h <;> first | exact .inl rfl | exact .inr ⟨_, rfl, rfl⟩

theorem Answers.step {cfg : Config} {s s' : State} {a : Action} (h : Step cfg s a s')
    (ha : Honest cfg s a) (hi : Answers cfg s) : Answers cfg s' := by
  have hreq : ∀ q ∈ s.wire, ∀ id, arrivingId cfg.py q = some id → requested s' id = true :=
    fun q hq id hid => h.requested_mono (hi.asked q hq id hid)
  rcases h.wire_eq with hw | ⟨r, rfl, hw⟩
  · exact ⟨hw ▸ hi.once, hw ▸ hreq⟩
  have hnew : ∀ id, arrivingId cfg.py r = some id →
      requested s id = true ∧ ∀ q ∈ s.wire, arrivingId cfg.py q ≠ some id := by
    intro id hid
    simpa [Honest, honest, hid] using ha
  obtain ⟨honce, hasked⟩ := hi.once.answered hi.asked (fun _ hr => h.requested_mono hr) hnew
  exact ⟨hw ▸ honce, hw ▸ hasked⟩

/-! ### What has become of the records -/

/-- The record the pump has read and not yet routed. -/
def PumpPc.hand? : PumpPc → Option (Nat × Dict)
  | .message n m | .deliver n m _ | .callback n m => some (n, m)
  | _ => none

def numbered (r : Routed) : Nat × Dict := (r.serial, r.message)

/-- The records that were routed, and the one in hand. -/
def seenBy (routed : List Routed) (pump : PumpPc) : List (Nat × Dict) :=
  routed.map numbered ++ pump.hand?.toList

theorem pass_of_reply {cfg : Config} {n : Nat} {m : Dict} {id : Int}
    (h : replyId m = .ok (some id)) : pass cfg n m = .callback n m := by
  simp [pass, not_call_of_reply h]

abbrev Seen (py : Interpreter) (s : State) : Prop :=
  Waiters.Seen (readRecord py) answers s.wire (s.routed.map numbered) s.pump.hand?

theorem seen_step {cfg : Config} {s s' : State} {a : Action} (h : Step cfg s a s')
    (hstart : s.pumpThread = false → s.pump = .absent) (hopen : s.closed = false)
    (hi : Seen cfg.py s) : Seen cfg.py s' := by
  have same : ∀ pump : PumpPc, pump.hand? = s.pump.hand? →
      Waiters.Seen (readRecord cfg.py) answers s.wire (s.routed.map numbered) pump.hand? :=
    fun pump hp => hp ▸ hi
  have route : ∀ n m p, s.pump.hand? = some (n, m) →
      Waiters.Seen (readRecord cfg.py) answers s.wire
        ((s.routed ++ [Routed.mk n m p]).map numbered) none := by
    intro n m p hn
    rw [List.map_append]
    exact hi.place hn
  cases h with
  | pumpStart ht => exact same .loop (by rw [hstart ht]; rfl)
  | pumpTest pc => exact same _ (by simp [pc, hopen, PumpPc.hand?])
  | pumpSettimeout pc =>
    refine same _ ?_
    split_ifs <;> simp [pc, PumpPc.hand?]
  | recvTimeout pc => exact hi.skip (by rw [pc]; rfl) rfl
  | recvFailed pc => exact hi.skip (by rw [pc]; rfl) rfl
  | recvEof pc => exact hi.read (by rw [pc]; rfl) (fun i hm => by cases hm) (fun i hr => by cases hr)
  | recvBad pc hb packet =>
    exact hi.skip (by rw [pc]; rfl) (by simp [Waiters.entryId, readRecord, packet, Except.toOption])
  | @recv b m pc hb packet =>
    have hm : readRecord cfg.py (.data b) = some m := by simp [readRecord, packet, Except.toOption]
    exact hi.read (by rw [pc]; rfl) (fun _ _ => hm) (fun _ _ => hm)
  | failedClosed pc hc => simp [hopen] at hc
  | failedOpen pc => exact same _ (by rw [pc]; rfl)
  | notifiedEnd pc => exact same _ (by rw [pc]; rfl)
  | @unhashable n m text pc hm =>
    have hhand : s.pump.hand? = some (n, m) := by rw [pc]; rfl
    exact hi.drop hhand (by simp [answers, hm, Except.toOption])
  | @notReply n m pc hm =>
    have hhand : s.pump.hand? = some (n, m) := by rw [pc]; rfl
    have hnone : answers m = none := by simp [answers, hm, Except.toOption]
    rcases pass_cases cfg n m with hp | ⟨id, hp, -⟩ | hp <;> simp only [hp]
    · exact hi.drop hhand hnone
    · exact hi.drop hhand hnone
    · exact same _ (by rw [pc]; rfl)
  | unknown pc hm => exact same _ (by rw [pc, pass_of_reply hm]; rfl)
  | found pc => exact same _ (by rw [pc]; rfl)
  | deliver pc slot =>
    rw [State.put_of_empty _ slot]
    exact route _ _ _ (by rw [pc]; rfl)
  | full pc => exact route _ _ _ (by rw [pc]; rfl)
  | callback pc => exact route _ _ _ (by rw [pc]; rfl)
  | @failPut t e c ws frame =>
    cases slot : s.waiter c with
    | some x =>
      rw [State.put_of_full _ slot]
      exact hi
    | none =>
      rw [State.put_of_empty _ slot]
      exact hi
  | handle pc => exact same _ (by rw [pc]; rfl)
  | handleRaised pc => exact same _ (by rw [pc]; rfl)
  | leave pc =>
    refine same _ ?_
    split_ifs <;> simp [pc, PumpPc.hand?]
  | _ => first | exact hi | exact same _ (by simp [PumpPc.hand?, *])

/-! ### A channel that nobody closes -/

/-- Failures come from the pump alone, and only once it has left its loop. -/
structure Quiet (s : State) : Prop where
  opened : s.closed = false
  closers : ∀ k, s.closer k = .idle
  failures : ∀ c e, .failure e ∈ s.given c → s.pump.left = true

theorem left_step {cfg : Config} {s s' : State} {a : Action} (h : Step cfg s a s')
    (hstart : s.pumpThread = false → s.pump = .absent) (hl : s.pump.left = true) :
    s'.pump.left = true := by
  cases h with
  | pumpStart ht => simp [hstart ht, PumpPc.left] at hl
  | leave => dsimp only; split_ifs <;> rfl
  | _ => first | exact hl | rfl | simp_all [PumpPc.left]

theorem Quiet.step {cfg : Config} {s s' : State} {a : Action} (h : Step cfg s a s')
    (ha : Honest cfg s a) (hstart : s.pumpThread = false → s.pump = .absent)
    (hf : Fails s.fail s.pump s.closer) (hi : Quiet s) : Quiet s' := by
  have hidle := hi.closers
  have hkeep : ∀ c e, .failure e ∈ s.given c → s'.pump.left = true :=
    fun c e he => left_step h hstart (hi.failures c e he)
  cases h with
  | closeTest => cases ha
  | closeSet pc => simp [hidle] at pc
  | closeFinish pc => simp [hidle] at pc
  | @failPut t e c ws frame =>
    have ht : t = .pump := by
      cases t with
      | pump => rfl
      | caller c => simp [hf.caller] at frame
      | sender k => simp [hf.sender] at frame
      | closer k => simpa [hidle] using hf.closer k (by simp [frame])
    subst ht
    have hl := hf.entered _ frame
    cases slot : s.waiter c with
    | some x =>
      rw [State.put_of_full _ slot]
      exact ⟨hi.opened, hidle, fun _ _ _ => hl⟩
    | none =>
      rw [State.put_of_empty _ slot]
      exact ⟨hi.opened, hidle, fun _ _ _ => hl⟩
  | @deliver n m c pc slot =>
    rw [State.put_of_empty _ slot]
    refine ⟨hi.opened, hidle, fun d e he => ?_⟩
    rcases Waiters.mem_put.mp he with he | ⟨-, he⟩
    · have := hi.failures d e he
      simp [pc, PumpPc.left] at this
    · cases he
  | _ => exact ⟨hi.opened, hidle, hkeep⟩

/-! ### What a call that has been given a reply ends with -/

/-- A call that was given a record has sent its request, and the record is what it gets. -/
def Kept (py : Interpreter) (caller : Nat → CallPc) (send : Thread → Option SendFrame)
    (given : Nat → List Item) : Prop :=
  ∀ c n m, .record n m ∈ given c → (∃ f, send (.caller c) = some f ∧ f.pc = .sent) ∧
    (given c).head? = some (.record n m) ∧
      ∀ o, (caller c).result? = some o → o = .replied n m (replyValue py m)

section
variable {py : Interpreter} {caller : Nat → CallPc} {send : Thread → Option SendFrame}
  {given : Nat → List Item} {c : Nat} {pc : CallPc}

theorem Kept.caller_update (h : Kept py caller send given)
    (hr : ∀ n m o, .record n m ∈ given c → pc.result? = some o →
      o = .replied n m (replyValue py m)) : Kept py (Function.update caller c pc) send given := by
  intro d n m hd
  obtain ⟨hs, hhead, ho⟩ := h d n m hd
  refine ⟨hs, hhead, fun o hres => ?_⟩
  rcases eq_or_ne d c with rfl | hne
  · rw [Function.update_self] at hres
    exact hr n m o hd hres
  · exact ho o (by rwa [Function.update_of_ne hne] at hres)

theorem Kept.send_update {t : Thread} {f : SendFrame} (h : Kept py caller send given)
    (hold : ∀ c g, t = .caller c → send t = some g → g.pc ≠ .sent) :
    Kept py caller (Function.update send t (some f)) given := by
  intro c n m hc
  obtain ⟨⟨g, hg, hpc⟩, hrest⟩ := h c n m hc
  have hne : Thread.caller c ≠ t := by
    rintro rfl
    exact hold c g rfl hg hpc
  exact ⟨⟨g, by rwa [Function.update_of_ne hne], hpc⟩, hrest⟩

theorem Kept.put_failure {e : Exc} (h : Kept py caller send given) :
    Kept py caller send (Function.update given c (given c ++ [.failure e])) := by
  intro d n m hd
  rcases Waiters.mem_put.mp hd with hd | ⟨-, hd⟩
  · obtain ⟨hs, hhead, ho⟩ := h d n m hd
    refine ⟨hs, ?_, ho⟩
    rcases eq_or_ne d c with rfl | hne
    · simp [hhead]
    · rwa [Function.update_of_ne hne]
  · cases hd

theorem Kept.put_record {n : Nat} {m : Dict} (h : Kept py caller send given)
    (hg : given c = []) (hs : ∃ f, send (.caller c) = some f ∧ f.pc = .sent)
    (ho : (caller c).result? = none) :
    Kept py caller send (Function.update given c (given c ++ [.record n m])) := by
  intro d n' m' hd
  rcases Waiters.mem_put.mp hd with hold | ⟨rfl, hnew⟩
  · have hne : d ≠ c := by
      rintro rfl
      simp [hg] at hold
    rw [Function.update_of_ne hne]
    exact h d n' m' hold
  · obtain ⟨rfl, rfl⟩ := Item.record.inj hnew
    exact ⟨hs, by simp [hg], fun o hres => by simp [ho] at hres⟩

end

theorem Kept.step {cfg : Config} {s s' : State} {a : Action} (h : Step cfg s a s')
    (inv : Inv cfg.py s) (hi : Kept cfg.py s.caller s.send s.given)
    (hdeliver : ∀ n m c, s.pump = .deliver n m c →
      a = .pumpDeliver → s.waiter c = none → s.given c = [] ∧
        (∃ f, s.send (.caller c) = some f ∧ f.pc = .sent) ∧ (s.caller c).result? = none) :
    Kept cfg.py s'.caller s'.send s'.given := by
  -- A call that has not sent its request was given no record.
  have unsent : ∀ c n m, (∀ f, s.send (.caller c) = some f → f.pc ≠ .sent) →
      .record n m ∉ s.given c := by
    intro c n m hne hc
    obtain ⟨⟨f, hf, hpc⟩, -⟩ := hi c n m hc
    exact hne f hf hpc
  have before : ∀ c, (s.caller c).beforeSend = true → ∀ n m, .record n m ∉ s.given c :=
    fun c hc n m => unsent c n m (by simp [inv.sends.unsent c hc])
  cases h with
  | @callRefused c e pc =>
    exact hi.caller_update fun n m _ hc => absurd hc (before c (by rw [pc]; rfl) n m)
  | @lockClosed c pc =>
    exact hi.caller_update fun n m _ hc => absurd hc (before c (by rw [pc]; rfl) n m)
  | @deadline c id pc =>
    exact hi.caller_update fun n m _ hc => absurd hc (before c (by rw [pc]; rfl) n m)
  | @callSend c id d pc =>
    have hnone := inv.sends.unsent c (by rw [pc]; rfl)
    have hc : Kept cfg.py (Function.update s.caller c (.sending id)) s.send s.given :=
      hi.caller_update (by simp [CallPc.result?])
    exact hc.send_update (by simp [hnone])
  | @notSent c id m data e pc frame =>
    exact hi.caller_update fun n m _ hc => absurd hc (unsent c n m (by simp [frame]))
  | @get c id item pc slot =>
    have hgiven := inv.slots.fresh c (by rw [pc]; rfl)
    refine hi.caller_update fun n m o hc ho => ?_
    rw [hgiven, slot, Option.toList_some, List.mem_singleton] at hc
    rw [← Option.some.inj ho, ← hc]
    rfl
  | @timedOut c id pc slot ht =>
    have hgiven := inv.slots.fresh c (by rw [pc]; rfl)
    exact hi.caller_update (by simp [hgiven, slot])
  | @overflow c id pc slot ht =>
    have hgiven := inv.slots.fresh c (by rw [pc]; rfl)
    exact hi.caller_update (by simp [hgiven, slot])
  | @finish c id o pc lock =>
    refine hi.caller_update fun n m o' hc ho => ?_
    exact (hi c n m hc).2.2 o' (by simpa [pc, CallPc.result?] using ho)
  | senderStart => exact hi.send_update (by simp)
  | sendLocked frame => exact hi.send_update (by simp [frame])
  | sendAll frame => exact hi.send_update (by simp [frame])
  | sendShort frame => exact hi.send_update (by simp [frame])
  | sendFailed frame => exact hi.send_update (by simp [frame])
  | handle => exact hi.send_update (by simp)
  | returnFailed => exact hi.send_update (by simp)
  | @failPut t e c ws frame =>
    cases slot : s.waiter c with
    | some x =>
      rw [State.put_of_full _ slot]
      exact hi
    | none =>
      rw [State.put_of_empty _ slot]
      exact hi.put_failure
  | @deliver n m c pc slot =>
    rw [State.put_of_empty _ slot]
    obtain ⟨hg, hs, hr⟩ := hdeliver n m c pc rfl slot
    exact hi.put_record hg hs hr
  | _ => first | exact hi | exact hi.caller_update (by simp [CallPc.result?])

/-! ### The whole of reply routing -/

/-- The records of the wire among those passed to the callback. -/
def fromWire (p : Option Nat × Dict) : Option (Nat × Dict) := p.1.map (·, p.2)

def calledBack (r : Routed) : Option (Nat × Dict) :=
  if r.place = .callback then some (r.serial, r.message) else none

structure Route (cfg : Config) (s : State) : Prop where
  quiet : Quiet s
  peer : Answers cfg s
  seen : Seen cfg.py s
  kept : Kept cfg.py s.caller s.send s.given
  undropped : ∀ r ∈ s.routed, r.place ≠ .dropped
  told : s.callbacks.filterMap fromWire = s.routed.filterMap calledBack

theorem route_init (cfg : Config) : Route cfg init where
  quiet := ⟨rfl, fun _ => rfl, by simp [init]⟩
  peer := ⟨List.Pairwise.nil, by simp [init]⟩
  seen := Waiters.Seen.nil
  kept := by simp [Kept, init]
  undropped := by simp [init]
  told := rfl

/-- The pump has a reply for a call: the call has been sent, and its waiter is empty. -/
theorem Route.ready {cfg : Config} {s : State} {n : Nat} {m : Dict} {c : Nat} (hi : Route cfg s)
    (inv : Inv cfg.py s) (pc : s.pump = .deliver n m c) :
    s.waiter c = none ∧ ∃ f, s.send (.caller c) = some f ∧ f.pc = .sent := by
  obtain ⟨i, hid, hm⟩ := inv.items.inHand n m c pc
  have hhand : s.pump.hand? = some (n, m) := by rw [pc]; rfl
  have hrec := hi.seen.recorded n m i (by simp [hhand]) (answers_iff.mpr hm)
  constructor
  · cases slot : s.waiter c with
    | none => rfl
    | some item =>
      have hitem := inv.slots.held c item slot
      cases item with
      | failure e =>
        have := hi.quiet.failures c e hitem
        simp [pc, PumpPc.left] at this
      | record n' m' =>
        -- the waiter would hold another reply to the same request
        have hr' := inv.items.records c n' m' hitem
        obtain ⟨-, i', hid', hm'⟩ := inv.items.routed c n' m' hr'
        obtain rfl : i = i' := Option.some.inj (hid.symm.trans hid')
        have hmem : (n', m') ∈ s.routed.map numbered := List.mem_map.mpr ⟨_, hr', rfl⟩
        have hrec' := hi.seen.recorded n' m' i (List.mem_append_left _ hmem)
          (answers_iff.mpr hm')
        obtain rfl := hi.peer.once.same hrec hrec' (answers_iff.mpr hm) (answers_iff.mpr hm')
        exact absurd hmem (hi.seen.hand_new hhand)
  · obtain ⟨q, hq, hp⟩ := Waiters.recordAt_mem hrec
    have harr : arrivingId cfg.py q = some i := by
      simp [arrivingId, Waiters.entryId, hp, answers_iff.mpr hm]
    obtain ⟨d, v, hv, hd⟩ := requested_iff.mp (hi.peer.asked q hq i harr)
    obtain rfl := inv.ids.inj c d i hid hd
    exact inv.sends.sent c v hv

theorem Route.step {cfg : Config} {s s' : State} {a : Action} (h : Step cfg s a s')
    (inv : Inv cfg.py s) (ha : Prompt cfg s a) (hi : Route cfg s) : Route cfg s' := by
  have untaken : ∀ n m c, s.pump = .deliver n m c → a = .pumpDeliver →
      (s.caller c).untaken = true := by
    rintro n m c pc rfl
    simpa [inTime, pc] using ha.2
  have kept : Kept cfg.py s'.caller s'.send s'.given := by
    refine hi.kept.step h inv fun n m c pc hd slot => ?_
    have hu := untaken n m c pc hd
    exact ⟨by simp [inv.slots.fresh c hu, slot], (hi.ready inv pc).2, CallPc.untaken_iff.mp hu⟩
  have rest : (∀ r ∈ s'.routed, r.place ≠ .dropped) ∧
      s'.callbacks.filterMap fromWire = s'.routed.filterMap calledBack := by
    cases h with
    | @deliver n m c pc slot =>
      refine ⟨fun r hr => ?_, by simp [hi.told, calledBack, State.put_of_empty _ slot]⟩
      rcases List.mem_append.mp hr with hr | hr
      · exact hi.undropped r hr
      · simp [List.mem_singleton.mp hr]
    | @full n m c item pc slot =>
      simp [(hi.ready inv pc).1] at slot
    | callback =>
      refine ⟨fun r hr => ?_, by simp [hi.told, fromWire, calledBack]⟩
      rcases List.mem_append.mp hr with hr | hr
      · exact hi.undropped r hr
      · simp [List.mem_singleton.mp hr]
    | announce => exact ⟨hi.undropped, by simp [hi.told, fromWire]⟩
    | @failPut t e c ws frame =>
      cases slot : s.waiter c with
      | some x =>
        rw [State.put_of_full _ slot]
        exact ⟨hi.undropped, hi.told⟩
      | none =>
        rw [State.put_of_empty _ slot]
        exact ⟨hi.undropped, hi.told⟩
    | _ => exact ⟨hi.undropped, hi.told⟩
  exact ⟨hi.quiet.step h ha.1 inv.started inv.fails, hi.peer.step h ha.1,
    seen_step h inv.started hi.quiet.opened hi.seen, kept, rest.1, rest.2⟩

/-- Every reply that was read is in the pump's hand or was routed, once: to the call with its
id, whose result it is or will be, or to the callback. A call that raises was given no reply,
and one that does not has its own. -/
structure RepliesRouted (py : Interpreter) (s : State) : Prop where
  read : ∀ n m i, Waiters.recordAt (readRecord py) s.wire n = some m → answers m = some i →
    (n, m) ∈ seenBy s.routed s.pump
  once : ((seenBy s.routed s.pump).map Prod.fst).Nodup
  place : ∀ r ∈ s.routed, ∀ i, answers r.message = some i →
    match r.place with
    | .waiter c => (s.caller c).id? = some i ∧
      ((s.caller c).result? =
          some (.replied r.serial r.message (replyValue py r.message)) ∨
        (s.caller c).result? = none ∧ s.waiter c = some (.record r.serial r.message))
    | .callback => True
    | .dropped => False
  told : s.callbacks.filterMap fromWire = s.routed.filterMap calledBack
  raised : ∀ c e n m, (s.caller c).result? = some (.raised e) → .record n m ∉ s.given c
  own : ∀ c n m v, (s.caller c).result? = some (.replied n m v) →
    v = replyValue py m ∧ ∃ i, (s.caller c).id? = some i ∧ replyId m = .ok (some i)
  distinct : ∀ c d i, (s.caller c).id? = some i → (s.caller d).id? = some i → c = d

theorem Route.replies {cfg : Config} {s : State} (hi : Route cfg s) (inv : Inv cfg.py s) :
    RepliesRouted cfg.py s where
  read := hi.seen.complete
  once := hi.seen.nodup
  told := hi.told
  distinct := inv.ids.inj
  place := by
    intro r hr i hm
    obtain ⟨n, m, p⟩ := r
    cases p with
    | dropped => exact hi.undropped _ hr rfl
    | callback => trivial
    | waiter c =>
      obtain ⟨hg, i', hid, hm'⟩ := inv.items.routed c n m hr
      obtain rfl : i = i' := Option.some.inj (hm.symm.trans (answers_iff.mpr hm'))
      refine ⟨hid, ?_⟩
      cases hres : (s.caller c).result? with
      | some o => exact .inl (congrArg some ((hi.kept c n m hg).2.2 o hres))
      | none =>
        refine .inr ⟨rfl, ?_⟩
        rw [inv.slots.fresh c (CallPc.untaken_iff.mpr hres), Option.mem_toList] at hg
        exact hg
  raised := by
    intro c e n m hres hg
    cases (hi.kept c n m hg).2.2 _ hres
  own := by
    intro c n m v hres
    obtain ⟨hg, hv⟩ := inv.items.taken c n m v hres
    exact ⟨hv, (inv.items.routed c n m (inv.items.records c n m hg)).2⟩

theorem replies_routed (cfg : Config) (s : State) (h : Reach (step cfg) (Prompt cfg) init s) :
    RepliesRouted cfg.py s :=
  (h.invariant_of (P := Route cfg) (fun _ hr => reach_inv hr) (route_init cfg)
    fun _ _ _ inv hi ha hs => hi.step (step_sound hs) inv ha).replies (reach_inv h)

def oneReply : Bytes := bytes "\x7b\"type\":\"return\",\"id\":1\x7d"

/-- The pump reads the reply and looks its waiter up. -/
def readReply : List Action :=
  [.pumpTest, .pumpSettimeout, .pumpReceive (.data oneReply), .pumpRoute]

theorem replies_routed_return : ∃ s, Reach (step (withTimeout 5)) (Prompt (withTimeout 5)) init s ∧
    (s.caller 0).result?.isSome = true ∧ RepliesRouted plain s := by
  have h : (runWhere (step (withTimeout 5)) (Prompt (withTimeout 5)) init
      (oneCall ++ readReply ++ [.pumpDeliver, .callGet 0])).map
        (fun s => (s.caller 0).result?.isSome) = some true := by
    decide +kernel
  obtain ⟨s, hs, hres⟩ := Option.map_eq_some_iff.mp h
  have hr := Reach.of_runWhere hs
  exact ⟨s, hr, hres, replies_routed (withTimeout 5) s hr⟩

def Item.isRecord : Item → Bool
  | .record _ _ => true
  | .failure _ => false

/-- The call times out between the pump's look at the map and its put. -/
theorem late_put_loses_reply :
    ¬∀ cfg s, Reach (step cfg) (Honest cfg) init s → RepliesRouted cfg.py s := by
  intro hall
  have h : (runWhere (step (withTimeout 5)) (Honest (withTimeout 5)) init
      (oneCall ++ readReply ++ [.callEmpty 0, .callFinish 0, .pumpDeliver])).map
        (fun s => decide ((s.caller 0).result? =
            some (.raised (timedOut ((withTimeout 5).args 0)))) &&
          (s.given 0).any Item.isRecord) = some true := by
    decide +kernel
  obtain ⟨s, hs, hp⟩ := Option.map_eq_some_iff.mp h
  simp only [Bool.and_eq_true, decide_eq_true_eq, List.any_eq_true] at hp
  obtain ⟨hres, x, hx, hrec⟩ := hp
  cases x with
  | failure e => cases hrec
  | record n m => exact (hall _ s (Reach.of_runWhere hs)).raised 0 _ n m hres hx

end Msys.Channel
