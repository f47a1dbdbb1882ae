import MsysSdk.Client.Mailbox

/-! Reply routing. A reply that answers a transmitted request is the result of the call with
its id or an item of the event queue, unless that call gave up on it in some other way than
by its timeout. -/

namespace Msys.Client
open Python Transition

/-- The id that the reader finds in what it reads, when that is a reply. -/
def arrivingId (py : Interpreter) (r : Received) : Option Int :=
  Waiters.entryId (readRecord py) answers r

/-- A call with this id has handed its record to the socket. -/
def requested (s : State) (id : Int) : Bool :=
  s.transmitted.any fun p =>
    match p.1 with
    | .caller c => (s.caller c).id? = some id
    | _ => false

/-- The peer answers an id at most once, and only a request that was transmitted. -/
def honest (cfg : Config) (s : State) : Action → Bool
  | .readerRead r =>
    match arrivingId cfg.py r with
    | none => true
    | some id => requested s id && s.wire.all fun q => arrivingId cfg.py q ≠ some id
  | _ => true

def Honest (cfg : Config) (s : State) (a : Action) : Prop := honest cfg s a = true

instance (cfg : Config) (s : State) (a : Action) : Decidable (Honest cfg s a) :=
  inferInstanceAs (Decidable (_ = true))

theorem requested_iff {s : State} {id : Int} :
    requested s id = true ↔ ∃ c m, (.caller c, m) ∈ s.transmitted ∧ (s.caller c).id? = some id := by
  simp only [requested, List.any_eq_true, Prod.exists]
  constructor
  · rintro ⟨t, m, hm, ht⟩
    cases t with
    | caller c => exact ⟨c, m, hm, by simpa using ht⟩
    | _ => simp at ht
  · rintro ⟨c, m, hm, hc⟩
    exact ⟨.caller c, m, hm, by simpa using hc⟩

/-! ### What a call that has sent its record ends with -/

def SendPc.ended : SendPc → Bool
  | .sent | .raised _ => true
  | _ => false

def CallPc.afterSend : CallPc → Bool
  | .waiting _ | .expired _ | .finishing .. | .done .. => true
  | _ => false

theorem CallPc.afterSend_of_result {pc : CallPc} {o : Outcome} (h : pc.result? = some o) :
    pc.afterSend = true := by
  cases pc <;> simp_all [result?, afterSend]

structure Kept (cfg : Config) (caller : Nat → CallPc) (send : Thread → Option SendFrame)
    (given : Nat → List InboxItem) (transmitted : List (Thread × Value)) : Prop where
  ended : ∀ c f, (caller c).afterSend = true → send (.caller c) = some f → f.pc.ended = true
  sent : ∀ t m, (t, m) ∈ transmitted → ∃ m', send t = some ⟨m', .sent⟩
  result : ∀ c m o, send (.caller c) = some ⟨m, .sent⟩ → (caller c).result? = some o →
    (∃ item, (given c).head? = some item ∧ o = item.outcome) ∨ o.isTimeout = true ∨
      cfg.timeoutMax < (cfg.args c).requestTimeout
  order : ∀ c f rest, given c = .failure f :: rest → ∀ n m, .record n m ∉ rest

section
variable {cfg : Config} {caller : Nat → CallPc} {send : Thread → Option SendFrame}
  {given : Nat → List InboxItem} {transmitted : List (Thread × Value)} {c : Nat} {pc : CallPc}

theorem Kept.caller_update (h : Kept cfg caller send given transmitted)
    (ho : pc.afterSend = true → (caller c).afterSend = true ∨
      ∀ f, send (.caller c) = some f → f.pc.ended = true)
    (hr : ∀ m o, send (.caller c) = some ⟨m, .sent⟩ → pc.result? = some o →
      (∃ item, (given c).head? = some item ∧ o = item.outcome) ∨ o.isTimeout = true ∨
        cfg.timeoutMax < (cfg.args c).requestTimeout) :
    Kept cfg (Function.update caller c pc) send given transmitted := by
  refine { h with ended := fun d f hd hs => ?_, result := fun d m o hs hd => ?_ }
  · rcases eq_or_ne d c with rfl | hne
    · rw [Function.update_self] at hd
      rcases ho hd with hc | hc
      · exact h.ended d f hc hs
      · exact hc f hs
    · exact h.ended d f (by rwa [Function.update_of_ne hne] at hd) hs
  · rcases eq_or_ne d c with rfl | hne
    · rw [Function.update_self] at hd
      exact hr m o hs hd
    · exact h.result d m o hs (by rwa [Function.update_of_ne hne] at hd)

theorem Kept.send_update {t : Thread} {f : SendFrame} (h : Kept cfg caller send given transmitted)
    (hold : ∀ g, send t = some g → g.pc.ended = false)
    (hc : ∀ c, t = .caller c → (caller c).afterSend = false ∨ (send t).isSome = true) :
    Kept cfg caller (Function.update send t (some f)) given transmitted := by
  have hbusy : ∀ d, .caller d = t → (caller d).afterSend = false := by
    intro d hd
    rcases hc d hd.symm with hc | hc
    · exact hc
    · obtain ⟨g, hg⟩ := Option.isSome_iff_exists.mp hc
      by_contra hb
      have := h.ended d g (by simpa using hb) (hd ▸ hg)
      simp [hold g hg] at this
  refine { h with ended := fun d g hd hs => ?_, sent := fun u m hu => ?_,
                  result := fun d m o hs hd => ?_ }
  · have hne : Thread.caller d ≠ t := fun heq => by simp [hbusy d heq] at hd
    exact h.ended d g hd (by rwa [Function.update_of_ne hne] at hs)
  · obtain ⟨m', hm'⟩ := h.sent u m hu
    have hne : u ≠ t := by
      rintro rfl
      have := hold _ hm'
      simp [SendPc.ended] at this
    exact ⟨m', by rwa [Function.update_of_ne hne]⟩
  · have hne : Thread.caller d ≠ t := fun heq => by
      have := CallPc.afterSend_of_result hd
      simp [hbusy d heq] at this
    exact h.result d m o (by rwa [Function.update_of_ne hne] at hs) hd

/-- A step of a send that is under way. -/
theorem Kept.send_advance {t : Thread} {f g : SendFrame}
    (h : Kept cfg caller send given transmitted) (hg : send t = some g)
    (hover : g.pc.ended = false) :
    Kept cfg caller (Function.update send t (some f)) given transmitted :=
  h.send_update (fun _ hg' => Option.some.inj (hg.symm.trans hg') ▸ hover)
    fun _ _ => .inr (by simp [hg])

theorem Kept.transmit {t : Thread} {m : Value} (h : Kept cfg caller send given transmitted)
    (ht : ∃ m', send t = some ⟨m', .sent⟩) :
    Kept cfg caller send given (transmitted ++ [(t, m)]) := by
  refine { h with sent := fun u m' hu => ?_ }
  rcases List.mem_append.mp hu with hu | hu
  · exact h.sent u m' hu
  · rw [List.mem_singleton, Prod.mk.injEq] at hu
    exact hu.1 ▸ ht

theorem Kept.put {item : InboxItem} (h : Kept cfg caller send given transmitted)
    (hitem : ∀ n m, item = .record n m → ∀ f, .failure f ∉ given c) :
    Kept cfg caller send (Function.update given c (given c ++ [item])) transmitted := by
  refine { h with result := fun d m o hs hd => ?_, order := fun d f rest hd n m hm => ?_ }
  · rcases eq_or_ne d c with rfl | hne
    · rcases h.result d m o hs hd with ⟨x, hx, ho⟩ | ho
      · exact .inl ⟨x, by simp [hx], ho⟩
      · exact .inr ho
    · rw [Function.update_of_ne hne]
      exact h.result d m o hs hd
  · rcases eq_or_ne d c with rfl | hne
    · rw [Function.update_self] at hd
      cases hg : given d with
      | nil =>
        rw [hg, List.nil_append, List.cons.injEq] at hd
        simp [← hd.2] at hm
      | cons x xs =>
        rw [hg, List.cons_append, List.cons.injEq] at hd
        obtain ⟨rfl, rfl⟩ := hd
        rcases List.mem_append.mp hm with hm | hm
        · exact h.order d f xs hg n m hm
        · exact hitem n m (List.mem_singleton.mp hm).symm f (by simp [hg])
    · exact h.order d f rest (by rwa [Function.update_of_ne hne] at hd) n m hm

end

theorem Kept.step {cfg : Config} {s s' : State} {a : Action} (h : Step cfg s a s')
    (inv : Inv cfg.py s) (hi : Kept cfg s.caller s.send s.given s.transmitted) :
    Kept cfg s'.caller s'.send s'.given s'.transmitted := by
  have unsent := inv.sends.unsent
  have head : ∀ c {item}, (s.caller c).untaken = true → s.waiter c = some item →
      (s.given c).head? = some item := by
    intro c item hu slot
    rw [inv.slots.fresh c hu, slot]
    rfl
  cases h with
  | @ensureClosed c pc =>
    have hnone := unsent c (by simp [pc, CallPc.beforeSend])
    exact hi.caller_update (by simp [hnone]) (by simp [hnone])
  | @lockClosed c pc =>
    have hnone := unsent c (by simp [pc, CallPc.beforeSend])
    exact hi.caller_update (by simp [hnone]) (by simp [hnone])
  | @deadline c id pc =>
    have hnone := unsent c (by simp [pc, CallPc.beforeSend])
    exact hi.caller_update (by simp [hnone]) (by simp [hnone])
  | @callSend c id d pc =>
    have hnone := unsent c (by simp [pc, CallPc.beforeSend])
    have hc : Kept cfg (Function.update s.caller c (.sending id)) s.send s.given s.transmitted :=
      hi.caller_update (by simp [CallPc.afterSend]) (by simp [CallPc.result?])
    refine hc.send_update (by simp [hnone]) fun c' hc' => .inl ?_
    cases hc'
    simp [CallPc.afterSend]
  | sent pc frame =>
    exact hi.caller_update (by simp [frame, SendPc.ended]) (by simp [CallPc.result?])
  | notSent pc frame =>
    exact hi.caller_update (by simp [frame, SendPc.ended]) (by simp [frame])
  | get pc slot =>
    have hhead := head _ (by simp [pc, CallPc.untaken]) slot
    exact hi.caller_update (by simp [pc, CallPc.afterSend])
      fun m o _ ho => .inl ⟨_, hhead, (Option.some.inj ho).symm⟩
  | recheckItem pc lock slot =>
    have hhead := head _ (by simp [pc, CallPc.untaken]) slot
    exact hi.caller_update (by simp [pc, CallPc.afterSend])
      fun m o _ ho => .inl ⟨_, hhead, (Option.some.inj ho).symm⟩
  | overflow pc slot ht =>
    exact hi.caller_update (by simp [pc, CallPc.afterSend]) fun _ _ _ _ => .inr (.inr ht)
  | recheckEmpty pc lock slot =>
    refine hi.caller_update (by simp [pc, CallPc.afterSend]) fun m o _ ho => .inr (.inl ?_)
    rw [← Option.some.inj ho]
    rfl
  | finish pc lock =>
    refine hi.caller_update (by simp [pc, CallPc.afterSend]) fun m o hs ho =>
      hi.result _ m o hs ?_
    simpa [pc, CallPc.result?] using ho
  | senderStart frame => exact hi.send_update (by simp [frame]) (by simp)
  | transmit frame => exact (hi.send_advance frame rfl).transmit ⟨_, Function.update_self ..⟩
  | @fail t e i r c ws term =>
    cases slot : s.waiter c with
    | some x =>
      rw [State.put_of_full _ slot]
      exact hi
    | none =>
      rw [State.put_of_empty _ slot]
      exact hi.put (by simp)
  | @deliver n m id c pc hm lock look slot =>
    rw [State.put_of_empty _ slot]
    refine hi.put fun n' m' _ f hf => ?_
    obtain ⟨t, g, hg, hs, -⟩ := inv.delivery.failures c f hf
    rw [inv.table.cleared t g hg hs, AList.lookup_empty] at look
    cases look
  | _ =>
    first
    | exact hi
    | exact hi.caller_update (by simp [CallPc.afterSend, *]) (by simp [CallPc.result?, *])
    | (refine hi.send_advance (by assumption) ?_; rfl)

/-! ### An honest peer -/

/-- The peer was honest in all that has been read. -/
structure Answers (cfg : Config) (s : State) : Prop where
  once : Waiters.Once (readRecord cfg.py) answers s.wire
  asked : ∀ q ∈ s.wire, ∀ id, arrivingId cfg.py q = some id → requested s id = true

theorem Step.id?_mono {cfg : Config} {s s' : State} {a : Action} (h : Step cfg s a s') {c : Nat}
    {i : Int} (hi : (s.caller c).id? = some i) : (s'.caller c).id? = some i := by
  have key : ∀ d pc, ((s.caller d).id? = some i → pc.id? = some i) →
      (Function.update s.caller d pc c).id? = some i := fun _ _ hpc => Waiters.update_mono hi hpc
  cases h <;> first | exact hi | exact key _ _ (by simp [CallPc.id?, *])

theorem Step.transmitted_mono {cfg : Config} {s s' : State} {a : Action} (h : Step cfg s a s')
    {p : Thread × Value} (hp : p ∈ s.transmitted) : p ∈ s'.transmitted := by
  cases h with
  | transmit => exact List.mem_append_left _ hp
  | _ => exact hp

theorem Step.requested_mono {cfg : Config} {s s' : State} {a : Action} (h : Step cfg s a s')
    {id : Int} (hr : requested s id = true) : requested s' id = true := by
  obtain ⟨c, m, hm, hc⟩ := requested_iff.mp hr
  exact requested_iff.mpr ⟨c, m, h.transmitted_mono hm, h.id?_mono hc⟩

theorem Step.wire_eq {cfg : Config} {s s' : State} {a : Action} (h : Step cfg s a s') :
    s'.wire = s.wire ∨ ∃ r, a = .readerRead r ∧ s'.wire = s.wire ++ [r] := by
  cases h <;> first | exact .inl rfl | exact .inr ⟨_, rfl, rfl⟩

theorem Answers.step {cfg : Config} {s s' : State} {a : Action} (h : Step cfg s a s')
    (ha : Honest cfg s a) (hi : Answers cfg s) : Answers cfg s' := by
  have hreq : ∀ q ∈ s.wire, ∀ id, arrivingId cfg.py q = some id → requested s' id = true :=
    fun q hq id hid => h.requested_mono (hi.asked q hq id hid)
  rcases h.wire_eq with hw | ⟨r, rfl, hw⟩
  · exact ⟨hw ▸ hi.once, hw ▸ hreq⟩
  have hnew : ∀ id, arrivingId cfg.py r = some id →
      requested s id = true ∧ ∀ q ∈ s.wire, arrivingId cfg.py q ≠ some id := by
    intro id hid
    simpa [Honest, honest, hid] using ha
  obtain ⟨honce, hasked⟩ := hi.once.answered hi.asked (fun _ hr => h.requested_mono hr) hnew
  exact ⟨hw ▸ honce, hw ▸ hasked⟩

/-! ### The whole of reply routing -/

structure Routing (s : State) : Prop where
  distinct : ∀ c d i, (s.caller c).id? = some i → (s.caller d).id? = some i → c = d
  own : ∀ c n m, (s.caller c).result? = some (.returned n m) →
    ∃ i k, (s.caller c).id? = some i ∧ replyId m = .ok (some i) ∧ n = some k ∧
      (∀ m', .record (some k) m' ∉ s.enqueued) ∧
      ∀ d m', (s.caller d).result? = some (.returned (some k) m') → d = c
  timedOut : ∀ c o, (s.caller c).result? = some o → o.isTimeout = true →
    s.given c = [] ∧ ∀ i, (s.caller c).id? = some i →
      ∀ r ∈ s.routed, replyId r.message = .ok (some i) → r.place = .mailbox
  unregistered : ∀ c i o, s.caller c = .done (some i) o → s.pending.lookup i = none

/-- A reply put into the waiter of a call with its id is the result of the call, or there for
it to take. -/
def Taken (s : State) (n : Nat) (m : Dict) (c : Nat) : Prop :=
  (∃ i, (s.caller c).id? = some i ∧ replyId m = .ok (some i)) ∧
    ((s.caller c).result? = some (.returned (some n) m) ∨
      (s.caller c).result? = none ∧ s.waiter c = some (.record (some n) m))

/-- Every reply on the wire is in the reader's hand or went to one place: onto the event queue,
or to a call that takes it unless its timeout is more than the platform can wait for. -/
structure NothingDropped (cfg : Config) (s : State) : Prop where
  read : ∀ n m i, Waiters.recordAt (readRecord cfg.py) s.wire n = some m → answers m = some i →
    s.reader.hand? = some (n, m) ∨ ∃ p, ⟨n, m, p⟩ ∈ s.routed
  once : (s.routed.map Routed.serial).Nodup
  mailed : ∀ n m, ⟨n, m, .mailbox⟩ ∈ s.routed → .record (some n) m ∈ s.enqueued
  taken : ∀ n m c, ⟨n, m, .waiter c⟩ ∈ s.routed →
    (cfg.args c).requestTimeout ≤ cfg.timeoutMax → Taken s n m c

theorem Inv.serials {py : Interpreter} {s : State} (hi : Inv py s) :
    (s.routed.map Routed.serial).Nodup := by
  have := hi.seen.placed_nodup
  rwa [List.map_map] at this

theorem Inv.routing {py : Interpreter} {s : State} (hi : Inv py s) : Routing s := by
  have place : ∀ r ∈ s.routed, ∀ r' ∈ s.routed, r.serial = r'.serial → r = r' :=
    fun r hr r' hr' heq => List.inj_on_of_nodup_map hi.serials hr hr' heq
  refine ⟨hi.ids.inj, fun c n m hc => ?_, fun c o hc ho => ?_, fun c i o hc => ?_⟩
  · obtain ⟨k, rfl, hk⟩ := hi.delivery.records c n m (hi.delivery.taken c n m hc)
    obtain ⟨-, i, hid, hm⟩ := hi.delivery.routed c k m hk
    refine ⟨i, k, hid, hm, rfl, fun m' hm' => ?_, fun d m' hd => ?_⟩
    · have := place _ hk _ ((hi.mailbox.mailed k m').mp hm') rfl
      simp at this
    · obtain ⟨k', hk', hd'⟩ := hi.delivery.records d _ m' (hi.delivery.taken d _ m' hd)
      obtain rfl := Option.some.inj hk'
      have := place _ hd' _ hk rfl
      simp only [Routed.mk.injEq, Place.waiter.injEq] at this
      exact this.2.2
  · have hg := hi.delivery.timedOut c o hc ho
    refine ⟨hg, fun i hid r hr hm => ?_⟩
    obtain ⟨k, m, p⟩ := r
    cases p with
    | mailbox => rfl
    | waiter d =>
      obtain ⟨hgd, j, hj, hmj⟩ := hi.delivery.routed d k m hr
      have hij : i = j := by
        have := hm.symm.trans hmj
        simpa using this
      obtain rfl := hi.ids.inj c d i hid (hij ▸ hj)
      simp [hg] at hgd
  · rw [Option.eq_none_iff_forall_ne_some]
    intro d hd
    have ho := hi.table.listed i d hd
    obtain rfl := hi.ids.inj c d i (by simp [hc, CallPc.id?]) (CallPc.id?_of_open ho)
    simp [hc, CallPc.open?] at ho

/-- The one record that an honest peer sends for a call is the one its waiter is given. -/
theorem Inv.only {cfg : Config} {s : State} (hi : Inv cfg.py s) (ha : Answers cfg s) {c n : Nat}
    {m : Dict} (hr : ⟨n, m, .waiter c⟩ ∈ s.routed) {n' : Option Nat} {m' : Dict}
    (hg : .record n' m' ∈ s.given c) : n' = some n ∧ m' = m := by
  obtain ⟨k, rfl, hr'⟩ := hi.delivery.records c n' m' hg
  obtain ⟨-, i, hid, hm⟩ := hi.delivery.routed c n m hr
  obtain ⟨-, i', hid', hm'⟩ := hi.delivery.routed c k m' hr'
  obtain rfl : i = i' := Option.some.inj (hid.symm.trans hid')
  have recorded : ∀ r ∈ s.routed, replyId r.message = .ok (some i) →
      Waiters.recordAt (readRecord cfg.py) s.wire r.serial = some r.message := fun r hr hm =>
    hi.seen.recorded _ _ i (List.mem_append_left _ (List.mem_map_of_mem hr)) (answers_iff.mpr hm)
  have hrec := recorded _ hr hm
  have hrec' := recorded _ hr' hm'
  obtain rfl : n = k := ha.once.same hrec hrec' (answers_iff.mpr hm) (answers_iff.mpr hm')
  exact ⟨rfl, Option.some.inj (hrec'.symm.trans hrec)⟩

/-- A reply answers a request that its call has sent. -/
theorem Inv.asked {cfg : Config} {s : State} (hi : Inv cfg.py s) (ha : Answers cfg s)
    (hk : Kept cfg s.caller s.send s.given s.transmitted) {c n : Nat} {m : Dict}
    (hr : ⟨n, m, .waiter c⟩ ∈ s.routed) : ∃ v, s.send (.caller c) = some ⟨v, .sent⟩ := by
  obtain ⟨-, i, hid, hm⟩ := hi.delivery.routed c n m hr
  have hmem : (n, m) ∈ s.routed.map numbered := List.mem_map.mpr ⟨_, hr, rfl⟩
  have hrec := hi.seen.recorded n m i (List.mem_append_left _ hmem) (answers_iff.mpr hm)
  obtain ⟨q, hq, hp⟩ := Waiters.recordAt_mem hrec
  have harr : arrivingId cfg.py q = some i := by
    simp [arrivingId, Waiters.entryId, hp, answers_iff.mpr hm]
  obtain ⟨d, v, hv, hd⟩ := requested_iff.mp (ha.asked q hq i harr)
  obtain rfl := hi.ids.inj c d i hid hd
  exact hk.sent _ v hv

theorem Inv.taken {cfg : Config} {s : State} (hi : Inv cfg.py s) (ha : Answers cfg s)
    (hk : Kept cfg s.caller s.send s.given s.transmitted) {c n : Nat} {m : Dict}
    (hr : ⟨n, m, .waiter c⟩ ∈ s.routed)
    (hmax : (cfg.args c).requestTimeout ≤ cfg.timeoutMax) : Taken s n m c := by
  obtain ⟨hg, hid⟩ := hi.delivery.routed c n m hr
  refine ⟨hid, ?_⟩
  cases hres : (s.caller c).result? with
  | none =>
    refine .inr ⟨rfl, ?_⟩
    rw [hi.slots.fresh c (CallPc.untaken_iff.mpr hres), Option.mem_toList] at hg
    exact hg
  | some o =>
    refine .inl ?_
    obtain ⟨v, hv⟩ := hi.asked ha hk hr
    rcases hk.result c v o hv hres with ⟨item, hhead, rfl⟩ | ht | ht
    · obtain ⟨rest, hrest⟩ := List.head?_eq_some_iff.mp hhead
      cases item with
      | record n' m' =>
        have hfirst : .record n' m' ∈ s.given c := by simp [hrest]
        obtain ⟨rfl, rfl⟩ := hi.only ha hr hfirst
        rfl
      | failure f =>
        -- a failure is put only once the map is empty, so the reply would not come after it
        rw [hrest, List.mem_cons] at hg
        exact absurd (hg.resolve_left (by simp)) (hk.order c f rest hrest _ m)
    · simp [hi.delivery.timedOut c o hres ht] at hg
    · exact absurd hmax (Rat.not_le.mpr ht)

theorem Inv.nothingDropped {cfg : Config} {s : State} (hi : Inv cfg.py s) (ha : Answers cfg s)
    (hk : Kept cfg s.caller s.send s.given s.transmitted) : NothingDropped cfg s where
  once := hi.serials
  mailed := fun n m hr => (hi.mailbox.mailed n m).mpr hr
  taken := fun _ _ _ hr => hi.taken ha hk hr
  read := by
    intro n m i hrec hm
    rcases List.mem_append.mp (hi.seen.complete n m i hrec hm) with hp | hh
    · obtain ⟨⟨k, m', p⟩, hr, heq⟩ := List.mem_map.mp hp
      obtain ⟨rfl, rfl⟩ := Prod.mk.inj heq
      exact .inr ⟨p, hr⟩
    · exact .inl (Option.mem_toList.mp hh)

theorem reach_answers {cfg : Config} {s : State} (h : Reach (step cfg) (Honest cfg) init s) :
    Answers cfg s :=
  h.invariant (P := Answers cfg) ⟨List.Pairwise.nil, by simp [init]⟩
    fun _ _ _ hi ha hs => hi.step (step_sound hs) ha

theorem reach_kept {cfg : Config} {ok : State → Action → Prop} {s : State}
    (h : Reach (step cfg) ok init s) : Kept cfg s.caller s.send s.given s.transmitted :=
  h.invariant_of (P := fun s => Kept cfg s.caller s.send s.given s.transmitted)
    (fun _ hr => reach_inv hr) ⟨by simp [init], by simp [init], by simp [init], by simp [init]⟩
    fun _ _ _ inv hi _ hs => hi.step (step_sound hs) inv

theorem call_routing (cfg : Config) :
    (∀ s, Reach (step cfg) Any init s → Routing s) ∧
      ∀ s, Reach (step cfg) (Honest cfg) init s → NothingDropped cfg s :=
  ⟨fun _ h => (reach_inv h).routing, fun _ h =>
    (reach_inv h).nothingDropped (reach_answers h) (reach_kept h)⟩

/-- Calls with one timeout, on a platform where `threading.TIMEOUT_MAX` is 2^63 nanoseconds. -/
def withTimeout (t : Rat) : Config where
  py := plain
  timeoutMax := 9223372036
  args := fun _ => ⟨str "msys.core", str "list", none, some t, false⟩
  message := fun _ => .none

/-- One call up to its wait, and the reader at the socket. -/
def oneCall : List Action :=
  [.callEnsure 0, .callLock 0, .callRegister 0, .callSend 0 (some 0), .sendTest (.caller 0),
    .sendLocked (.caller 0), .sendSendall (.caller 0) none, .callSent 0, .readerTest]

def oneReply : Bytes := bytes "\x7b\"type\":\"return\",\"id\":1\x7d"

theorem call_routing_reply : ∃ s, Reach (step (withTimeout 5)) (Honest (withTimeout 5)) init s ∧
    (s.caller 0).result?.isSome = true ∧ Routing s ∧ NothingDropped (withTimeout 5) s := by
  have h : (runWhere (step (withTimeout 5)) (Honest (withTimeout 5)) init
      (oneCall ++ [.readerRead (.data oneReply), .readerDispatch, .callGet 0])).map
        (fun s => (s.caller 0).result?.isSome) = some true := by
    decide +kernel
  obtain ⟨s, hs, hres⟩ := Option.map_eq_some_iff.mp h
  have hr := Reach.of_runWhere hs
  exact ⟨s, hr, hres, (call_routing _).1 s hr.any, (call_routing _).2 s hr⟩

/-- `Queue.get` refuses a timeout past the platform's limit only after the request is sent:
a reply put into the waiter before the call takes itself off the map is lost. -/
theorem refused_timeout_drops_reply :
    ¬∀ cfg s, Reach (step cfg) (Honest cfg) init s → ∀ n m c, ⟨n, m, .waiter c⟩ ∈ s.routed →
      Taken s n m c := by
  intro hall
  have h : (runWhere (step (withTimeout 10000000000)) (Honest (withTimeout 10000000000)) init
      (oneCall ++ [.callOverflow 0, .readerRead (.data oneReply), .readerDispatch,
        .callFinish 0])).map
        (fun s => decide ((s.caller 0).result? = some (.raised .overflowError)) &&
          s.routed.any fun r => decide (r.place = .waiter 0)) = some true := by
    decide +kernel
  obtain ⟨s, hs, hp⟩ := Option.map_eq_some_iff.mp h
  simp only [Bool.and_eq_true, decide_eq_true_eq, List.any_eq_true] at hp
  obtain ⟨hres, ⟨n, m, p⟩, hr, rfl⟩ := hp
  have htaken := hall _ s (Reach.of_runWhere hs) n m 0 hr
  simp [Taken, hres] at htaken

end Msys.Client
