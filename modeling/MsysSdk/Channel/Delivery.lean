import MsysSdk.Channel.Frames

/-! What the waiters are given: replies with the id of their call, and failures. -/

namespace Msys.Channel
open Python Transition

theorem State.put_of_empty {s : State} {c : Nat} (item : Item) (h : s.waiter c = none) :
    s.put c item = { s with
      waiter := Function.update s.waiter c (some item)
      given := Function.update s.given c (s.given c ++ [item]) } := by
  simp [State.put, h]

theorem State.put_of_full {s : State} {c : Nat} {x : Item} (item : Item)
    (h : s.waiter c = some x) : s.put c item = s := by
  simp [State.put, h]

theorem slots_step {cfg : Config} {s s' : State} {a : Action} (h : Step cfg s a s')
    (hi : Waiters.Slots CallPc.untaken s.caller s.waiter s.given) :
    Waiters.Slots CallPc.untaken s'.caller s'.waiter s'.given := by
  have put : ∀ c item, Waiters.Slots CallPc.untaken (s.put c item).caller (s.put c item).waiter
      (s.put c item).given := by
    intro c item
    cases slot : s.waiter c with
    | some x => rwa [State.put_of_full item slot]
    | none =>
      rw [State.put_of_empty item slot]
      exact hi.put slot
  cases h with
  | get pc slot => exact hi.take rfl
  | failPut frame => exact put _ _
  | deliver pc slot => exact put _ _
  | _ => first | exact hi | exact hi.update (by simp [CallPc.untaken, *])

/-! ### Nobody is forgotten -/

/-- A `_fail_pending` has still to fail the call. -/
def Busy (fail : Thread → Option FailFrame) (c : Nat) : Prop :=
  ∃ t f, fail t = some f ∧ c ∈ f.pc.waiters

theorem Busy.update {fail : Thread → Option FailFrame} {t : Thread} {f : FailFrame} {c : Nat}
    (h : Busy fail c) (ht : ∀ g, fail t = some g → c ∈ g.pc.waiters → c ∈ f.pc.waiters) :
    Busy (Function.update fail t (some f)) c := by
  obtain ⟨u, g, hu, hc⟩ := h
  rcases eq_or_ne u t with rfl | hne
  · exact ⟨u, f, Function.update_self .., ht g hu hc⟩
  · exact ⟨u, g, by rwa [Function.update_of_ne hne], hc⟩

theorem State.put_given_ne_nil {s : State} {c d : Nat} {item : Item} (h : s.given d ≠ []) :
    (s.put c item).given d ≠ [] := by
  cases slot : s.waiter c with
  | some x => rwa [State.put_of_full item slot]
  | none =>
    rw [State.put_of_empty item slot]
    rcases eq_or_ne d c with rfl | hne
    · simp
    · simpa [hne] using h

theorem State.given_of_put {s : State} {c : Nat} {item : Item}
    (hs : Waiters.Slots CallPc.untaken s.caller s.waiter s.given) :
    (s.put c item).given c ≠ [] := by
  cases slot : s.waiter c with
  | some x =>
    rw [State.put_of_full item slot]
    exact List.ne_nil_of_mem (hs.held c x slot)
  | none => simp [State.put_of_empty item slot]

theorem covered_step {cfg : Config} {s s' : State} {a : Action} (h : Step cfg s a s')
    (hids : Waiters.Ids CallPc.id? s.caller s.nextId)
    (hs : Waiters.Slots CallPc.untaken s.caller s.waiter s.given)
    (hf : Fails s.fail s.pump s.closer)
    (hi : Waiters.Covered CallPc.open? s.caller s.pending (Busy s.fail) s.given) :
    Waiters.Covered CallPc.open? s'.caller s'.pending (Busy s'.fail) s'.given := by
  have enter : ∀ t f, s.fail t = none →
      Waiters.Covered CallPc.open? s.caller s.pending (Busy (Function.update s.fail t (some f)))
        s.given :=
    fun t f ht => hi.mono (fun c hb => .inl (hb.update (by simp [ht]))) fun _ => id
  have pump_none : s.pump.left = false → s.fail .pump = none := by
    intro hl
    by_contra hne
    obtain ⟨f, hsome⟩ := Option.ne_none_iff_exists'.mp hne
    simp [hf.entered f hsome] at hl
  cases h with
  | register pc =>
    refine hi.register (fun d i hd => ?_) rfl
    exact Int.ne_of_lt (hids.bound d i (CallPc.id?_of_open hd))
  | finish pc lock => exact hi.remove rfl
  | @failEnter t e frame lock =>
    refine hi.sweep (fun c hc => ⟨t, _, Function.update_self .., hc⟩) fun c hb => hb.update ?_
    simp [frame, FailPc.waiters]
  | @failPut t e c ws frame =>
    refine hi.mono (fun d hb => ?_) fun d => State.put_given_ne_nil
    rcases eq_or_ne d c with rfl | hne
    · exact .inr (State.given_of_put hs)
    · exact .inl (hb.update (by simp [frame, FailPc.waiters, hne]))
  | recvBad pc => exact enter _ _ (pump_none (by simp [pc, PumpPc.left]))
  | failedOpen pc => exact enter _ _ (pump_none (by simp [pc, PumpPc.left]))
  | notifiedEnd pc => exact enter _ _ (pump_none (by simp [pc, PumpPc.left]))
  | @closeSet k pc =>
    refine enter _ _ ?_
    by_contra hne
    have := hf.closer k (by simpa [Option.isSome_iff_ne_none] using hne)
    simp [pc] at this
  | deliver pc slot => exact hi.mono (fun _ => .inl) fun d => State.put_given_ne_nil
  | _ => first | exact hi | exact hi.update (by simp [CallPc.open?, *])

/-! ### Items -/

structure Items (py : Interpreter) (caller : Nat → CallPc) (given : Nat → List Item)
    (routed : List Routed) (pump : PumpPc) : Prop where
  records : ∀ c n m, .record n m ∈ given c → ⟨n, m, .waiter c⟩ ∈ routed
  routed : ∀ c n m, ⟨n, m, .waiter c⟩ ∈ routed →
    .record n m ∈ given c ∧ ∃ i, (caller c).id? = some i ∧ replyId m = .ok (some i)
  inHand : ∀ n m c, pump = .deliver n m c →
    ∃ i, (caller c).id? = some i ∧ replyId m = .ok (some i)
  taken : ∀ c n m v, (caller c).result? = some (.replied n m v) →
    .record n m ∈ given c ∧ v = replyValue py m

section
variable {py : Interpreter} {caller : Nat → CallPc} {given : Nat → List Item}
  {routed : List Routed} {pump pump' : PumpPc} {c : Nat} {pc : CallPc} {item : Item}

theorem Items.caller_update (h : Items py caller given routed pump)
    (hid : ∀ i, (caller c).id? = some i → pc.id? = some i)
    (hr : ∀ n m v, pc.result? = some (.replied n m v) →
      .record n m ∈ given c ∧ v = replyValue py m) :
    Items py (Function.update caller c pc) given routed pump := by
  have key : ∀ d i, (caller d).id? = some i → (Function.update caller c pc d).id? = some i := by
    intro d i hd
    rcases eq_or_ne d c with rfl | hne
    · rw [Function.update_self]
      exact hid i hd
    · rwa [Function.update_of_ne hne]
  refine ⟨h.records, fun d n m hd => ?_, fun n m d hd => ?_, fun d n m v hd => ?_⟩
  · obtain ⟨hg, i, hi, hm⟩ := h.routed d n m hd
    exact ⟨hg, i, key d i hi, hm⟩
  · obtain ⟨i, hi, hm⟩ := h.inHand n m d hd
    exact ⟨i, key d i hi, hm⟩
  · rcases eq_or_ne d c with rfl | hne
    · rw [Function.update_self] at hd
      exact hr n m v hd
    · exact h.taken d n m v (by rwa [Function.update_of_ne hne] at hd)

theorem Items.pump_update (h : Items py caller given routed pump)
    (hp : ∀ n m c, pump' ≠ .deliver n m c) : Items py caller given routed pump' :=
  { h with inHand := fun n m c hc => absurd hc (hp n m c) }

/-- An item is put into a waiter; a record is also noted down. -/
theorem Items.put {routed' : List Routed} (h : Items py caller given routed pump)
    (hrec : ∀ n m, item = .record n m → ⟨n, m, .waiter c⟩ ∈ routed')
    (hsub : ∀ r ∈ routed, r ∈ routed')
    (hnew : ∀ d n m, ⟨n, m, .waiter d⟩ ∈ routed' → ⟨n, m, .waiter d⟩ ∈ routed ∨
      d = c ∧ item = .record n m ∧ ∃ i, (caller c).id? = some i ∧ replyId m = .ok (some i)) :
    Items py caller (Function.update given c (given c ++ [item])) routed' pump := by
  refine ⟨fun d n m hd => ?_, fun d n m hd => ?_, h.inHand, fun d n m v hd => ?_⟩
  · rcases Waiters.mem_put.mp hd with hd | ⟨rfl, hx⟩
    · exact hsub _ (h.records d n m hd)
    · exact hrec n m hx.symm
  · rcases hnew d n m hd with hd | ⟨rfl, rfl, hi⟩
    · obtain ⟨hg, hi⟩ := h.routed d n m hd
      exact ⟨Waiters.mem_put.mpr (.inl hg), hi⟩
    · exact ⟨Waiters.mem_put.mpr (.inr ⟨rfl, rfl⟩), hi⟩
  · obtain ⟨hg, hv⟩ := h.taken d n m v hd
    exact ⟨Waiters.mem_put.mpr (.inl hg), hv⟩

end

/-- A record that goes to no waiter is noted down. -/
theorem Items.note {py : Interpreter} {caller : Nat → CallPc} {given : Nat → List Item}
    {routed : List Routed} {pump : PumpPc} {r : Routed} (h : Items py caller given routed pump)
    (hr : ∀ c, r.place ≠ .waiter c) : Items py caller given (routed ++ [r]) pump := by
  refine { h with records := fun c n m hd => List.mem_append_left _ (h.records c n m hd),
                  routed := fun c n m hd => h.routed c n m ?_ }
  rcases List.mem_append.mp hd with hd | hd
  · exact hd
  · rw [← List.mem_singleton.mp hd] at hr
    exact absurd rfl (hr c)

theorem pass_ne_deliver (cfg : Config) (n : Nat) (m : Dict) :
    ∀ n' m' c, pass cfg n m ≠ .deliver n' m' c := by
  intro n' m' c
  rcases pass_cases cfg n m with h | ⟨id, h, -⟩ | h <;> simp [h]

theorem Items.step {cfg : Config} {s s' : State} {a : Action} (h : Step cfg s a s')
    (hs : Waiters.Slots CallPc.untaken s.caller s.waiter s.given)
    (hl : Waiters.Listed CallPc.open? s.caller s.pending)
    (hi : Items cfg.py s.caller s.given s.routed s.pump) :
    Items cfg.py s'.caller s'.given s'.routed s'.pump := by
  cases h with
  | @get c id item pc slot =>
    refine hi.caller_update (by simp [CallPc.id?, pc]) fun n m v hr => ?_
    have hmem := hs.held c item slot
    cases item with
    | record n' m' =>
      simp only [CallPc.result?, Item.outcome, Option.some.injEq, Outcome.replied.injEq] at hr
      obtain ⟨rfl, rfl, rfl⟩ := hr
      exact ⟨hmem, rfl⟩
    | failure e => simp [CallPc.result?, Item.outcome] at hr
  | @finish c id o pc lock =>
    refine hi.caller_update (by simp [CallPc.id?, pc]) fun n m v hr => ?_
    exact hi.taken c n m v (by simpa [pc, CallPc.result?] using hr)
  | @failPut t e c ws frame =>
    cases slot : s.waiter c with
    | some x =>
      rw [State.put_of_full _ slot]
      exact hi
    | none =>
      rw [State.put_of_empty _ slot]
      exact hi.put (by simp) (fun _ => id) fun _ _ _ => .inl
  | @deliver n m c pc slot =>
    rw [State.put_of_empty _ slot]
    have hput : Items cfg.py s.caller (Function.update s.given c (s.given c ++ [.record n m]))
        (s.routed ++ [⟨n, m, .waiter c⟩]) s.pump := by
      refine hi.put (by simp) (fun r hr => List.mem_append_left _ hr) fun d n' m' hd => ?_
      rcases List.mem_append.mp hd with hd | hd
      · exact .inl hd
      · simp only [List.mem_singleton, Routed.mk.injEq, Place.waiter.injEq] at hd
        obtain ⟨rfl, rfl, rfl⟩ := hd
        exact .inr ⟨rfl, rfl, hi.inHand _ _ _ pc⟩
    exact hput.pump_update (by simp)
  | full pc slot => exact (hi.note (by simp)).pump_update (by simp)
  | callback pc => exact (hi.note (by simp)).pump_update (by simp)
  | @found n m id c pc hm lock look =>
    refine { hi with inHand := fun n' m' c' hp => ?_ }
    simp only [PumpPc.deliver.injEq] at hp
    obtain ⟨rfl, rfl, rfl⟩ := hp
    exact ⟨id, CallPc.id?_of_open (hl id c look), hm⟩
  | notReply => exact hi.pump_update (pass_ne_deliver _ _ _)
  | unknown => exact hi.pump_update (pass_ne_deliver _ _ _)
  | pumpTest =>
    refine hi.pump_update fun n m c => ?_
    split_ifs <;> simp
  | pumpSettimeout =>
    refine hi.pump_update fun n m c => ?_
    split_ifs <;> simp
  | leave =>
    refine hi.pump_update fun n m c => ?_
    split_ifs <;> simp
  | _ =>
    first
    | exact hi
    | exact hi.caller_update (by simp [CallPc.id?, *]) (by simp [CallPc.result?])
    | exact hi.pump_update (by simp [State.pumpFail])

/-! ### All of it -/

structure Inv (py : Interpreter) (s : State) : Prop where
  ids : Waiters.Ids CallPc.id? s.caller s.nextId
  locked : Locked s.pendingLock s.caller
  listed : Waiters.Listed CallPc.open? s.caller s.pending
  sends : Sends s.caller s.send s.transmitted
  started : s.pumpThread = false → s.pump = .absent
  fails : Fails s.fail s.pump s.closer
  slots : Waiters.Slots CallPc.untaken s.caller s.waiter s.given
  covered : Waiters.Covered CallPc.open? s.caller s.pending (Busy s.fail) s.given
  items : Items py s.caller s.given s.routed s.pump

theorem inv_init (py : Interpreter) : Inv py init where
  ids := ⟨by simp [init, CallPc.id?], by simp [init, CallPc.id?]⟩
  locked := by simp [Locked, init]
  listed := Waiters.Listed.empty
  sends := ⟨fun _ _ => rfl, by simp [init], by simp [init]⟩
  started := fun _ => rfl
  fails := ⟨by simp [init], by simp [init], by simp [init], by simp [init], fun _ => rfl,
    fun _ => rfl⟩
  slots := ⟨by simp [init], fun _ _ => rfl⟩
  covered := fun c i hc => by simp [init, CallPc.open?] at hc
  items := ⟨by simp [init], by simp [init], by simp [init], by simp [init, CallPc.result?]⟩

theorem Inv.step {cfg : Config} {s s' : State} {a : Action} (hi : Inv cfg.py s)
    (h : Step cfg s a s') : Inv cfg.py s' where
  ids := ids_step h hi.ids
  locked := hi.locked.step h
  listed := listed_step h hi.listed
  sends := hi.sends.step h
  started := started_step h hi.started
  fails := hi.fails.step h hi.started
  slots := slots_step h hi.slots
  covered := covered_step h hi.ids hi.slots hi.fails hi.covered
  items := hi.items.step h hi.slots hi.listed

theorem reach_inv {cfg : Config} {ok : State → Action → Prop} {s : State}
    (h : Reach (step cfg) ok init s) : Inv cfg.py s :=
  h.invariant (inv_init cfg.py) fun _ _ _ hi _ hs => hi.step (step_sound hs)

end Msys.Channel
