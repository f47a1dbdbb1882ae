import MsysSdk.Client.Table

/-! Where records go: what a waiter has been given, and what a call has taken from it. -/

namespace Msys.Client
open Python

/-- The call has not yet got anything out of its waiter. -/
def CallPc.untaken : CallPc → Bool
  | .finishing .. | .done .. => false
  | _ => true

def CallPc.result? : CallPc → Option Outcome
  | .finishing _ o | .done _ o => some o
  | _ => none

theorem CallPc.untaken_iff {pc : CallPc} : pc.untaken = true ↔ pc.result? = none := by
  cases pc <;> simp [untaken, result?]

theorem State.put_of_empty {s : State} {c : Nat} (item : InboxItem) (h : s.waiter c = none) :
    s.put c item = { s with
      waiter := Function.update s.waiter c (some item)
      given := Function.update s.given c (s.given c ++ [item]) } := by
  simp [State.put, h]

theorem State.put_of_full {s : State} {c : Nat} {x : InboxItem} (item : InboxItem)
    (h : s.waiter c = some x) : s.put c item = s := by
  simp [State.put, h]

theorem slots_step {cfg : Config} {s s' : State} {a : Action} (h : Step cfg s a s')
    (hi : Waiters.Slots CallPc.untaken s.caller s.waiter s.given) :
    Waiters.Slots CallPc.untaken s'.caller s'.waiter s'.given := by
  have put : ∀ c item, Waiters.Slots CallPc.untaken (s.put c item).caller (s.put c item).waiter
      (s.put c item).given := by
    intro c item
    cases slot : s.waiter c with
    | some x => rwa [State.put_of_full item slot]
    | none =>
      rw [State.put_of_empty item slot]
      exact hi.put slot
  cases h with
  | get pc slot => exact hi.take rfl
  | recheckItem pc lock slot => exact hi.take rfl
  | fail term => exact put _ _
  | deliver pc hm lock look slot => exact put _ _
  | _ => first | exact hi | exact hi.update (by simp [CallPc.untaken, *])

/-! ### Records and failures -/

structure Delivery (caller : Nat → CallPc) (given : Nat → List InboxItem) (routed : List Routed)
    (term : Thread → Option TermFrame) : Prop where
  taken : ∀ c n m, (caller c).result? = some (.returned n m) → .record n m ∈ given c
  timedOut : ∀ c o, (caller c).result? = some o → o.isTimeout = true → given c = []
  records : ∀ c n m, .record n m ∈ given c → ∃ k, n = some k ∧ ⟨k, m, .waiter c⟩ ∈ routed
  failures : ∀ c f, .failure f ∈ given c →
    ∃ t g, term t = some g ∧ g.pc.swept = true ∧ f = .fromError g.callError
  routed : ∀ c k m, ⟨k, m, .waiter c⟩ ∈ routed →
    .record (some k) m ∈ given c ∧ ∃ i, (caller c).id? = some i ∧ replyId m = .ok (some i)

section
variable {caller : Nat → CallPc} {given : Nat → List InboxItem} {routed : List Routed}
  {term : Thread → Option TermFrame} {c : Nat} {pc : CallPc}

theorem Delivery.caller_update (h : Delivery caller given routed term)
    (hr : ∀ o, pc.result? = some o →
      (∀ n m, o = .returned n m → .record n m ∈ given c) ∧ (o.isTimeout = true → given c = []))
    (hid : ∀ i, (caller c).id? = some i → pc.id? = some i) :
    Delivery (Function.update caller c pc) given routed term := by
  refine { h with taken := fun d n m hd => ?_, timedOut := fun d o hd ho => ?_,
                  routed := fun d k m hd => ?_ }
  · rcases eq_or_ne d c with rfl | hne
    · rw [Function.update_self] at hd
      exact (hr _ hd).1 n m rfl
    · exact h.taken d n m (by rwa [Function.update_of_ne hne] at hd)
  · rcases eq_or_ne d c with rfl | hne
    · rw [Function.update_self] at hd
      exact (hr _ hd).2 ho
    · exact h.timedOut d o (by rwa [Function.update_of_ne hne] at hd) ho
  · obtain ⟨hg, i, hi, hm⟩ := h.routed d k m hd
    refine ⟨hg, i, ?_, hm⟩
    rcases eq_or_ne d c with rfl | hne
    · rw [Function.update_self]
      exact hid i hi
    · rwa [Function.update_of_ne hne]

/-- A step of a call that ends it, if at all, with an exception other than TimeoutError. -/
theorem Delivery.caller_quiet (h : Delivery caller given routed term)
    (hr : ∀ o, pc.result? = some o → ∃ e, o = .raised e ∧ e.isTimeout = false)
    (hid : ∀ i, (caller c).id? = some i → pc.id? = some i) :
    Delivery (Function.update caller c pc) given routed term := by
  refine h.caller_update (fun o ho => ?_) hid
  obtain ⟨e, rfl, he⟩ := hr o ho
  exact ⟨fun n m hn => by simp at hn, fun ht => by simp [he] at ht⟩

/-- The call leaves with an item that its waiter was given. -/
theorem Delivery.take {id : Int} {item : InboxItem} (h : Delivery caller given routed term)
    (hitem : item ∈ given c) (hid : ∀ i, (caller c).id? = some i → i = id) :
    Delivery (Function.update caller c (.finishing id item.outcome)) given routed term := by
  refine h.caller_update (fun o ho => ?_) fun i hi => by simp [CallPc.id?, hid i hi]
  obtain rfl := Option.some.inj ho
  refine ⟨fun n m hn => ?_, fun ht => by simp at ht⟩
  cases item with
  | record n' m' =>
    obtain ⟨rfl, rfl⟩ := Outcome.returned.inj hn
    exact hitem
  | failure f => cases hn

/-- Something is put into the waiter of a call that is still on the map. -/
theorem Delivery.put {i : Int} {item : InboxItem} {routed' : List Routed}
    (h : Delivery caller given routed term) (ho : (caller c).open? = some i)
    (hrec : ∀ n m, item = .record n m → ∃ k, n = some k ∧ ⟨k, m, .waiter c⟩ ∈ routed')
    (hfail : ∀ f, item = .failure f →
      ∃ t g, term t = some g ∧ g.pc.swept = true ∧ f = .fromError g.callError)
    (hsub : ∀ r ∈ routed, r ∈ routed')
    (hnew : ∀ d k m, ⟨k, m, .waiter d⟩ ∈ routed' → ⟨k, m, .waiter d⟩ ∈ routed ∨
      d = c ∧ item = .record (some k) m ∧ replyId m = .ok (some i)) :
    Delivery caller (Function.update given c (given c ++ [item])) routed' term := by
  refine ⟨fun d n m hd => Waiters.mem_put.mpr (.inl (h.taken d n m hd)), fun d o hd hto => ?_,
    fun d n m hd => ?_, fun d f hd => ?_, fun d k m hd => ?_⟩
  -- a call that has timed out is off the map
  · have hne : d ≠ c := by
      rintro rfl
      cases hpc : caller d <;> simp_all [CallPc.result?, CallPc.open?]
    rw [Function.update_of_ne hne]
    exact h.timedOut d o hd hto
  · rcases Waiters.mem_put.mp hd with hx | ⟨rfl, hx⟩
    · obtain ⟨k, hk, hmem⟩ := h.records d n m hx
      exact ⟨k, hk, hsub _ hmem⟩
    · exact hrec n m hx.symm
  · rcases Waiters.mem_put.mp hd with hx | ⟨rfl, hx⟩
    · exact h.failures d f hx
    · exact hfail f hx.symm
  · rcases hnew d k m hd with hd | ⟨rfl, rfl, hm⟩
    · obtain ⟨hg, hi⟩ := h.routed d k m hd
      exact ⟨Waiters.mem_put.mpr (.inl hg), hi⟩
    · exact ⟨Waiters.mem_put.mpr (.inr ⟨rfl, rfl⟩), i, CallPc.id?_of_open ho, hm⟩

end

theorem Delivery.step {cfg : Config} {s s' : State} {a : Action} (h : Step cfg s a s')
    (hs : Sends s.caller s.send) (hf : Frames s.send s.term s.reader)
    (ht : Table s.caller s.pending s.term)
    (hslots : Waiters.Slots CallPc.untaken s.caller s.waiter s.given)
    (hi : Delivery s.caller s.given s.routed s.term) :
    Delivery s'.caller s'.given s'.routed s'.term := by
  -- The attempts that failed a call are still there after the step.
  have hi : Delivery s.caller s.given s.routed s'.term := by
    refine { hi with failures := fun c x hx => ?_ }
    obtain ⟨t, g, hg, hswept, rfl⟩ := hi.failures c x hx
    obtain ⟨f, hf, hadv⟩ := h.term_kept hs hf hg
    exact ⟨t, f, hf, hadv.swept hswept, by rw [hadv.callError]⟩
  cases h with
  | notSent pc frame =>
    exact hi.caller_quiet
      (by simp [CallPc.result?, Exc.isTimeout_of_ofSend (hs.raised _ _ _ frame)])
      (by simp [CallPc.id?, pc])
  | get pc slot => exact hi.take (hslots.held _ _ slot) (by simp [CallPc.id?, pc, eq_comm])
  | recheckItem pc lock slot =>
    exact hi.take (hslots.held _ _ slot) (by simp [CallPc.id?, pc, eq_comm])
  | @recheckEmpty c id pc lock slot =>
    have hg : s.given c = [] := by
      simpa [slot] using hslots.fresh c (by simp [CallPc.untaken, pc])
    refine hi.caller_update (fun o ho => ?_) (by simp [CallPc.id?, pc])
    obtain rfl := Option.some.inj ho
    exact ⟨fun n m hn => by simp at hn, fun _ => hg⟩
  | finish pc lock =>
    exact hi.caller_update
      (fun o ho => ⟨fun n m hn => hi.taken _ n m (by simp_all [CallPc.result?]),
        hi.timedOut _ o (by simp_all [CallPc.result?])⟩) (by simp [CallPc.id?, pc])
  | @fail t e i r c ws term =>
    cases slot : s.waiter c with
    | some x =>
      rw [State.put_of_full _ slot] at hi ⊢
      exact hi
    | none =>
      rw [State.put_of_empty _ slot] at hi ⊢
      obtain ⟨j, hj⟩ := ht.swept t _ c term List.mem_cons_self
      refine hi.put hj (by simp) (fun f hf => ?_) (fun _ => id) fun d k m hd => .inl hd
      exact ⟨t, _, Function.update_self .., rfl, (InboxItem.failure.inj hf).symm⟩
  | @deliver n m id c pc hm lock look slot =>
    rw [State.put_of_empty _ slot] at hi ⊢
    refine hi.put (ht.listed id c look) (by simp) (by simp)
      (fun r hr => List.mem_append_left _ hr) fun d k m' hd => ?_
    rcases List.mem_append.mp hd with hd | hd
    · exact .inl hd
    · obtain ⟨rfl, rfl, hc⟩ := Routed.mk.inj (List.mem_singleton.mp hd)
      exact .inr ⟨Place.waiter.inj hc, rfl, hm⟩
  | enqueue pc =>
    refine { hi with records := fun c n m hd => ?_, routed := fun c k m hd => ?_ }
    · obtain ⟨k, hk, hmem⟩ := hi.records c n m hd
      exact ⟨k, hk, List.mem_append_left _ hmem⟩
    · exact hi.routed c k m (by simpa using hd)
  | _ =>
    first
    | exact hi
    | exact hi.caller_quiet (by simp [CallPc.result?]) (by simp [CallPc.id?, *])

/-! ### Nobody is forgotten -/

/-- An attempt has still to fail the call. -/
def Busy (term : Thread → Option TermFrame) (c : Nat) : Prop :=
  ∃ t f, term t = some f ∧ c ∈ f.pc.waiters

theorem State.put_given_ne_nil {s : State} {c d : Nat} {item : InboxItem} (h : s.given d ≠ []) :
    (s.put c item).given d ≠ [] := by
  cases slot : s.waiter c with
  | some x => rwa [State.put_of_full item slot]
  | none =>
    rw [State.put_of_empty item slot]
    rcases eq_or_ne d c with rfl | hne
    · simp
    · simpa [hne] using h

theorem State.given_of_put {s : State} {c : Nat} {item : InboxItem}
    (hs : Waiters.Slots CallPc.untaken s.caller s.waiter s.given) :
    (s.put c item).given c ≠ [] := by
  cases slot : s.waiter c with
  | some x =>
    rw [State.put_of_full item slot]
    exact List.ne_nil_of_mem (hs.held c x slot)
  | none => simp [State.put_of_empty item slot]

theorem covered_step {cfg : Config} {s s' : State} {a : Action} (h : Step cfg s a s')
    (hids : Waiters.Ids CallPc.id? s.caller s.nextId) (hs : Sends s.caller s.send)
    (hf : Frames s.send s.term s.reader)
    (hslots : Waiters.Slots CallPc.untaken s.caller s.waiter s.given)
    (hi : Waiters.Covered CallPc.open? s.caller s.pending (Busy s.term) s.given) :
    Waiters.Covered CallPc.open? s'.caller s'.pending (Busy s'.term) s'.given := by
  have busy : ∀ c, Busy s.term c → Busy s'.term c ∨ s'.given c ≠ [] := by
    rintro c ⟨t, g, hg, hc⟩
    obtain ⟨f, hf, hadv⟩ := h.term_kept hs hf hg
    rcases hadv.waiters c hc with hc | ⟨ws, rfl, hws⟩
    · exact .inl ⟨t, f, hf, hc⟩
    · refine .inr ?_
      cases h with
      | fail term =>
        obtain rfl := Option.some.inj (hg.symm.trans term)
        obtain ⟨rfl, -⟩ := List.cons.inj (TermPc.sweeping.inj hws)
        exact State.given_of_put hslots
  have given : ∀ c, s.given c ≠ [] → s'.given c ≠ [] := by
    intro c hc
    cases h with
    | fail => exact State.put_given_ne_nil hc
    | deliver => exact State.put_given_ne_nil hc
    | _ => exact hc
  have hi := hi.mono busy given
  cases h with
  | register pc =>
    refine hi.register (fun d i hd => ?_) rfl
    exact Int.ne_of_lt (hids.bound d i (CallPc.id?_of_open hd))
  | notSent pc frame =>
    exact hi.update (by simp [CallPc.open?, pc, Exc.isTimeout_of_ofSend (hs.raised _ _ _ frame)])
  | recheckEmpty pc lock slot => exact hi.remove (by simp [CallPc.open?])
  | finish pc lock => exact hi.remove rfl
  | @sweep t e i r term lock =>
    exact hi.sweep (fun c hc => ⟨t, _, Function.update_self .., hc⟩) fun _ => id
  | _ => first | exact hi | exact hi.update (by simp [CallPc.open?, *])

end Msys.Client
