import MsysSdk.Client.Frames

/-! The waiter map: who holds its lock, which calls it lists, and what the sweep of the
winning attempt leaves of it. -/

namespace Msys.Client
open Python

/-- The id of a call that is registered and has not taken itself off the map again. -/
def CallPc.open? : CallPc → Option Int
  | .registered i | .sending i | .waiting i | .expired i => some i
  | .finishing i o => if o.isTimeout then none else some i
  | _ => none

theorem CallPc.id?_of_open {pc : CallPc} {i : Int} (h : pc.open? = some i) : pc.id? = some i := by
  cases pc <;> simp_all [open?, id?]

/-! ### The lock -/

structure Lock (lock : Option Thread) (caller : Nat → CallPc) (term : Thread → Option TermFrame) :
    Prop where
  registering : ∀ c, caller c = .registering → lock = some (.caller c)
  sweeping : ∀ t f ws, term t = some f → f.pc = .sweeping ws → lock = some t
  exclusive : ∀ c t f, caller c = .registering → term t = some f → f.pc.swept = false

section
variable {lock : Option Thread} {caller : Nat → CallPc} {term : Thread → Option TermFrame}
  {c : Nat} {pc : CallPc} {t : Thread} {f : TermFrame}

theorem Lock.caller_update (h : Lock lock caller term) (hpc : pc ≠ .registering) :
    Lock lock (Function.update caller c pc) term := by
  have key : ∀ d, Function.update caller c pc d = .registering → caller d = .registering := by
    intro d hd
    rcases eq_or_ne d c with rfl | hne
    · rw [Function.update_self] at hd
      exact absurd hd hpc
    · rwa [Function.update_of_ne hne] at hd
  exact ⟨fun d hd => h.registering d (key d hd), h.sweeping,
    fun d t f hd ht => h.exclusive d t f (key d hd) ht⟩

/-- A frame outside the sweep before and after. -/
theorem Lock.term_update (h : Lock lock caller term) (hf : ∀ ws, f.pc ≠ .sweeping ws)
    (hs : f.pc.swept = true → ∃ g, term t = some g ∧ g.pc.swept = true) :
    Lock lock caller (Function.update term t (some f)) := by
  refine ⟨h.registering, fun u g ws hu hg => ?_, fun d u g hd hu => ?_⟩
  · rcases eq_or_ne u t with rfl | hne
    · rw [Function.update_self, Option.some.injEq] at hu
      exact absurd (hu ▸ hg) (hf ws)
    · exact h.sweeping u g ws (by rwa [Function.update_of_ne hne] at hu) hg
  · rcases eq_or_ne u t with rfl | hne
    · rw [Function.update_self, Option.some.injEq] at hu
      subst hu
      by_contra hb
      obtain ⟨g, hg, hgs⟩ := hs (by simpa using hb)
      exact absurd hgs (by simp [h.exclusive d u g hd hg])
    · exact h.exclusive d u g hd (by rwa [Function.update_of_ne hne] at hu)

theorem Lock.take (h : Lock none caller term) (hopen : ∀ t f, term t = some f → f.pc.won = false) :
    Lock (some (.caller c)) (Function.update caller c .registering) term := by
  refine ⟨fun d hd => ?_, fun t f ws ht hf => ?_, fun d t f hd ht => ?_⟩
  · rcases eq_or_ne d c with rfl | hne
    · rfl
    · rw [Function.update_of_ne hne] at hd
      exact absurd (h.registering d hd) (by simp)
  · exact absurd (h.sweeping t f ws ht hf) (by simp)
  · by_contra hb
    have hw := TermPc.won_of_swept (Bool.eq_false_iff.not_left.mp hb)
    exact absurd hw (by simp [hopen t f ht])

theorem Lock.register (h : Lock lock caller term) (hc : caller c = .registering)
    (hpc : pc ≠ .registering) : Lock none (Function.update caller c pc) term := by
  have hlock := h.registering c hc
  refine ⟨fun d hd => ?_, fun t f ws ht hf => ?_, fun d t f hd ht => ?_⟩
  · rcases eq_or_ne d c with rfl | hne
    · rw [Function.update_self] at hd
      exact absurd hd hpc
    · rw [Function.update_of_ne hne] at hd
      have := (h.registering d hd).symm.trans hlock
      exact absurd (Thread.caller.inj (Option.some.inj this)) hne
  · have := h.exclusive c t f hc ht
    simp [hf, TermPc.swept] at this
  · exact h.exclusive c t f hc ht

theorem Lock.sweep {e : Error} {i : Option Dict} {r : Option Error} {ws : List Nat}
    (h : Lock none caller term) :
    Lock (some t) caller (Function.update term t (some ⟨e, i, r, .sweeping ws⟩)) := by
  refine ⟨fun d hd => ?_, fun u g vs hu hg => ?_, fun d u g hd => ?_⟩
  · exact absurd (h.registering d hd) (by simp)
  · rcases eq_or_ne u t with rfl | hne
    · rfl
    · rw [Function.update_of_ne hne] at hu
      exact absurd (h.sweeping u g vs hu hg) (by simp)
  · exact absurd (h.registering d hd) (by simp)

theorem Lock.sweepNext {e : Error} {i : Option Dict} {r : Option Error} {ws ws' : List Nat}
    (h : Lock lock caller term) (ht : term t = some ⟨e, i, r, .sweeping ws⟩) :
    Lock lock caller (Function.update term t (some ⟨e, i, r, .sweeping ws'⟩)) := by
  have hlock := h.sweeping t _ ws ht rfl
  refine ⟨h.registering, fun u g vs hu hg => ?_, fun d u g hd => ?_⟩
  · rcases eq_or_ne u t with rfl | hne
    · exact hlock
    · exact h.sweeping u g vs (by rwa [Function.update_of_ne hne] at hu) hg
  · exact absurd (h.exclusive d t _ hd ht) (by simp [TermPc.swept])

theorem Lock.release {e : Error} {i : Option Dict} {r : Option Error} {ws : List Nat}
    (h : Lock lock caller term) (ht : term t = some ⟨e, i, r, .sweeping ws⟩) :
    Lock none caller (Function.update term t (some ⟨e, i, r, .announce⟩)) := by
  have hlock := h.sweeping t _ ws ht rfl
  have hreg : ∀ d, caller d ≠ .registering := fun d hd =>
    absurd (h.exclusive d t _ hd ht) (by simp [TermPc.swept])
  refine ⟨fun d hd => absurd hd (hreg d), fun u g vs hu hg => ?_, fun d u g hd => absurd hd (hreg d)⟩
  rcases eq_or_ne u t with rfl | hne
  · rw [Function.update_self, Option.some.injEq] at hu
    rw [← hu] at hg
    cases hg
  · rw [Function.update_of_ne hne] at hu
    exact absurd (Option.some.inj ((h.sweeping u g vs hu hg).symm.trans hlock)) hne

end

theorem Lock.step {cfg : Config} {s s' : State} {a : Action} (h : Step cfg s a s')
    (ht : Terms s.closed s.terminalCallError s.terminalRecvError s.term)
    (hi : Lock s.pendingLock s.caller s.term) : Lock s'.pendingLock s'.caller s'.term := by
  cases h with
  | lockOpen pc lock hc =>
    -- the client is open, so no attempt has won yet
    refine (lock ▸ hi).take fun t f hf => ?_
    by_contra hw
    exact absurd (ht.cause t f hf (by simpa using hw)).1 (by simp [hc])
  | register pc => exact hi.register pc (by simp)
  | sweep term lock => exact (lock ▸ hi).sweep
  | fail term => exact hi.sweepNext term
  | release term => exact hi.release term
  | announce term => exact hi.term_update (by simp) fun _ => ⟨_, term, rfl⟩
  | _ =>
    first
    | exact hi
    | exact hi.caller_update (by simp)
    | exact hi.term_update (by simp) (by simp [TermPc.swept])

/-! ### The map -/

structure Table (caller : Nat → CallPc) (pending : Waiters.Pending Nat)
    (term : Thread → Option TermFrame) : Prop where
  listed : Waiters.Listed CallPc.open? caller pending
  cleared : ∀ t f, term t = some f → f.pc.swept = true → pending = ∅
  swept : ∀ t f c, term t = some f → c ∈ f.pc.waiters → ∃ i, (caller c).open? = some i

section
variable {caller : Nat → CallPc} {pending : Waiters.Pending Nat}
  {term : Thread → Option TermFrame} {c : Nat} {pc : CallPc} {t : Thread} {f : TermFrame}

theorem Table.caller_update (h : Table caller pending term) (ho : pc.open? = (caller c).open?) :
    Table (Function.update caller c pc) pending term := by
  refine ⟨h.listed.update ho, h.cleared, fun t f d ht hd => ?_⟩
  obtain ⟨i, hi⟩ := h.swept t f d ht hd
  exact ⟨i, (Waiters.update_view ho d).trans hi⟩

theorem Table.term_update (h : Table caller pending term)
    (hs : f.pc.swept = true → ∃ g, term t = some g ∧ g.pc.swept = true)
    (hw : ∀ c ∈ f.pc.waiters, ∃ g, term t = some g ∧ c ∈ g.pc.waiters) :
    Table caller pending (Function.update term t (some f)) := by
  refine ⟨h.listed, fun u g hu hg => ?_, fun u g c hu hc => ?_⟩
  · rcases eq_or_ne u t with rfl | hne
    · rw [Function.update_self, Option.some.injEq] at hu
      obtain ⟨k, hk, hks⟩ := hs (hu ▸ hg)
      exact h.cleared u k hk hks
    · exact h.cleared u g (by rwa [Function.update_of_ne hne] at hu) hg
  · rcases eq_or_ne u t with rfl | hne
    · rw [Function.update_self, Option.some.injEq] at hu
      obtain ⟨k, hk, hkc⟩ := hw c (hu ▸ hc)
      exact h.swept u k c hk hkc
    · exact h.swept u g c (by rwa [Function.update_of_ne hne] at hu) hc

theorem Table.register {n : Int} (h : Table caller pending term) (hc : caller c = .registering)
    (hx : ∀ t f, term t = some f → f.pc.swept = false) :
    Table (Function.update caller c (.registered n)) (pending.insert n c) term := by
  have hnone : (caller c).open? = none := by simp [hc, CallPc.open?]
  refine ⟨h.listed.register hnone rfl, fun t f ht hf => ?_, fun t f d ht hd => ?_⟩
  · simp [hx t f ht] at hf
  · obtain ⟨i, hi⟩ := h.swept t f d ht hd
    have hne : d ≠ c := by
      rintro rfl
      simp [hnone] at hi
    exact ⟨i, by rwa [Function.update_of_ne hne]⟩

theorem Table.sweep {e : Error} {i : Option Dict} {r : Option Error}
    (h : Table caller pending term) :
    Table caller ∅ (Function.update term t
      (some ⟨e, i, r, .sweeping (Waiters.listed pending)⟩)) := by
  refine ⟨Waiters.Listed.empty, fun _ _ _ _ => rfl, fun u g d hu hd => ?_⟩
  rcases eq_or_ne u t with rfl | hne
  · rw [Function.update_self, Option.some.injEq] at hu
    rw [← hu] at hd
    obtain ⟨j, hj⟩ := Waiters.mem_listed.mp hd
    exact ⟨j, h.listed j d hj⟩
  · exact h.swept u g d (by rwa [Function.update_of_ne hne] at hu) hd

/-- A call takes itself off the map; no sweep is on, for it would hold the lock. -/
theorem Table.unregister {id : Int} (h : Table caller pending term) (hl : Lock none caller term)
    (ho : ∀ i, (caller c).open? = some i → i = id) :
    Table (Function.update caller c pc) (Waiters.remove pending id c) term := by
  refine ⟨h.listed.remove ho, fun t f ht hf => ?_, fun t f d ht hd => ?_⟩
  · rw [h.cleared t f ht hf, Waiters.remove_empty]
  · cases hp : f.pc with
    | sweeping ws => exact absurd (hl.sweeping t f ws ht hp) (by simp)
    | _ => simp [hp, TermPc.waiters] at hd

end

theorem Table.step {cfg : Config} {s s' : State} {a : Action} (h : Step cfg s a s')
    (hsend : Sends s.caller s.send) (hl : Lock s.pendingLock s.caller s.term)
    (hi : Table s.caller s.pending s.term) : Table s'.caller s'.pending s'.term := by
  cases h with
  | register pc => exact hi.register pc fun t f ht => hl.exclusive _ t f pc ht
  | notSent pc frame =>
    exact hi.caller_update (by simp [CallPc.open?, pc, Exc.isTimeout_of_ofSend (hsend.raised _ _ _ frame)])
  | recheckEmpty pc lock => exact hi.unregister (lock ▸ hl) (by simp [CallPc.open?, pc])
  | @finish c id o pc lock =>
    refine hi.unregister (lock ▸ hl) fun i hi => ?_
    have := CallPc.id?_of_open hi
    simp only [pc, CallPc.id?, Option.some.injEq] at this
    exact this.symm
  | sweep => exact hi.sweep
  | fail term =>
    exact hi.term_update (fun _ => ⟨_, term, rfl⟩)
      fun c hc => ⟨_, term, List.mem_cons_of_mem _ hc⟩
  | release term => exact hi.term_update (fun _ => ⟨_, term, rfl⟩) (by simp [TermPc.waiters])
  | announce term => exact hi.term_update (fun _ => ⟨_, term, rfl⟩) (by simp [TermPc.waiters])
  | _ =>
    first
    | exact hi
    | exact hi.caller_update (by simp [CallPc.open?, *])
    | exact hi.term_update (by simp [TermPc.swept]) (by simp [TermPc.waiters])

end Msys.Client
