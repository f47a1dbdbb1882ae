import MsysSdk.Runs.Transition
import Mathlib.Data.List.Basic

/-! A slot for one request, in which the latest wins, and the worker that empties it, one request
at a time. A request that is wanted already is let in again only when it is forced and nothing
is on its way; a service that fails takes back what is wanted, unless something newer is. -/

namespace Coalescing
open Transition
variable {ρ : Type*}

inductive Phase (ρ : Type*)
  | loop
  | taken (r : ρ)
  | serving (r : ρ)
  | failed (r : ρ)

/-- The lists record the past: the requests made, the services begun and how those that are over
ended. -/
structure State (ρ : Type*) where
  pending : Option ρ
  wanted : Option ρ
  worker : Option (Phase ρ)
  shut : Bool
  asked : List ρ
  begun : List ρ
  ended : List (ρ × Bool)

def init : State ρ := ⟨none, none, none, false, [], [], []⟩

inductive Action (ρ : Type*)
  | ask (r : ρ) (force : Bool)
  | take
  | begin
  | finish (ok : Bool)
  | note
  | shut
  | settle (r : ρ)

/-- The request goes no further than this. -/
def Suppressed (s : State ρ) (r : ρ) (force : Bool) : Prop :=
  s.wanted = some r ∧ (force = false ∨ s.pending ≠ none ∨ s.worker.isSome = true)

instance [DecidableEq ρ] (s : State ρ) (r : ρ) (force : Bool) : Decidable (Suppressed s r force) :=
  inferInstanceAs (Decidable (_ ∧ _))

def ask [DecidableEq ρ] (s : State ρ) (r : ρ) (force : Bool) : State ρ :=
  if Suppressed s r force then { s with asked := s.asked ++ [r] }
  else { s with
    wanted := some r
    pending := some r
    worker := some (s.worker.getD .loop)
    asked := s.asked ++ [r] }

def take (s : State ρ) : Option (State ρ) :=
  match s.worker with
  | some .loop =>
    match s.pending, s.shut with
    | some r, false => some { s with pending := none, worker := some (.taken r) }
    | _, _ => some { s with pending := none, worker := none }
  | _ => none

def begin (s : State ρ) : Option (State ρ) :=
  match s.worker with
  | some (.taken r) => some { s with worker := some (.serving r), begun := s.begun ++ [r] }
  | _ => none

def finish (s : State ρ) (ok : Bool) : Option (State ρ) :=
  match s.worker with
  | some (.serving r) => some { s with
      worker := some (if ok then .loop else .failed r)
      ended := s.ended ++ [(r, ok)] }
  | _ => none

def note [DecidableEq ρ] (s : State ρ) : Option (State ρ) :=
  match s.worker with
  | some (.failed r) => some { s with
      worker := some .loop
      wanted := if s.wanted = some r ∧ s.pending = none then none else s.wanted }
  | _ => none

def settle (s : State ρ) (r : ρ) : Option (State ρ) :=
  if s.shut then some { s with pending := none, wanted := some r } else none

def step [DecidableEq ρ] (s : State ρ) : Action ρ → Option (State ρ)
  | .ask r force => some (ask s r force)
  | .take => take s
  | .begin => begin s
  | .finish ok => finish s ok
  | .note => note s
  | .shut => some { s with shut := true }
  | .settle r => settle s r

/-! ### What holds of every run -/

namespace State
variable (s : State ρ)

/-- Taken, and its service not begun. -/
def held : Option ρ :=
  match s.worker with
  | some (.taken r) => some r
  | _ => none

def inService : Option ρ :=
  match s.worker with
  | some (.serving r) => some r
  | _ => none

def busy : Bool :=
  match s.worker with
  | none | some .loop => false
  | _ => true

/-- Everything that was let in and not overtaken, in order. -/
def chain : List ρ := s.begun ++ s.held.toList ++ s.pending.toList

end State

/-- What is wanted once everything is done: what the last service did, or nothing after a
failure. -/
def Settled (s : State ρ) : Prop :=
  (s.ended = [] ∧ s.wanted = none) ∨
    ∃ r ok, s.ended.getLast? = some (r, ok) ∧ s.wanted = if ok then some r else none

structure Inv (s : State ρ) : Prop where
  order : s.chain.Sublist s.asked
  woken : s.pending ≠ none → s.worker ≠ none
  begun : s.begun = s.ended.map Prod.fst ++ s.inService.toList
  failed : ∀ r, s.worker = some (.failed r) → s.ended.getLast? = some (r, false)
  latest : s.shut = false → s.asked.getLast? = s.chain.getLast?
  wanted : s.shut = false → s.pending ≠ none ∨ s.busy = true → s.wanted = s.chain.getLast?
  settled : s.shut = false → s.pending = none → s.busy = false → Settled s

theorem inv_init : Inv (init : State ρ) where
  order := .refl _
  woken := fun h => absurd rfl h
  begun := rfl
  failed := fun _ h => nomatch h
  latest := fun _ => rfl
  wanted := fun _ _ => rfl
  settled := fun _ _ _ => .inl ⟨rfl, rfl⟩

section
variable {s s' : State ρ} {r : ρ}

theorem chain_of_idle (hp : s.pending = none) (hb : s.busy = false) : s.chain = s.begun := by
  have hheld : s.held = none := by
    unfold State.held
    split
    next r hw => simp [State.busy, hw] at hb
    next => rfl
  simp [State.chain, hp, hheld]

/-- What is wanted is the end of the chain, whether or not it has been served. -/
theorem Inv.last_of_wanted (h : Inv s) (hopen : s.shut = false) (hw : s.wanted = some r) :
    s.chain.getLast? = some r := by
  by_cases hbusy : s.pending ≠ none ∨ s.busy = true
  · rw [← h.wanted hopen hbusy, hw]
  · simp only [not_or, not_not, Bool.not_eq_true] at hbusy
    obtain ⟨hp, hb⟩ := hbusy
    rw [chain_of_idle hp hb, h.begun]
    have hservice : s.inService = none := by
      unfold State.inService
      split
      next r hr => simp [State.busy, hr] at hb
      next => rfl
    rcases h.settled hopen hp hb with ⟨-, hnone⟩ | ⟨q, ok, hlast, hwanted⟩
    · rw [hw] at hnone
      cases hnone
    · rw [hw] at hwanted
      cases ok with
      | false => cases hwanted
      | true =>
        obtain rfl := Option.some.inj hwanted
        simp [hservice, List.getLast?_map, hlast]

theorem Inv.suppressed (h : Inv s) {force : Bool} (hs : Suppressed s r force) :
    Inv { s with asked := s.asked ++ [r] } where
  order := h.order.trans (List.sublist_append_left _ _)
  woken := h.woken
  begun := h.begun
  failed := h.failed
  latest := fun hopen => by
    rw [List.getLast?_append_of_ne_nil _ (List.cons_ne_nil _ _)]
    exact (h.last_of_wanted hopen hs.1).symm
  wanted := h.wanted
  settled := h.settled

theorem Inv.admitted (h : Inv s) (r : ρ) :
    Inv { s with
      wanted := some r
      pending := some r
      worker := some (s.worker.getD .loop)
      asked := s.asked ++ [r] } := by
  have hheld : State.held { s with worker := some (s.worker.getD .loop) } = s.held := by
    unfold State.held
    cases s.worker <;> rfl
  have hservice :
      State.inService { s with worker := some (s.worker.getD .loop) } = s.inService := by
    unfold State.inService
    cases s.worker <;> rfl
  have hchain : (s.begun ++ s.held.toList).Sublist s.asked :=
    (List.sublist_append_left _ s.pending.toList).trans h.order
  refine ⟨?_, fun _ => Option.some_ne_none _, ?_, fun q hq => ?_, fun _ => ?_, fun _ _ => ?_,
    fun _ hnone => nomatch hnone⟩
  · rw [← hheld] at hchain
    exact hchain.append_right [r]
  · rw [show s.begun = _ from h.begun, ← hservice]
    rfl
  · cases hw : s.worker with
    | none =>
      rw [hw] at hq
      cases hq
    | some pc =>
      rw [hw] at hq
      exact h.failed q (hw.trans hq)
  · simp [State.chain]
  · simp [State.chain]

theorem Inv.ask [DecidableEq ρ] (h : Inv s) (r : ρ) (force : Bool) :
    Inv (Coalescing.ask s r force) := by
  unfold Coalescing.ask
  split
  next hs => exact h.suppressed hs
  next => exact h.admitted r

theorem Inv.take (h : Inv s) (hs : Coalescing.take s = some s') : Inv s' := by
  unfold Coalescing.take at hs
  split at hs
  next hw =>
    have hbusy : s.busy = false := by simp [State.busy, hw]
    have hheld : s.held = none := by simp [State.held, hw]
    have hservice : s.inService = none := by simp [State.inService, hw]
    split at hs <;> obtain rfl := Option.some.inj hs
    next r hp hopen =>
      have hchain : State.chain { s with pending := none, worker := some (.taken r) } = s.chain := by
        simp [State.chain, State.held, hw, hp]
      refine ⟨hchain ▸ h.order, fun hnone => absurd rfl hnone, ?_, fun _ hq => (nomatch hq),
        fun ho => hchain ▸ h.latest ho, fun ho _ => hchain ▸ h.wanted ho (.inl (by simp [hp])),
        fun _ _ hb => nomatch hb⟩
      simpa [State.inService, hw] using h.begun
    next hnot =>
      have hchain : State.chain { s with pending := none, worker := none } = s.begun := by
        simp [State.chain, State.held]
      have hpending : s.shut = false → s.pending = none := by
        intro hopen
        cases hp : s.pending with
        | none => rfl
        | some r => exact absurd hopen (by simpa using hnot r hp)
      refine ⟨?_, fun hnone => absurd rfl hnone, ?_, fun _ hq => (nomatch hq), fun hopen => ?_,
        fun _ hb => ?_, fun hopen _ _ => h.settled hopen (hpending hopen) hbusy⟩
      · rw [hchain]
        exact (List.sublist_append_left _ s.held.toList).trans
          ((List.sublist_append_left _ s.pending.toList).trans h.order)
      · simpa [State.inService, hw] using h.begun
      · rw [hchain, ← chain_of_idle (hpending hopen) hbusy]
        exact h.latest hopen
      · simp [State.busy] at hb
  next => cases hs

theorem Inv.begin (h : Inv s) (hs : Coalescing.begin s = some s') : Inv s' := by
  unfold Coalescing.begin at hs
  split at hs
  next r hw =>
    obtain rfl := Option.some.inj hs
    have hbusy : s.busy = true := by simp [State.busy, hw]
    have hchain : State.chain { s with worker := some (.serving r), begun := s.begun ++ [r] } =
        s.chain := by
      simp [State.chain, State.held, hw]
    refine ⟨hchain ▸ h.order, fun _ => Option.some_ne_none _, ?_, fun _ hq => (nomatch hq),
      fun hopen => hchain ▸ h.latest hopen, fun hopen _ => hchain ▸ h.wanted hopen (.inr hbusy),
      fun _ _ hb => (nomatch hb)⟩
    have hbegun := h.begun
    simp only [State.inService, hw, Option.toList_none, List.append_nil] at hbegun
    simp [State.inService, hbegun]
  next => cases hs

theorem Inv.finish (h : Inv s) {ok : Bool} (hs : Coalescing.finish s ok = some s') : Inv s' := by
  unfold Coalescing.finish at hs
  split at hs
  next r hw =>
    obtain rfl := Option.some.inj hs
    have hbusy : s.busy = true := by simp [State.busy, hw]
    have hbegun : s.begun = s.ended.map Prod.fst ++ [r] := by
      simpa [State.inService, hw] using h.begun
    have hchain : State.chain { s with
        worker := some (if ok then .loop else .failed r)
        ended := s.ended ++ [(r, ok)] } = s.chain := by
      cases ok <;> simp [State.chain, State.held, hw]
    refine ⟨hchain ▸ h.order, fun _ => Option.some_ne_none _, ?_, fun q hq => ?_,
      fun hopen => hchain ▸ h.latest hopen, fun hopen _ => hchain ▸ h.wanted hopen (.inr hbusy),
      fun hopen hp hb => ?_⟩
    · cases ok <;> simp [State.inService, hbegun]
    · cases ok with
      | false =>
        cases hq
        simp
      | true => cases hq
    · cases ok with
      | false => cases hb
      | true =>
        refine .inr ⟨r, true, by simp, ?_⟩
        change s.wanted = some r
        rw [h.wanted hopen (.inr hbusy), State.chain, show s.pending = none from hp, hbegun]
        simp [State.held, hw]
  next => cases hs

theorem Inv.note [DecidableEq ρ] (h : Inv s) (hs : Coalescing.note s = some s') : Inv s' := by
  unfold Coalescing.note at hs
  split at hs
  next r hw =>
    obtain rfl := Option.some.inj hs
    have hbusy : s.busy = true := by simp [State.busy, hw]
    have hservice : s.inService = none := by simp [State.inService, hw]
    have hlast := h.failed r hw
    have hchain : State.chain { s with
        worker := some .loop
        wanted := if s.wanted = some r ∧ s.pending = none then none else s.wanted } = s.chain := by
      simp [State.chain, State.held, hw]
    refine ⟨hchain ▸ h.order, fun _ => Option.some_ne_none _, ?_, fun _ hq => (nomatch hq),
      fun hopen => hchain ▸ h.latest hopen, fun hopen hp => ?_, fun hopen hp _ => ?_⟩
    · rw [h.begun, hservice]
      rfl
    · rcases hp with hp | hb
      · rw [hchain, ← h.wanted hopen (.inl hp)]
        exact if_neg fun hreset => hp hreset.2
      · cases hb
    · -- nothing newer has come, so the failed request is what is wanted
      have hwanted : s.wanted = some r := by
        rw [h.wanted hopen (.inr hbusy), State.chain, show s.pending = none from hp, h.begun]
        simp [State.held, hw, hservice, hlast]
      exact .inr ⟨r, false, hlast, if_pos ⟨hwanted, hp⟩⟩
  next => cases hs

theorem Inv.shut (h : Inv s) : Inv { s with shut := true } :=
  ⟨h.order, h.woken, h.begun, h.failed, nofun, nofun, nofun⟩

theorem Inv.settle (h : Inv s) (hs : Coalescing.settle s r = some s') : Inv s' := by
  unfold Coalescing.settle at hs
  split at hs
  next hshut =>
    obtain rfl := Option.some.inj hs
    refine ⟨?_, fun hp => absurd rfl hp, h.begun, h.failed, ?_, ?_, ?_⟩
    · rw [State.chain, Option.toList_none, List.append_nil]
      exact (List.sublist_append_left _ s.pending.toList).trans h.order
    all_goals
      intro hopen
      rw [show s.shut = false from hopen] at hshut
      cases hshut
  next => cases hs

theorem Inv.step [DecidableEq ρ] (h : Inv s) {a : Action ρ} (hs : step s a = some s') :
    Inv s' := by
  cases a with
  | ask r force => exact Option.some.inj hs ▸ h.ask r force
  | take => exact h.take hs
  | begin => exact h.begin hs
  | finish ok => exact h.finish hs
  | note => exact h.note hs
  | shut => exact Option.some.inj hs ▸ h.shut
  | settle r => exact h.settle hs

theorem reach_inv [DecidableEq ρ] (h : Reach step Any init s) : Inv s :=
  h.invariant (P := Inv) inv_init fun _ _ _ hi _ hs => hi.step hs

end

/-! ### After the shutting -/

section
variable [DecidableEq ρ] {s s' : State ρ} {a : Action ρ}

end

end Coalescing
