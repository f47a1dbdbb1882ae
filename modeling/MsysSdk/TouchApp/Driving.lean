import MsysSdk.TouchApp.Worker
import MsysSdk.TouchApp.FocusCheck

/-! What the application makes of the requests of its handlers. -/

namespace Msys.TouchApp
open Python Transition
open InputMethod (Request RoleCall)
open Coalescing (Phase Sole)

variable {cfg : Config} {s s' : State} {a : Action} {t : Coalescing.State Request}

def WorkerPc.live : WorkerPc → Bool
  | .absent | .ended => false
  | _ => true

theorem WorkerPc.isSome_phase (pc : WorkerPc) : pc.phase.isSome = pc.live := by
  cases pc <;> rfl

/-- `r` is what a worker has taken and not yet called. -/
def Held (s : State) (r : Request) : Prop := ∃ w, s.worker w = .taken r

/-- The settled state: the last call was for the last request, and what is desired is what it did,
or nothing where it failed. -/
def Settled (s : State) : Prop :=
  (s.asked = [] ∧ s.called = [] ∧ s.desired = none) ∨
    ∃ r ok, s.asked.getLast? = some r ∧ s.called.getLast? = some r ∧
      s.finished.getLast? = some (r, ok) ∧ s.desired = if ok then some r else none

theorem Checking.outstanding (h : Checking s) :
    s.checks.length ≤ 1 ∧ ∀ i ∈ s.checks, s.inputFocusCheck = some i := by
  by_cases hfiring : s.agenda = [.check]
  · have hnone : s.checks = [] := (h.firing hfiring).checks
    rw [hnone]
    exact ⟨Nat.zero_le 1, fun i hi => (nomatch hi)⟩
  · rw [(h.clock hfiring).checks]
    exact ⟨Option.length_toList_le, fun i hi => Option.mem_toList.mp hi⟩

theorem Checking.cancelled (h : Checking s) (hclosed : s.closed = true) :
    s.inputFocusCheck = none ∧ s.checks = [] := by
  have hnone := h.closed hclosed
  refine ⟨hnone, List.eq_nil_iff_forall_not_mem.mpr fun i hi => ?_⟩
  have hi' := h.outstanding.2 i hi
  rw [hnone] at hi'
  cases hi'

def plainConfig : Config := ⟨.ascii, .descriptor, fun _ => []⟩

def editor : Widget := .child .root 0

end Msys.TouchApp
