import MsysSdk.Coalescing.Slot
import Mathlib.Logic.Function.Basic

/-! Threads, each with what it is doing, of which at most one does anything at all. -/

namespace Coalescing
variable {φ : Type*} {work work' : ℕ → Option φ} {p q : Option φ} {k : ℕ}

/-- What the one thread that is at work does, if there is one. -/
def Sole (work : ℕ → Option φ) : Option φ → Prop
  | none => ∀ k, work k = none
  | some x => ∃ k, work k = some x ∧ ∀ j, j ≠ k → work j = none

theorem Sole.idle (h : Sole work p) (hk : (work k).isSome = true) {j : ℕ} (hj : j ≠ k) :
    work j = none := by
  cases p with
  | none =>
    rw [h k] at hk
    cases hk
  | some x =>
    obtain ⟨l, -, hothers⟩ := h
    obtain rfl : k = l := by
      by_contra hne
      rw [hothers k hne] at hk
      cases hk
    exact hothers j hj

theorem Sole.eq (h : Sole work p) (hk : (work k).isSome = true) : p = work k := by
  cases p with
  | none =>
    rw [h k] at hk
    cases hk
  | some x =>
    obtain ⟨l, hl, hothers⟩ := h
    obtain rfl : k = l := by
      by_contra hne
      rw [hothers k hne] at hk
      cases hk
    exact hl.symm

theorem sole_of_idle (hothers : ∀ j, j ≠ k → work j = none) : Sole work (work k) := by
  cases hk : work k with
  | none =>
    intro j
    rcases eq_or_ne j k with rfl | hj
    · exact hk
    · exact hothers j hj
  | some x => exact ⟨k, hk, hothers⟩

/-- The thread that is at work goes on, or stops. -/
theorem Sole.move (h : Sole work p) (hk : (work k).isSome = true)
    (hothers : ∀ j, j ≠ k → work' j = work j) : Sole work' (work' k) :=
  sole_of_idle fun j hj => (hothers j hj).trans (h.idle hk hj)

theorem Sole.start (h : Sole work none) (hothers : ∀ j, j ≠ k → work' j = work j) :
    Sole work' (work' k) :=
  sole_of_idle fun j hj => (hothers j hj).trans (h j)

theorem Sole.unique (h : Sole work p) {j : ℕ} (hj : (work j).isSome = true)
    (hk : (work k).isSome = true) : j = k := by
  by_contra hne
  rw [h.idle hk hne] at hj
  cases hj

end Coalescing
