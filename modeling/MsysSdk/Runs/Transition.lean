import Mathlib.Tactic.Common

/-! Runs of a partial step function under a restriction on the steps taken.
Interleavings of several parties are runs whose actions name the party that moves. -/

namespace Transition
variable {σ α : Type*} {step : σ → α → Option σ} {ok ok' : σ → α → Prop} {s₀ s s' : σ}

/-- The states reached from `s₀` by steps that all satisfy `ok` where they are taken. -/
inductive Reach (step : σ → α → Option σ) (ok : σ → α → Prop) (s₀ : σ) : σ → Prop
  | start : Reach step ok s₀ s₀
  | next {s s' : σ} {a : α} :
      Reach step ok s₀ s → ok s a → step s a = some s' → Reach step ok s₀ s'

/-- No restriction on the steps. -/
def Any : σ → α → Prop := fun _ _ => True

theorem Reach.invariant {P : σ → Prop} (h : Reach step ok s₀ s) (h₀ : P s₀)
    (hs : ∀ s a s', P s → ok s a → step s a = some s' → P s') : P s := by
  induction h with
  | start => exact h₀
  | next _ hok hstep ih => exact hs _ _ _ ih hok hstep

/-- An invariant proved with the help of another one that is already known. -/
theorem Reach.invariant_of {P Q : σ → Prop} (h : Reach step ok s₀ s)
    (hQ : ∀ s, Reach step ok s₀ s → Q s) (h₀ : P s₀)
    (hs : ∀ s a s', Q s → P s → ok s a → step s a = some s' → P s') : P s := by
  induction h with
  | start => exact h₀
  | next hr hok hstep ih => exact hs _ _ _ (hQ _ hr) ih hok hstep

theorem Reach.mono (h : Reach step ok s₀ s) (hle : ∀ s a, ok s a → ok' s a) :
    Reach step ok' s₀ s := by
  induction h with
  | start => exact .start
  | next _ hok hstep ih => exact .next ih (hle _ _ hok) hstep

theorem Reach.any (h : Reach step ok s₀ s) : Reach step Any s₀ s :=
  h.mono fun _ _ _ => trivial

theorem Reach.trans (h : Reach step ok s₀ s) (h' : Reach step ok s s') :
    Reach step ok s₀ s' := by
  induction h' with
  | start => exact h
  | next _ hok hstep ih => exact .next ih hok hstep

/-- Take the actions of a list in order. -/
def run (step : σ → α → Option σ) : σ → List α → Option σ
  | s, [] => some s
  | s, a :: as => (step s a).bind (run step · as)

theorem Reach.of_run {as : List α} (h : run step s as = some s') : Reach step Any s s' := by
  induction as generalizing s with
  | nil =>
    simp only [run, Option.some.injEq] at h
    exact h ▸ .start
  | cons a as ih =>
    simp only [run, Option.bind_eq_some_iff] at h
    obtain ⟨t, ht, hrest⟩ := h
    exact (Reach.next .start trivial ht).trans (ih hrest)

/-- Actions that may be taken anywhere. -/
theorem Reach.follow {as : List α} (h : Reach step ok s₀ s) (hrun : run step s as = some s')
    (hok : ∀ a ∈ as, ∀ t, ok t a) : Reach step ok s₀ s' := by
  induction as generalizing s with
  | nil =>
    simp only [run, Option.some.injEq] at hrun
    exact hrun ▸ h
  | cons a as ih =>
    simp only [run, Option.bind_eq_some_iff] at hrun
    obtain ⟨t, ht, hrest⟩ := hrun
    exact ih (h.next (hok a List.mem_cons_self s) ht) hrest
      fun b hb => hok b (List.mem_cons_of_mem a hb)

/-- The same, refusing an action where the restriction does not hold. -/
def runWhere (step : σ → α → Option σ) (ok : σ → α → Prop) [∀ s a, Decidable (ok s a)] :
    σ → List α → Option σ
  | s, [] => some s
  | s, a :: as => if ok s a then (step s a).bind (runWhere step ok · as) else none

theorem Reach.of_runWhere [∀ s a, Decidable (ok s a)] {as : List α}
    (h : runWhere step ok s as = some s') : Reach step ok s s' := by
  induction as generalizing s with
  | nil =>
    simp only [runWhere, Option.some.injEq] at h
    exact h ▸ .start
  | cons a as ih =>
    simp only [runWhere] at h
    split at h
    next hok =>
      obtain ⟨t, ht, hrest⟩ := Option.bind_eq_some_iff.mp h
      exact (Reach.next .start hok ht).trans (ih hrest)
    next => cases h

end Transition
