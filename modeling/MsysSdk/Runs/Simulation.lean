import MsysSdk.Runs.Transition

/-! Forward simulation: each step of one system is matched by a run of the other. -/

namespace Transition
variable {σ α τ β : Type*} {step : σ → α → Option σ} {ok : σ → α → Prop} {s₀ s : σ}
  {step' : τ → β → Option τ} {t₀ : τ}

theorem run_append {as bs : List α} {s t u : σ} (h : run step s as = some t)
    (h' : run step t bs = some u) : run step s (as ++ bs) = some u := by
  induction as generalizing s with
  | nil =>
    simp only [run, Option.some.injEq] at h
    exact h ▸ h'
  | cons a as ih =>
    simp only [run, Option.bind_eq_some_iff] at h
    obtain ⟨v, hv, hrest⟩ := h
    simp only [List.cons_append, run, hv, Option.bind_some]
    exact ih hrest

/-- Whatever `R` says of matching states holds of a state reached and one that the other system
reaches. -/
theorem Reach.simulate {R : σ → τ → Prop} (h : Reach step ok s₀ s) (h₀ : R s₀ t₀)
    (hstep : ∀ s a s' t, Reach step ok s₀ s → R s t → ok s a → step s a = some s' →
      ∃ bs t', run step' t bs = some t' ∧ R s' t') :
    ∃ t, Reach step' Any t₀ t ∧ R s t := by
  induction h with
  | start => exact ⟨t₀, .start, h₀⟩
  | next hr hok hs ih =>
    obtain ⟨t, ht, hR⟩ := ih
    obtain ⟨bs, t', hbs, hR'⟩ := hstep _ _ _ t hr hR hok hs
    exact ⟨t', ht.trans (.of_run hbs), hR'⟩

end Transition
