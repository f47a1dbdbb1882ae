import Mathlib.Data.List.Infix
import Mathlib.Data.List.Induction
import Mathlib.Tactic.Common

/-! Lists joined by a separator. -/

namespace Joined
variable {α : Type*}

theorem intercalate_cons (sep l : List α) (ls : List (List α)) :
    sep.intercalate (l :: ls) = l ++ ls.flatMap (sep ++ ·) := by
  induction ls generalizing l with
  | nil => simp
  | cons m ls ih =>
    rw [List.intercalate_cons_cons, ih, List.flatMap_cons]
    simp

theorem intercalate_singleton (a : α) (l : List α) (ls : List (List α)) :
    [a].intercalate (l :: ls) = l ++ ls.flatMap (a :: ·) := intercalate_cons [a] l ls

/-- An empty last item leaves a separator after each of the others. -/
theorem intercalate_concat_nil (sep : List α) (ls : List (List α)) :
    sep.intercalate (ls ++ [[]]) = ls.flatMap (· ++ sep) := by
  induction ls with
  | nil => simp
  | cons l ls ih =>
    obtain ⟨m, ms, hm⟩ := List.exists_cons_of_ne_nil (List.concat_ne_nil [] ls)
    rw [List.cons_append, hm, List.intercalate_cons_cons, ← hm, ih, List.flatMap_cons]

theorem intercalate_concat (sep l : List α) {ls : List (List α)} (h : ls ≠ []) :
    sep.intercalate (ls ++ [l]) = sep.intercalate ls ++ (sep ++ l) := by
  obtain ⟨m, ms, rfl⟩ := List.exists_cons_of_ne_nil h
  rw [List.cons_append, intercalate_cons, intercalate_cons, List.flatMap_append,
    List.flatMap_singleton, List.append_assoc]

/-! ### Beginnings -/

/-- The joined beginnings of a sequence, longest first. -/
def beginnings (sep : List α) (ls : List (List α)) : List (List α) :=
  ls.inits.tail.reverse.map sep.intercalate

theorem beginnings_concat (sep l : List α) (ls : List (List α)) :
    beginnings sep (ls ++ [l]) = sep.intercalate (ls ++ [l]) :: beginnings sep ls := by
  have hne : ls.inits ≠ [] := by
    apply List.ne_nil_of_length_pos
    rw [List.length_inits]
    exact Nat.succ_pos _
  have hinits : (ls ++ [l]).inits = ls.inits ++ [ls ++ [l]] := by simp [List.inits_append]
  rw [beginnings, hinits, List.tail_append_of_ne_nil hne, List.reverse_concat, List.map_cons,
    ← beginnings]

theorem head_beginnings (sep : List α) {ls : List (List α)} (h : ls ≠ []) :
    (beginnings sep ls).head? = some (sep.intercalate ls) := by
  obtain ⟨init, l, rfl⟩ := List.eq_nil_or_concat' ls |>.resolve_left h
  rw [beginnings_concat, List.head?_cons]

theorem length_beginnings (sep : List α) (ls : List (List α)) :
    ∀ b ∈ beginnings sep ls, b.length ≤ (sep.intercalate ls).length := by
  induction ls using List.reverseRecOn with
  | nil => exact List.forall_mem_nil _
  | append_singleton ls l ih =>
    rw [beginnings_concat]
    refine List.forall_mem_cons.mpr ⟨le_rfl, fun b hb => (ih b hb).trans ?_⟩
    by_cases hls : ls = []
    · rw [hls]
      exact Nat.zero_le _
    · rw [intercalate_concat sep l hls, List.length_append]
      exact Nat.le_add_right _ _

/-- Each beginning is longer than the next one. -/
theorem nodup_beginnings {sep : List α} (hsep : sep ≠ []) (ls : List (List α)) :
    (beginnings sep ls).Nodup := by
  induction ls using List.reverseRecOn with
  | nil => exact List.nodup_nil
  | append_singleton ls l ih =>
    rw [beginnings_concat]
    refine List.nodup_cons.mpr ⟨fun hmem => ?_, ih⟩
    by_cases hls : ls = []
    · rw [hls] at hmem
      cases hmem
    · have hlen := length_beginnings sep ls _ hmem
      have hpos := List.length_pos_of_ne_nil hsep
      rw [intercalate_concat sep l hls, List.length_append, List.length_append] at hlen
      omega

theorem getLast_beginnings (sep l : List α) (ls : List (List α)) :
    (beginnings sep (l :: ls)).getLast? = some l := by
  induction ls using List.reverseRecOn with
  | nil => simp [beginnings]
  | append_singleton ls m ih =>
    rw [← List.cons_append, beginnings_concat, List.getLast?_cons, ih]
    rfl

/-- Only the first item is a beginning without a separator. -/
theorem eq_of_mem_beginnings {a : α} {l b : List α} {ls : List (List α)}
    (h : b ∈ beginnings [a] (l :: ls)) (hb : a ∉ b) : b = l := by
  induction ls using List.reverseRecOn with
  | nil => simpa [beginnings] using h
  | append_singleton ls m ih =>
    rw [← List.cons_append, beginnings_concat] at h
    rcases List.mem_cons.mp h with rfl | h
    · rw [intercalate_concat [a] m (List.cons_ne_nil l ls)] at hb
      exact absurd (by simp) hb
    · exact ih h

end Joined
