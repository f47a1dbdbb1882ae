import Mathlib.Data.List.Nodup
import Mathlib.Tactic.Common

/-! Tables of one and of two levels, as lists of entries in their order. -/

namespace Tables

variable {α β γ δ : Type*} [BEq α] [LawfulBEq α] [BEq γ] [LawfulBEq γ]

theorem mem_of_lookup {l : List (α × β)} {k : α} {v : β} (h : l.lookup k = some v) :
    (k, v) ∈ l := by
  obtain ⟨l₁, l₂, rfl, -⟩ := List.lookup_eq_some_iff.mp h
  simp

theorem lookup_of_mem {l : List (α × β)} (hl : (l.map Prod.fst).Nodup) {e : α × β} (he : e ∈ l) :
    l.lookup e.1 = some e.2 := by
  obtain ⟨l₁, l₂, rfl⟩ := List.append_of_mem he
  refine List.lookup_eq_some_iff.mpr ⟨l₁, l₂, rfl, fun p hp => ?_⟩
  rw [List.map_append, List.nodup_append] at hl
  have hne := hl.2.2 p.1 (List.mem_map_of_mem hp) e.1 (by simp)
  simpa using hne.symm

/-- A table whose keys and values are encoded. -/
theorem lookup_map {f : α → γ} (hf : Function.Injective f) (g : β → δ) (l : List (α × β)) (k : α) :
    (l.map fun e => (f e.1, g e.2)).lookup (f k) = (l.lookup k).map g := by
  induction l with
  | nil => rfl
  | cons e l ih =>
    obtain ⟨a, b⟩ := e
    have hsame : (f k == f a) = (k == a) := by
      rw [Bool.eq_iff_iff, beq_iff_eq, beq_iff_eq, hf.eq_iff]
    rw [List.map_cons, List.lookup_cons, List.lookup_cons, hsame, ih]
    cases k == a <;> rfl

/-! ### Two levels -/

/-- The rows of a table of tables. -/
def rows (t : List (α × List (γ × β))) : List (α × γ × β) :=
  t.flatMap fun e => e.2.map fun m => (e.1, m.1, m.2)

omit [BEq α] [LawfulBEq α] in
theorem find?_row (m : List (γ × β)) (a : α) (k : γ) :
    (m.map fun e => (a, e.1, e.2)).find? (fun r => r.2.1 == k) = (m.lookup k).map (a, k, ·) := by
  induction m with
  | nil => rfl
  | cons e m ih =>
    obtain ⟨l, v⟩ := e
    rw [List.map_cons, List.find?_cons, ih, List.lookup_cons, BEq.comm]
    cases hk : k == l with
    | true => rw [beq_iff_eq.mp hk]; rfl
    | false => rfl

/-- A scan of the rows finds what the two lookups find. -/
theorem find?_rows {t : List (α × List (γ × β))} (ht : (t.map Prod.fst).Nodup) (a : α) (k : γ) :
    (rows t).find? (fun r => r.1 == a && r.2.1 == k) =
      ((t.lookup a).bind (·.lookup k)).map (a, k, ·) := by
  induction t with
  | nil => rfl
  | cons e t ih =>
    obtain ⟨b, m⟩ := e
    obtain ⟨hb, ht⟩ := List.nodup_cons.mp ht
    have hrows : rows ((b, m) :: t) = (m.map fun e => (b, e.1, e.2)) ++ rows t := rfl
    rw [hrows, List.find?_append, ih ht, List.find?_map]
    by_cases hab : b = a
    · subst hab
      have hnone : t.lookup b = none := List.lookup_eq_none_iff.mpr fun p hp => by
        rw [bne_iff_ne]
        intro hpb
        have hmem : p.1 ∈ t.map Prod.fst := List.mem_map_of_mem hp
        exact hb (hpb ▸ hmem)
      have hrow := find?_row m b k
      rw [List.find?_map] at hrow
      simp only [Function.comp_def, beq_self_eq_true, Bool.true_and, List.lookup_cons, hnone,
        Option.bind_none, Option.map_none, Option.or_none, Option.bind_some] at hrow ⊢
      exact hrow
    · have hba : (a == b) = false := by simpa using Ne.symm hab
      have hskip : (b == a) = false := by simpa using hab
      have hnone : (m.find? fun _ => false) = none := by simp
      simp only [Function.comp_def, hskip, Bool.false_and, hnone, Option.map_none, Option.none_or,
        List.lookup_cons, hba]

end Tables
