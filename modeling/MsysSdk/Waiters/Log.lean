import Mathlib.Data.List.Basic
import Mathlib.Data.List.Nodup
import Mathlib.Tactic.Common

/-! A log of what a connection delivered. Its entries are numbered from one; `parse` makes a
record of an entry, and `answers` gives the id of the request that a record replies to. -/

namespace Waiters
variable {ρ μ : Type*} {parse : ρ → Option μ} {answers : μ → Option Int} {log more : List ρ}
  {r : ρ} {n k : Nat} {m : μ} {i : Int}

def recordAt (parse : ρ → Option μ) (log : List ρ) : Nat → Option μ
  | 0 => none
  | k + 1 => log[k]?.bind parse

theorem recordAt_bound (h : recordAt parse log n = some m) : 1 ≤ n ∧ n ≤ log.length := by
  cases n with
  | zero => cases h
  | succ k =>
    obtain ⟨r, hr, -⟩ := Option.bind_eq_some_iff.mp h
    obtain ⟨hk, -⟩ := List.getElem?_eq_some_iff.mp hr
    omega

theorem recordAt_mem (h : recordAt parse log n = some m) : ∃ r ∈ log, parse r = some m := by
  cases n with
  | zero => cases h
  | succ k =>
    obtain ⟨r, hr, hm⟩ := Option.bind_eq_some_iff.mp h
    exact ⟨r, List.mem_of_getElem? hr, hm⟩

theorem recordAt_append (h : n ≤ log.length) :
    recordAt parse (log ++ more) n = recordAt parse log n := by
  cases n with
  | zero => rfl
  | succ k => rw [recordAt, recordAt, List.getElem?_append_left h]

@[simp] theorem recordAt_last : recordAt parse (log ++ [r]) (log.length + 1) = parse r := by
  simp [recordAt]

theorem recordAt_snoc (h : recordAt parse (log ++ [r]) n = some m) :
    recordAt parse log n = some m ∨ n = log.length + 1 ∧ parse r = some m := by
  rcases Nat.lt_or_ge log.length n with hlt | hle
  · have hb := (recordAt_bound h).2
    obtain rfl : n = log.length + 1 := by
      simp only [List.length_append, List.length_singleton] at hb
      omega
    exact .inr ⟨rfl, by rwa [recordAt_last] at h⟩
  · exact .inl (by rwa [recordAt_append hle] at h)

/-! ### At most one reply for an id -/

/-- The id of the request that an entry answers. -/
def entryId (parse : ρ → Option μ) (answers : μ → Option Int) (r : ρ) : Option Int :=
  (parse r).bind answers

/-- No id is answered twice. -/
def Once (parse : ρ → Option μ) (answers : μ → Option Int) (log : List ρ) : Prop :=
  log.Pairwise fun q r => ∀ i, entryId parse answers q = some i → entryId parse answers r ≠ some i

theorem Once.append (h : Once parse answers log)
    (hr : ∀ i, entryId parse answers r = some i → ∀ q ∈ log, entryId parse answers q ≠ some i) :
    Once parse answers (log ++ [r]) := by
  refine List.pairwise_append.mpr ⟨h, List.pairwise_singleton _ _, fun q hq r' hr' i hi hi' => ?_⟩
  rw [List.mem_singleton.mp hr'] at hi'
  exact hr i hi' q hq hi

/-- A new entry that answers what was asked for and not answered before. -/
theorem Once.answered {asked asked' : Int → Prop} (h : Once parse answers log)
    (hlog : ∀ q ∈ log, ∀ i, entryId parse answers q = some i → asked i)
    (hasked : ∀ i, asked i → asked' i)
    (hr : ∀ i, entryId parse answers r = some i →
      asked i ∧ ∀ q ∈ log, entryId parse answers q ≠ some i) :
    Once parse answers (log ++ [r]) ∧
      ∀ q ∈ log ++ [r], ∀ i, entryId parse answers q = some i → asked' i := by
  refine ⟨h.append fun i hi => (hr i hi).2, fun q hq i hi => hasked i ?_⟩
  rcases List.mem_append.mp hq with hq | hq
  · exact hlog q hq i hi
  · rw [List.mem_singleton.mp hq] at hi
    exact (hr i hi).1

theorem Once.same {n' : Nat} {m' : μ} (h : Once parse answers log)
    (hn : recordAt parse log n = some m) (hn' : recordAt parse log n' = some m')
    (hm : answers m = some i) (hm' : answers m' = some i) : n = n' := by
  have key : ∀ j k : Nat, ∀ x y : μ, recordAt parse log j = some x → recordAt parse log k = some y →
      answers x = some i → answers y = some i → ¬j < k := by
    intro j k x y hj hk hx hy hlt
    obtain ⟨j, rfl⟩ := Nat.exists_eq_succ_of_ne_zero (Nat.pos_iff_ne_zero.mp (recordAt_bound hj).1)
    obtain ⟨k, rfl⟩ := Nat.exists_eq_succ_of_ne_zero (Nat.pos_iff_ne_zero.mp (recordAt_bound hk).1)
    obtain ⟨q, hq, hqx⟩ := Option.bind_eq_some_iff.mp hj
    obtain ⟨r, hr, hry⟩ := Option.bind_eq_some_iff.mp hk
    obtain ⟨hjl, rfl⟩ := List.getElem?_eq_some_iff.mp hq
    obtain ⟨hkl, rfl⟩ := List.getElem?_eq_some_iff.mp hr
    exact List.pairwise_iff_getElem.mp h j k hjl hkl (by omega) i (by simp [entryId, hqx, hx])
      (by simp [entryId, hry, hy])
  have h₁ := key n n' m m' hn hn' hm hm'
  have h₂ := key n' n m' m hn' hn hm' hm
  omega

/-! ### What has become of the records -/

/-- The numbered records that a reader has placed and the one it has in hand, those of replies
as they stand in the log. No number occurs twice, and no reply is missing. -/
structure Seen (parse : ρ → Option μ) (answers : μ → Option Int) (log : List ρ)
    (placed : List (Nat × μ)) (hand : Option (Nat × μ)) : Prop where
  nodup : ((placed ++ hand.toList).map Prod.fst).Nodup
  bound : ∀ p ∈ placed ++ hand.toList, p.1 ≤ log.length
  recorded : ∀ n m i, (n, m) ∈ placed ++ hand.toList → answers m = some i →
    recordAt parse log n = some m
  complete : ∀ n m i, recordAt parse log n = some m → answers m = some i →
    (n, m) ∈ placed ++ hand.toList

theorem Seen.nil : Seen parse answers [] [] none :=
  ⟨List.nodup_nil, by simp, by simp, fun n m i hn => by cases n <;> simp [recordAt] at hn⟩

variable {placed : List (Nat × μ)} {hand : Option (Nat × μ)}

theorem Seen.placed_nodup (h : Seen parse answers log placed hand) :
    (placed.map Prod.fst).Nodup := by
  have := h.nodup
  rw [List.map_append, List.nodup_append] at this
  exact this.1

/-- What is in hand has not been placed. -/
theorem Seen.hand_new (h : Seen parse answers log placed hand) (hh : hand = some (n, m)) {m' : μ} :
    (n, m') ∉ placed := by
  intro hm
  have := h.nodup
  rw [hh, List.map_append, List.nodup_append] at this
  exact this.2.2 n (List.mem_map.mpr ⟨_, hm, rfl⟩) n (by simp) rfl

/-- An entry that is no reply, and of which no record is made. -/
theorem Seen.skip (h : Seen parse answers log placed hand) (hh : hand = none)
    (hr : entryId parse answers r = none) : Seen parse answers (log ++ [r]) placed none := by
  subst hh
  refine ⟨h.nodup, fun p hp => ?_, fun n m i hp hm => ?_, fun n m i hn hm => ?_⟩
  · have := h.bound p hp
    simp only [List.length_append, List.length_singleton]
    omega
  · rw [recordAt_append (h.bound _ hp)]
    exact h.recorded n m i hp hm
  · rcases recordAt_snoc hn with hn | ⟨-, hn⟩
    · exact h.complete n m i hn hm
    · simp [entryId, hn, hm] at hr

/-- The record of an entry is taken in hand. -/
theorem Seen.read (h : Seen parse answers log placed hand) (hh : hand = none)
    (hm : ∀ i, answers m = some i → parse r = some m)
    (hr : ∀ i, entryId parse answers r = some i → parse r = some m) :
    Seen parse answers (log ++ [r]) placed (some (log.length + 1, m)) := by
  subst hh
  have hseen : placed ++ Option.toList none = placed := List.append_nil placed
  constructor
  · rw [List.map_append, List.nodup_append]
    refine ⟨h.placed_nodup, by simp, fun a ha b hb => ?_⟩
    obtain ⟨p, hp, rfl⟩ := List.mem_map.mp ha
    have := h.bound p (List.mem_append_left _ hp)
    simp only [Option.toList_some, List.map_cons, List.map_nil, List.mem_singleton] at hb
    omega
  · intro p hp
    simp only [List.length_append, List.length_singleton]
    rcases List.mem_append.mp hp with hp | hp
    · have := h.bound p (List.mem_append_left _ hp)
      omega
    · obtain rfl := List.mem_singleton.mp hp
      exact Nat.le_refl _
  · intro n m' i hp hi
    rcases List.mem_append.mp hp with hp | hp
    · have hp := List.mem_append_left (Option.toList none) hp
      rw [recordAt_append (h.bound _ hp)]
      exact h.recorded n m' i hp hi
    · obtain ⟨rfl, rfl⟩ := Prod.mk.inj (List.mem_singleton.mp hp)
      rw [recordAt_last]
      exact hm i hi
  · intro n m' i hn hi
    rcases recordAt_snoc hn with hn | ⟨rfl, hp⟩
    · exact List.mem_append_left _ (hseen ▸ h.complete n m' i hn hi)
    · obtain rfl : m = m' := Option.some.inj ((hr i (by simp [entryId, hp, hi])).symm.trans hp)
      exact List.mem_append_right _ (List.mem_singleton_self _)

/-- The record in hand is let go, when it is no reply. -/
theorem Seen.drop (h : Seen parse answers log placed hand) (hh : hand = some (n, m))
    (hm : answers m = none) : Seen parse answers log placed none := by
  subst hh
  have hsub : ∀ p ∈ placed ++ Option.toList none, p ∈ placed ++ (some (n, m)).toList := by simp_all
  refine ⟨by simpa using h.placed_nodup, fun p hp => h.bound p (hsub p hp),
    fun n' m' i hp => h.recorded n' m' i (hsub _ hp), fun n' m' i hn hi => ?_⟩
  rcases List.mem_append.mp (h.complete n' m' i hn hi) with hp | hp
  · exact List.mem_append_left _ hp
  · obtain ⟨-, rfl⟩ := Prod.mk.inj (List.mem_singleton.mp hp)
    simp [hm] at hi

/-- The record in hand is placed. -/
theorem Seen.place (h : Seen parse answers log placed hand) (hh : hand = some (n, m)) :
    Seen parse answers log (placed ++ [(n, m)]) none := by
  subst hh
  have hseen : placed ++ [(n, m)] ++ Option.toList none = placed ++ (some (n, m)).toList := by simp
  constructor <;> rw [hseen]
  · exact h.nodup
  · exact h.bound
  · exact h.recorded
  · exact h.complete

end Waiters
