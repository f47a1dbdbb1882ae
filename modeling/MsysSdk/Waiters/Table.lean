import Mathlib.Data.List.AList
import Mathlib.Logic.Function.Basic
import Mathlib.Tactic.Common

/-! A table of requests that wait for a reply: every requester has a program counter `pc c`
and a one-slot queue, and a map lists the requesters by the id of their request. A `view`
of the program counter tells what an invariant needs of it. -/

namespace Waiters
variable {κ π ι : Type*} [DecidableEq κ] {view : π → Option Int} {pc : κ → π} {c : κ} {p : π}

theorem update_view {α : Type*} {f : π → α} (h : f p = f (pc c)) (d : κ) :
    f (Function.update pc c p d) = f (pc d) := by
  rcases eq_or_ne d c with rfl | hne
  · rw [Function.update_self, h]
  · rw [Function.update_of_ne hne]

/-- What a program counter has once shown it still shows. -/
theorem update_mono {d : κ} {i : Int} (h : view (pc d) = some i)
    (hp : view (pc c) = some i → view p = some i) : view (Function.update pc c p d) = some i := by
  rcases eq_or_ne d c with rfl | hne
  · rw [Function.update_self]
    exact hp h
  · rwa [Function.update_of_ne hne]

/-! ### Request ids -/

structure Ids (view : π → Option Int) (pc : κ → π) (next : Int) : Prop where
  bound : ∀ c i, view (pc c) = some i → i < next
  inj : ∀ c d i, view (pc c) = some i → view (pc d) = some i → c = d

theorem Ids.update {n : Int} (h : Ids view pc n) (hv : view p = view (pc c)) :
    Ids view (Function.update pc c p) n :=
  ⟨fun d i hd => h.bound d i (update_view hv d ▸ hd),
    fun d e i hd he => h.inj d e i (update_view hv d ▸ hd) (update_view hv e ▸ he)⟩

theorem Ids.register {n : Int} (h : Ids view pc n) (hv : view p = some n) :
    Ids view (Function.update pc c p) (n + 1) := by
  have key : ∀ d i, view (Function.update pc c p d) = some i →
      d = c ∧ i = n ∨ d ≠ c ∧ view (pc d) = some i := by
    intro d i hd
    rcases eq_or_ne d c with rfl | hne
    · rw [Function.update_self, hv] at hd
      exact .inl ⟨rfl, (Option.some.inj hd).symm⟩
    · rw [Function.update_of_ne hne] at hd
      exact .inr ⟨hne, hd⟩
  constructor
  · intro d i hd
    rcases key d i hd with ⟨-, rfl⟩ | ⟨-, hd⟩
    · omega
    · have := h.bound d i hd
      omega
  · intro d e i hd he
    rcases key d i hd with ⟨hdc, hdi⟩ | ⟨-, hd⟩ <;> rcases key e i he with ⟨hec, hei⟩ | ⟨-, he⟩
    · rw [hdc, hec]
    · have := h.bound e i he
      omega
    · have := h.bound d i hd
      omega
    · exact h.inj d e i hd he

/-! ### The map -/

abbrev Pending (κ : Type*) := AList fun _ : Int => κ

/-- Take an entry off the map if it is still the requester's own. -/
def remove (pending : Pending κ) (i : Int) (c : κ) : Pending κ :=
  if pending.lookup i = some c then pending.erase i else pending

/-- Who is on the map, in the order of registration. -/
def listed (pending : Pending κ) : List κ := (pending.entries.map Sigma.snd).reverse

variable {pending : Pending κ}

omit [DecidableEq κ] in
theorem mem_listed : c ∈ listed pending ↔ ∃ i, pending.lookup i = some c := by
  simp only [listed, List.mem_reverse, List.mem_map, Sigma.exists]
  constructor
  · rintro ⟨i, d, hm, rfl⟩
    exact ⟨i, AList.mem_lookup_iff.mpr hm⟩
  · rintro ⟨i, hi⟩
    exact ⟨i, c, AList.mem_lookup_iff.mp hi, rfl⟩

theorem lookup_remove {i j : Int} {d : κ} :
    (remove pending i c).lookup j = some d ↔ pending.lookup j = some d ∧ ¬(j = i ∧ d = c) := by
  unfold remove
  rcases eq_or_ne j i with rfl | hne
  · by_cases hc : pending.lookup j = some c
    · simp only [hc, if_true, AList.lookup_erase, reduceCtorEq, Option.some.injEq, true_and, false_iff]
      exact fun h => h.2 h.1.symm
    · simp only [hc, if_false, true_and]
      constructor
      · intro hd
        exact ⟨hd, fun hdc => hc (hdc ▸ hd)⟩
      · exact And.left
  · split_ifs
    · simp [AList.lookup_erase_ne hne, hne]
    · simp [hne]

@[simp] theorem remove_empty {i : Int} : remove (∅ : Pending κ) i c = ∅ := by
  simp [remove]

/-- Every entry belongs to a requester whose request it is. -/
def Listed (view : π → Option Int) (pc : κ → π) (pending : Pending κ) : Prop :=
  ∀ i c, pending.lookup i = some c → view (pc c) = some i

theorem Listed.update (h : Listed view pc pending) (hv : view p = view (pc c)) :
    Listed view (Function.update pc c p) pending :=
  fun i d hd => (update_view hv d).trans (h i d hd)

theorem Listed.register {n : Int} (h : Listed view pc pending) (hc : view (pc c) = none)
    (hv : view p = some n) : Listed view (Function.update pc c p) (pending.insert n c) := by
  intro i d hd
  rcases eq_or_ne i n with rfl | hin
  · rw [AList.lookup_insert, Option.some.injEq] at hd
    rw [← hd, Function.update_self, hv]
  · rw [AList.lookup_insert_ne hin] at hd
    have ho := h i d hd
    have hne : d ≠ c := by
      rintro rfl
      simp [hc] at ho
    rwa [Function.update_of_ne hne]

theorem Listed.remove {i : Int} (h : Listed view pc pending)
    (hc : ∀ j, view (pc c) = some j → j = i) :
    Listed view (Function.update pc c p) (remove pending i c) := by
  intro j d hd
  obtain ⟨hd, hne⟩ := lookup_remove.mp hd
  have hj := h j d hd
  have hdc : d ≠ c := by
    rintro rfl
    exact hne ⟨hc j hj, rfl⟩
  rwa [Function.update_of_ne hdc]

omit [DecidableEq κ] in
theorem Listed.empty : Listed view pc (∅ : Pending κ) := by
  intro i c hc
  simp at hc

/-! ### The slots -/

variable {untaken : π → Bool} {slot : κ → Option ι} {given : κ → List ι} {item : ι}

/-- `given` is what has been put into each slot. While a requester has taken nothing, that
is what its slot holds. -/
structure Slots (untaken : π → Bool) (pc : κ → π) (slot : κ → Option ι) (given : κ → List ι) :
    Prop where
  held : ∀ c x, slot c = some x → x ∈ given c
  fresh : ∀ c, untaken (pc c) = true → given c = (slot c).toList

theorem Slots.update (h : Slots untaken pc slot given)
    (hu : untaken p = true → untaken (pc c) = true) :
    Slots untaken (Function.update pc c p) slot given := by
  refine ⟨h.held, fun d hd => h.fresh d ?_⟩
  rcases eq_or_ne d c with rfl | hne
  · rw [Function.update_self] at hd
    exact hu hd
  · rwa [Function.update_of_ne hne] at hd

theorem Slots.take (h : Slots untaken pc slot given) (hu : untaken p = false) :
    Slots untaken (Function.update pc c p) (Function.update slot c none) given := by
  constructor
  · intro d x hd
    rcases eq_or_ne d c with rfl | hne
    · simp at hd
    · exact h.held d x (by rwa [Function.update_of_ne hne] at hd)
  · intro d hd
    rcases eq_or_ne d c with rfl | hne
    · simp [hu] at hd
    · rw [Function.update_of_ne hne] at hd ⊢
      exact h.fresh d hd

theorem Slots.put (h : Slots untaken pc slot given) (hc : slot c = none) :
    Slots untaken pc (Function.update slot c (some item))
      (Function.update given c (given c ++ [item])) := by
  constructor
  · intro d x hd
    rcases eq_or_ne d c with rfl | hne
    · rw [Function.update_self, Option.some.injEq] at hd
      rw [Function.update_self, hd]
      exact List.mem_append_right _ (List.mem_singleton_self x)
    · rw [Function.update_of_ne hne] at hd ⊢
      exact h.held d x hd
  · intro d hd
    rcases eq_or_ne d c with rfl | hne
    · rw [Function.update_self, Function.update_self, h.fresh d hd, hc]
      rfl
    · rw [Function.update_of_ne hne, Function.update_of_ne hne]
      exact h.fresh d hd

theorem mem_put {d : κ} {x : ι} : x ∈ Function.update given c (given c ++ [item]) d ↔
    x ∈ given d ∨ d = c ∧ x = item := by
  rcases eq_or_ne d c with rfl | hne
  · simp
  · simp [hne]

/-! ### Nobody is forgotten -/

variable {busy : κ → Prop}

/-- Whoever has a request is on the map, is about to be answered, or has been given something. -/
def Covered (view : π → Option Int) (pc : κ → π) (pending : Pending κ) (busy : κ → Prop)
    (given : κ → List ι) : Prop :=
  ∀ c i, view (pc c) = some i → pending.lookup i = some c ∨ busy c ∨ given c ≠ []

theorem Covered.update (h : Covered view pc pending busy given)
    (hv : ∀ i, view p = some i → view (pc c) = some i) :
    Covered view (Function.update pc c p) pending busy given := by
  intro d i hd
  rcases eq_or_ne d c with rfl | hne
  · rw [Function.update_self] at hd
    exact h d i (hv i hd)
  · exact h d i (by rwa [Function.update_of_ne hne] at hd)

theorem Covered.register {n : Int} (h : Covered view pc pending busy given)
    (hn : ∀ d i, view (pc d) = some i → i ≠ n) (hv : view p = some n) :
    Covered view (Function.update pc c p) (pending.insert n c) busy given := by
  intro d i hd
  rcases eq_or_ne d c with rfl | hne
  · rw [Function.update_self, hv, Option.some.injEq] at hd
    exact .inl (hd ▸ AList.lookup_insert _)
  · rw [Function.update_of_ne hne] at hd
    exact (h d i hd).imp_left fun hl => by rwa [AList.lookup_insert_ne (hn d i hd)]

theorem Covered.remove {i : Int} (h : Covered view pc pending busy given)
    (hv : view p = none) :
    Covered view (Function.update pc c p) (Waiters.remove pending i c) busy given := by
  intro d j hd
  rcases eq_or_ne d c with rfl | hne
  · rw [Function.update_self, hv] at hd
    cases hd
  · rw [Function.update_of_ne hne] at hd
    exact (h d j hd).imp_left fun hl => lookup_remove.mpr ⟨hl, fun h => hne h.2⟩

omit [DecidableEq κ] in
/-- The map is emptied by someone who has all its requesters at hand. -/
theorem Covered.sweep {busy' : κ → Prop} (h : Covered view pc pending busy given)
    (hl : ∀ c ∈ listed pending, busy' c) (hb : ∀ c, busy c → busy' c) :
    Covered view pc ∅ busy' given := by
  intro c i hc
  rcases h c i hc with hp | hp | hp
  · exact .inr (.inl (hl c (mem_listed.mpr ⟨i, hp⟩)))
  · exact .inr (.inl (hb c hp))
  · exact .inr (.inr hp)

omit [DecidableEq κ] in
theorem Covered.mono {busy' : κ → Prop} {given' : κ → List ι}
    (h : Covered view pc pending busy given) (hb : ∀ c, busy c → busy' c ∨ given' c ≠ [])
    (hg : ∀ c, given c ≠ [] → given' c ≠ []) : Covered view pc pending busy' given' := by
  intro c i hc
  rcases h c i hc with hp | hp | hp
  · exact .inl hp
  · exact .inr (hb c hp)
  · exact .inr (.inr (hg c hp))

end Waiters
