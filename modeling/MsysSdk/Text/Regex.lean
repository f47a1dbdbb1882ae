import Mathlib.Computability.RegularExpressions

/-! Character classes and counted repetition of regular expressions, and what they match. A
`fullmatch` of a pattern is `rmatch`. -/

namespace RegularExpression

variable {α : Type*}

/-- One of the characters. -/
def oneOf (cs : List α) : RegularExpression α := cs.foldr (fun c r => char c + r) 0

def opt (r : RegularExpression α) : RegularExpression α := 1 + r

/-- From `lo` to `hi` times. -/
def counted (r : RegularExpression α) (lo hi : ℕ) : RegularExpression α :=
  r ^ lo * opt r ^ (hi - lo)

theorem mem_char {a : α} {x : List α} : x ∈ (char a).matches' ↔ x = [a] := Iff.rfl

theorem mem_comp {r t : RegularExpression α} {x : List α} :
    x ∈ (r * t).matches' ↔ ∃ y ∈ r.matches', ∃ z ∈ t.matches', y ++ z = x := Language.mem_mul

theorem mem_plus {r t : RegularExpression α} {x : List α} :
    x ∈ (r + t).matches' ↔ x ∈ r.matches' ∨ x ∈ t.matches' := Iff.rfl

theorem mem_opt {r : RegularExpression α} {x : List α} :
    x ∈ (opt r).matches' ↔ x = [] ∨ x ∈ r.matches' := Iff.rfl

theorem mem_oneOf {cs : List α} {x : List α} :
    x ∈ (oneOf cs).matches' ↔ ∃ c ∈ cs, x = [c] := by
  induction cs with
  | nil => simp [oneOf, matches'_zero]
  | cons c cs ih =>
    have hcons : oneOf (c :: cs) = char c + oneOf cs := rfl
    rw [hcons, mem_plus, ih, mem_char]
    simp

theorem pow_succ_def (r : RegularExpression α) (n : ℕ) : r ^ (n + 1) = r ^ n * r := rfl

theorem mem_oneOf_pow {cs : List α} {n : ℕ} {x : List α} :
    x ∈ (oneOf cs ^ n).matches' ↔ x.length = n ∧ ∀ c ∈ x, c ∈ cs := by
  induction n generalizing x with
  | zero =>
    have hzero : oneOf cs ^ 0 = 1 := rfl
    rw [hzero, matches'_epsilon, Language.mem_one, List.length_eq_zero_iff]
    constructor
    · rintro rfl
      simp
    · exact fun h => h.1
  | succ n ih =>
    rw [pow_succ_def, mem_comp]
    constructor
    · rintro ⟨y, hy, z, hz, rfl⟩
      obtain ⟨c, hc, rfl⟩ := mem_oneOf.mp hz
      obtain ⟨hlen, hall⟩ := ih.mp hy
      refine ⟨by simp [hlen], List.forall_mem_append.mpr ⟨hall, by simpa using hc⟩⟩
    · rintro ⟨hlen, hall⟩
      obtain ⟨y, c, rfl⟩ := List.eq_nil_or_concat' x |>.resolve_left (by
        rintro rfl
        cases hlen)
      rw [List.forall_mem_append] at hall
      refine ⟨y, ih.mpr ⟨by simpa using hlen, hall.1⟩, [c], ?_, by simp⟩
      exact mem_oneOf.mpr ⟨c, hall.2 c (by simp), rfl⟩

theorem mem_opt_oneOf_pow {cs : List α} {n : ℕ} {x : List α} :
    x ∈ (opt (oneOf cs) ^ n).matches' ↔ x.length ≤ n ∧ ∀ c ∈ x, c ∈ cs := by
  induction n generalizing x with
  | zero =>
    have hzero : opt (oneOf cs) ^ 0 = 1 := rfl
    rw [hzero, matches'_epsilon, Language.mem_one, Nat.le_zero, List.length_eq_zero_iff]
    constructor
    · rintro rfl
      simp
    · exact fun h => h.1
  | succ n ih =>
    rw [pow_succ_def, mem_comp]
    constructor
    · rintro ⟨y, hy, z, hz, rfl⟩
      obtain ⟨hlen, hall⟩ := ih.mp hy
      rcases mem_opt.mp hz with rfl | hz
      · exact ⟨by simp; omega, by simpa using hall⟩
      · obtain ⟨c, hc, rfl⟩ := mem_oneOf.mp hz
        exact ⟨by simp; omega, List.forall_mem_append.mpr ⟨hall, by simpa using hc⟩⟩
    · rintro ⟨hlen, hall⟩
      rcases List.eq_nil_or_concat' x with rfl | ⟨y, c, rfl⟩
      · exact ⟨[], ih.mpr ⟨by simp, by simp⟩, [], mem_opt.mpr (.inl rfl), rfl⟩
      · rw [List.forall_mem_append] at hall
        refine ⟨y, ih.mpr ⟨by simp at hlen; omega, hall.1⟩, [c], mem_opt.mpr (.inr ?_), by simp⟩
        exact mem_oneOf.mpr ⟨c, hall.2 c (by simp), rfl⟩

theorem mem_star_oneOf {cs : List α} {x : List α} :
    x ∈ (star (oneOf cs)).matches' ↔ ∀ c ∈ x, c ∈ cs := by
  constructor
  · intro h
    obtain ⟨words, rfl, hwords⟩ := Language.mem_kstar.mp h
    refine List.forall_mem_flatten.mpr fun w hw => ?_
    obtain ⟨c, hc, rfl⟩ := mem_oneOf.mp (hwords w hw)
    simpa using hc
  · intro h
    have hflatten : x = (x.map fun c => [c]).flatten := by
      rw [← List.flatMap_def, List.flatMap_singleton']
    exact Language.mem_kstar.mpr ⟨_, hflatten, List.forall_mem_map.mpr fun c hc =>
      mem_oneOf.mpr ⟨c, h c hc, rfl⟩⟩

theorem mem_counted_oneOf {cs : List α} {lo hi : ℕ} (h : lo ≤ hi) {x : List α} :
    x ∈ (counted (oneOf cs) lo hi).matches' ↔
      lo ≤ x.length ∧ x.length ≤ hi ∧ ∀ c ∈ x, c ∈ cs := by
  rw [counted, mem_comp]
  constructor
  · rintro ⟨y, hy, z, hz, rfl⟩
    obtain ⟨hy, hally⟩ := mem_oneOf_pow.mp hy
    obtain ⟨hz, hallz⟩ := mem_opt_oneOf_pow.mp hz
    rw [List.length_append]
    exact ⟨by omega, by omega, List.forall_mem_append.mpr ⟨hally, hallz⟩⟩
  · rintro ⟨hlo, hhi, hall⟩
    refine ⟨x.take lo, mem_oneOf_pow.mpr ⟨by simpa using hlo, fun c hc => ?_⟩,
      x.drop lo, mem_opt_oneOf_pow.mpr ⟨by rw [List.length_drop]; omega, fun c hc => ?_⟩,
      List.take_append_drop lo x⟩
    · exact hall c (List.mem_of_mem_take hc)
    · exact hall c (List.mem_of_mem_drop hc)

/-- The characters that occur in the expression. -/
def letters : RegularExpression α → List α
  | char a => [a]
  | plus r t | comp r t => r.letters ++ t.letters
  | star r => r.letters
  | zero | epsilon => []

/-- What holds of the characters of the expression holds of those of a match. -/
theorem forall_of_letters {p : α → Prop} {r : RegularExpression α} (hr : ∀ a ∈ r.letters, p a)
    {x : List α} (h : x ∈ r.matches') : ∀ c ∈ x, p c := by
  induction r generalizing x with
  | zero => exact absurd h (Language.notMem_zero x)
  | epsilon =>
    obtain rfl : x = [] := h
    simp
  | char a =>
    obtain rfl := mem_char.mp h
    exact hr
  | plus r t ihr iht =>
    obtain ⟨hr, ht⟩ := List.forall_mem_append.mp hr
    exact h.elim (ihr hr) (iht ht)
  | comp r t ihr iht =>
    obtain ⟨hr, ht⟩ := List.forall_mem_append.mp hr
    obtain ⟨y, hy, z, hz, rfl⟩ := mem_comp.mp h
    exact List.forall_mem_append.mpr ⟨ihr hr hy, iht ht hz⟩
  | star r ihr =>
    obtain ⟨words, rfl, hwords⟩ := Language.mem_kstar.mp h
    exact List.forall_mem_flatten.mpr fun w hw => ihr hr (hwords w hw)

end RegularExpression
