import MsysSdk.Text.Bytes
import Mathlib.Control.Basic

/-! Reading a NUL-terminated string through a cursor. The memory of the string is its bytes and
the NUL behind them; to read anything else is a fault, and so are a loop that goes on for longer
than a given number of rounds and a chain of calls that is deeper than a given number of frames. -/

namespace Libc

inductive Fault
  | outOfBounds
  | unfinished
  | stackOverflow
deriving DecidableEq

abbrev Checked := Except Fault

/-- `s[i]` -/
def readByte (s : Bytes) (i : Nat) : Checked UInt8 :=
  if i ≤ s.length then pure ((s.drop i).headD 0) else throw .outOfBounds

/-- `while (p(*cursor)) ++cursor;` -/
def skipWhile (p : UInt8 → Bool) (s : Bytes) : Nat → Nat → Checked Nat
  | 0, _ => throw .unfinished
  | rounds + 1, cursor => do
    if p (← readByte s cursor) then skipWhile p s rounds (cursor + 1) else pure cursor

/-- `strncmp(cursor, word, strlen(word)) == 0`: no byte is read behind one that differs. -/
def matchesWord (s : Bytes) : Bytes → Nat → Checked Bool
  | [], _ => pure true
  | w :: word, cursor => do
    if (← readByte s cursor) = w then matchesWord s word (cursor + 1) else pure false

/-- The cursor is within the string, and `t` is what it points at. -/
structure At (s : Bytes) (cursor : Nat) (t : Bytes) : Prop where
  inside : cursor ≤ s.length
  rest : s.drop cursor = t

namespace At

variable {s t u : Bytes} {cursor i j : Nat} {b : UInt8}

theorem of_le (h : cursor ≤ s.length) : At s cursor (s.drop cursor) := ⟨h, rfl⟩

theorem read (h : At s cursor t) : readByte s cursor = pure (t.headD 0) := by
  rw [readByte, if_pos h.inside, h.rest]

theorem read_nil (h : At s cursor []) : readByte s cursor = pure 0 := h.read

theorem read_cons (h : At s cursor (b :: t)) : readByte s cursor = pure b := h.read

theorem add_length (h : At s cursor t) : cursor + t.length = s.length := by
  have hinside := h.inside
  rw [← h.rest, List.length_drop]
  omega

theorem next (h : At s cursor (b :: t)) : At s (cursor + 1) t := by
  have hlength := h.add_length
  rw [List.length_cons] at hlength
  refine ⟨by omega, ?_⟩
  rw [← List.drop_drop, h.rest, List.drop_succ_cons, List.drop_zero]

theorem drop (h : At s cursor t) {n : Nat} (hn : n ≤ t.length) : At s (cursor + n) (t.drop n) := by
  have hlength := h.add_length
  refine ⟨by omega, ?_⟩
  rw [← List.drop_drop, h.rest]

/-- A cursor is further on exactly if less is left. -/
theorem lt_iff (hi : At s i t) (hj : At s j u) : i < j ↔ u.length < t.length := by
  have hi' := hi.add_length
  have hj' := hj.add_length
  omega

/-- A loop that stops at the NUL stays within the string. -/
theorem skipWhile {p : UInt8 → Bool} (hp : p 0 = false) (h : At s cursor t) {rounds : Nat}
    (hrounds : t.length < rounds) :
    ∃ j, Libc.skipWhile p s rounds cursor = pure j ∧ cursor ≤ j ∧ At s j (t.dropWhile p) := by
  induction t generalizing cursor rounds with
  | nil =>
    obtain ⟨rounds, rfl⟩ := Nat.exists_eq_add_of_le' (Nat.one_le_of_lt hrounds)
    refine ⟨cursor, ?_, Nat.le_refl _, h⟩
    rw [Libc.skipWhile, h.read_nil, pure_bind, hp]
    rfl
  | cons b t ih =>
    obtain ⟨rounds, rfl⟩ := Nat.exists_eq_add_of_le' (Nat.one_le_of_lt hrounds)
    rw [Libc.skipWhile, h.read_cons, pure_bind]
    by_cases hb : p b = true
    · rw [List.length_cons] at hrounds
      obtain ⟨j, hj, hle, hat⟩ := ih h.next (Nat.lt_of_succ_lt_succ hrounds)
      rw [if_pos hb, List.dropWhile_cons_of_pos hb]
      exact ⟨j, hj, by omega, hat⟩
    · rw [if_neg hb, List.dropWhile_cons_of_neg hb]
      exact ⟨cursor, rfl, Nat.le_refl _, h⟩

theorem matchesWord {word : Bytes} (hword : 0 ∉ word) (h : At s cursor t) :
    Libc.matchesWord s word cursor = pure (word.isPrefixOf t) := by
  induction word generalizing cursor t with
  | nil => rfl
  | cons w word ih =>
    obtain ⟨hw, hword⟩ := not_or.mp (mt List.mem_cons.mpr hword)
    rw [Libc.matchesWord]
    cases t with
    | nil =>
      rw [h.read_nil, pure_bind, if_neg hw]
      rfl
    | cons b t =>
      rw [h.read_cons, pure_bind, List.isPrefixOf_cons_cons]
      by_cases hb : b = w
      · rw [if_pos hb, ih hword h.next, hb, beq_self_eq_true, Bool.true_and]
      · rw [if_neg hb, beq_eq_false_iff_ne.mpr (Ne.symm hb), Bool.false_and]

end At

/-! ### A part of a string -/

theorem slice_cons {s : Bytes} {cursor finish : Nat} (hlt : cursor < finish)
    (hle : finish ≤ s.length) : ∃ b, readByte s cursor = pure b ∧
      (s.take finish).drop cursor = b :: (s.take finish).drop (cursor + 1) := by
  have hin : cursor < (s.take finish).length := by
    rw [List.length_take]
    omega
  have hcons := List.drop_eq_getElem_cons hin
  refine ⟨(s.take finish)[cursor], ?_, hcons⟩
  have hat : At s cursor (s.drop cursor) := .of_le (by omega)
  rw [hat.read, List.drop_eq_getElem_cons (by omega), List.headD_cons, List.getElem_take]

theorem slice_nil {s : Bytes} {cursor finish : Nat} (h : finish ≤ cursor) :
    (s.take finish).drop cursor = [] :=
  List.drop_eq_nil_of_le (by rw [List.length_take]; omega)

theorem slice_eq_nil {s : Bytes} {cursor finish : Nat} (hfinish : finish ≤ s.length) :
    (s.take finish).drop cursor = [] ↔ finish ≤ cursor := by
  rw [List.drop_eq_nil_iff, List.length_take, Nat.min_eq_left hfinish]

theorem length_slice {s : Bytes} {cursor finish : Nat} (h : finish ≤ s.length) :
    ((s.take finish).drop cursor).length = finish - cursor := by
  rw [List.length_drop, List.length_take, Nat.min_eq_left h]

end Libc
