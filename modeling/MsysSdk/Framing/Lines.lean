import Mathlib.Data.List.Basic
import Mathlib.Tactic.Common

/-! Streams cut into lines. `lines` splits at the terminator `nl`; `cut` is what a reader gets
that takes one line at a time, of bounded length, from a stream that has ended; `Feeds` says
the same of a stream that is still being written. -/

namespace Framing
variable {α : Type*} [DecidableEq α] {nl : α} {limit : Nat}

def unlines (nl : α) (ls : List (List α)) : List α := ls.flatMap (· ++ [nl])

/-- The terminated lines of a stream. -/
def lines (nl : α) (s : List α) : List (List α) := (s.splitOn nl).dropLast

omit [DecidableEq α] in
@[simp] theorem unlines_nil : unlines nl [] = [] := rfl

omit [DecidableEq α] in
theorem unlines_cons (l : List α) (ls : List (List α)) :
    unlines nl (l :: ls) = l ++ nl :: unlines nl ls := by
  simp [unlines]

omit [DecidableEq α] in
theorem unlines_append (ls : List (List α)) (l : List α) :
    unlines nl (ls ++ [l]) = unlines nl ls ++ l ++ [nl] := by
  simp [unlines]

theorem splitOn_unlines {ls : List (List α)} (h : ∀ l ∈ ls, nl ∉ l) :
    (unlines nl ls).splitOn nl = ls ++ [[]] := by
  induction ls with
  | nil => simp
  | cons l ls ih =>
    rw [unlines_cons, List.splitOn_append_cons_self_of_not_mem (h l (by simp)),
      ih fun m hm => h m (by simp [hm])]
    rfl

theorem lines_unlines {ls : List (List α)} (h : ∀ l ∈ ls, nl ∉ l) :
    lines nl (unlines nl ls) = ls := by
  rw [lines, splitOn_unlines h, List.dropLast_concat]

theorem length_lines (s : List α) : (lines nl s).length = s.count nl := by
  have key : (s.splitOn nl).length = s.count nl + 1 := by
    induction s with
    | nil => simp
    | cons b s ih =>
      rw [List.splitOn_cons_eq_if_modifyHead, List.count_cons]
      split_ifs <;> simp [ih]
  rw [lines, List.length_dropLast, key]
  rfl

theorem count_unlines (ls : List (List α)) :
    (unlines nl ls).count nl = ls.flatten.count nl + ls.length := by
  induction ls with
  | nil => simp
  | cons l ls ih =>
    rw [unlines_cons, List.count_append, List.count_cons_self, ih, List.flatten_cons,
      List.count_append, List.length_cons]
    omega

/-- There are as many lines as were written exactly if none of them has a terminator in it. -/
theorem length_lines_unlines (ls : List (List α)) :
    (lines nl (unlines nl ls)).length = ls.length ↔ ∀ l ∈ ls, nl ∉ l := by
  have hcount : (lines nl (unlines nl ls)).length = ls.length ↔ ls.flatten.count nl = 0 := by
    rw [length_lines, count_unlines]
    omega
  rw [hcount, List.count_eq_zero]
  simp

theorem lines_eq_nil {s : List α} (h : nl ∉ s) : lines nl s = [] := by
  rw [← List.length_eq_zero_iff, length_lines, List.count_eq_zero.mpr h]

theorem lines_cons {l : List α} (h : nl ∉ l) (s : List α) :
    lines nl (l ++ nl :: s) = l :: lines nl s := by
  rw [lines, List.splitOn_append_cons_self_of_not_mem h]
  exact List.dropLast_cons_of_ne_nil (List.splitOn_ne_nil nl s)

theorem exists_lines_cons {s : List α} (h : nl ∈ s) :
    ∃ l t, s = l ++ nl :: t ∧ nl ∉ l ∧ lines nl s = l :: lines nl t := by
  obtain ⟨l, t, rfl, hl⟩ := List.eq_append_cons_of_mem h
  exact ⟨l, t, rfl, hl, lines_cons hl t⟩

/-! ### One line at a time -/

/-- A line of at most so many items, with its terminator, and the rest; `none` when the
stream gives neither a terminator nor that many items. -/
def takeLine (nl : α) : Nat → List α → Option (List α × List α)
  | 0, s => some ([], s)
  | _ + 1, [] => none
  | n + 1, b :: s =>
    if b = nl then some ([b], s) else (takeLine nl n s).map fun p => (b :: p.1, p.2)

/-- The lines of a stream that has ended; the last one may lack its terminator. -/
def cutFrom (nl : α) (limit : Nat) (acc : List α) : List α → List (List α)
  | [] => if acc = [] then [] else [acc]
  | b :: s =>
    if b = nl ∨ acc.length + 1 = limit then (acc ++ [b]) :: cutFrom nl limit [] s
    else cutFrom nl limit (acc ++ [b]) s

def cut (nl : α) (limit : Nat) (s : List α) : List (List α) := cutFrom nl limit [] s

@[simp] theorem cut_nil : cut nl limit [] = [] := rfl

theorem takeLine_append {n : Nat} {s l r : List α} (h : takeLine nl n s = some (l, r))
    (t : List α) : takeLine nl n (s ++ t) = some (l, r ++ t) := by
  induction n generalizing s l with
  | zero =>
    obtain ⟨rfl, rfl⟩ := Prod.mk.inj (Option.some.inj h)
    rfl
  | succ n ih =>
    cases s with
    | nil => cases h
    | cons b s =>
      simp only [takeLine, List.cons_append] at h ⊢
      split_ifs at h ⊢ with hb
      · obtain ⟨rfl, rfl⟩ := Prod.mk.inj (Option.some.inj h)
        rfl
      · obtain ⟨p, hp, heq⟩ := Option.map_eq_some_iff.mp h
        obtain ⟨rfl, rfl⟩ := Prod.mk.inj heq
        rw [ih hp]
        rfl

theorem takeLine_line {n : Nat} {l : List α} (hl : nl ∉ l) (hn : l.length < n) (t : List α) :
    takeLine nl n (l ++ nl :: t) = some (l ++ [nl], t) := by
  induction n generalizing l with
  | zero => omega
  | succ n ih =>
    cases l with
    | nil => simp [takeLine]
    | cons b l =>
      have hb : b ≠ nl := fun hb => hl (by simp [hb])
      have hrest := ih (l := l) (fun h => hl (by simp [h])) (by simpa using hn)
      simp [takeLine, hb, hrest]

/-- A line that is taken ends with its terminator, or at the bound. -/
theorem takeLine_some {n : Nat} {s l r : List α} (h : takeLine nl n s = some (l, r)) :
    s = l ++ r ∧ ((∃ body, l = body ++ [nl] ∧ nl ∉ body) ∨ nl ∉ l ∧ l.length = n) := by
  induction n generalizing s l with
  | zero =>
    obtain ⟨rfl, rfl⟩ := Prod.mk.inj (Option.some.inj h)
    exact ⟨rfl, .inr ⟨List.not_mem_nil, rfl⟩⟩
  | succ n ih =>
    cases s with
    | nil => cases h
    | cons b s =>
      rw [takeLine] at h
      split_ifs at h with hb
      · obtain ⟨rfl, rfl⟩ := Prod.mk.inj (Option.some.inj h)
        exact ⟨rfl, .inl ⟨[], by rw [hb, List.nil_append], List.not_mem_nil⟩⟩
      · obtain ⟨p, hp, heq⟩ := Option.map_eq_some_iff.mp h
        obtain ⟨rfl, rfl⟩ := Prod.mk.inj heq
        have hnot : ∀ {t : List α}, nl ∉ t → nl ∉ b :: t := fun ht hmem =>
          (List.mem_cons.mp hmem).elim (fun he => hb he.symm) ht
        obtain ⟨rfl, ⟨body, hbody, hn⟩ | ⟨hn, hlen⟩⟩ := ih hp
        · exact ⟨rfl, .inl ⟨b :: body, by rw [hbody, List.cons_append], hnot hn⟩⟩
        · exact ⟨rfl, .inr ⟨hnot hn, congrArg (· + 1) hlen⟩⟩

theorem takeLine_none {n : Nat} {s : List α} (h : takeLine nl n s = none) : nl ∉ s := by
  induction n generalizing s with
  | zero => cases h
  | succ n ih =>
    cases s with
    | nil => exact List.not_mem_nil
    | cons b s =>
      rw [takeLine] at h
      split_ifs at h with hb
      intro hmem
      exact (List.mem_cons.mp hmem).elim (fun he => hb he.symm) (ih (Option.map_eq_none_iff.mp h))

theorem cutFrom_some {n : Nat} {acc s l r : List α} (h : takeLine nl (n + 1) s = some (l, r))
    (hn : acc.length + (n + 1) = limit) :
    cutFrom nl limit acc s = (acc ++ l) :: cutFrom nl limit [] r := by
  -- `acc` holds what is read of the line, `n + 1` what the bound still allows
  induction n generalizing acc s l with
  | zero =>
    cases s with
    | nil => cases h
    | cons b s =>
      have hl : l = [b] ∧ r = s := by
        simp only [takeLine] at h
        split_ifs at h <;> simp_all
      rw [hl.1, hl.2, cutFrom, if_pos (.inr hn)]
  | succ n ih =>
    cases s with
    | nil => cases h
    | cons b s =>
      rw [takeLine] at h
      split_ifs at h with hb
      · obtain ⟨rfl, rfl⟩ := Prod.mk.inj (Option.some.inj h)
        rw [cutFrom, if_pos (.inl hb)]
      · obtain ⟨p, hp, heq⟩ := Option.map_eq_some_iff.mp h
        obtain ⟨rfl, rfl⟩ := Prod.mk.inj heq
        have hlen : ¬(b = nl ∨ acc.length + 1 = limit) := by
          rintro (h | h)
          · exact hb h
          · omega
        rw [cutFrom, if_neg hlen, ih hp (by simp only [List.length_append, List.length_singleton]; omega)]
        simp

theorem cutFrom_none {n : Nat} {acc s : List α} (h : takeLine nl n s = none)
    (hn : acc.length + n = limit) (hne : acc ++ s ≠ []) : cutFrom nl limit acc s = [acc ++ s] := by
  induction n generalizing acc s with
  | zero => cases h
  | succ n ih =>
    cases s with
    | nil =>
      rw [List.append_nil] at hne ⊢
      rw [cutFrom, if_neg hne]
    | cons b s =>
      rw [takeLine] at h
      split_ifs at h with hb
      have hrest := Option.map_eq_none_iff.mp h
      have hlen : ¬(b = nl ∨ acc.length + 1 = limit) := by
        rintro (h | h)
        · exact hb h
        · obtain rfl : n = 0 := by omega
          cases hrest
      -- neither a newline nor the bound ends the line here
      rw [cutFrom, if_neg hlen,
        ih hrest (by simp only [List.length_append, List.length_singleton]; omega) (by simp)]
      simp

theorem cut_some {s l r : List α} (h : takeLine nl limit s = some (l, r)) (hpos : 0 < limit) :
    cut nl limit s = l :: cut nl limit r := by
  obtain ⟨n, rfl⟩ := Nat.exists_eq_succ_of_ne_zero (Nat.pos_iff_ne_zero.mp hpos)
  exact cutFrom_some h (Nat.zero_add _)

theorem cut_none {s : List α} (h : takeLine nl limit s = none) (hne : s ≠ []) :
    cut nl limit s = [s] := by
  exact cutFrom_none h (Nat.zero_add _) hne

/-- Terminated lines of bounded length are read back as they were written. -/
theorem cut_unlines {ls : List (List α)} (h : ∀ l ∈ ls, nl ∉ l ∧ l.length < limit) :
    cut nl limit (unlines nl ls) = ls.map (· ++ [nl]) := by
  induction ls with
  | nil => rfl
  | cons l ls ih =>
    obtain ⟨hl, hlen⟩ := h l (by simp)
    rw [unlines_cons, cut_some (takeLine_line hl hlen _) (by omega),
      ih fun m hm => h m (by simp [hm])]
    rfl

/-! ### A stream that is still being written -/

/-- Of a stream that was `wrote` so far, the lines `read` were taken and `pipe` is left. -/
def Feeds (nl : α) (limit : Nat) (ended : Prop) (wrote pipe : List α) (read : List (List α)) :
    Prop :=
  ∀ more, (ended → more = []) → cut nl limit (wrote ++ more) = read ++ cut nl limit (pipe ++ more)

variable {ended : Prop} {wrote pipe l r : List α} {read : List (List α)}

theorem Feeds.start : Feeds nl limit ended [] [] [] := fun _ _ => rfl

theorem Feeds.write (h : Feeds nl limit ended wrote pipe read) (hopen : ¬ended) (b : List α) :
    Feeds nl limit ended (wrote ++ b) (pipe ++ b) read := by
  intro more _
  rw [List.append_assoc, List.append_assoc]
  exact h (b ++ more) fun he => absurd he hopen

theorem Feeds.close {ended' : Prop} (h : Feeds nl limit ended wrote pipe read)
    (he : ended → ended') : Feeds nl limit ended' wrote pipe read :=
  fun more hm => h more fun hend => hm (he hend)

theorem Feeds.take (h : Feeds nl limit ended wrote pipe read) (hpos : 0 < limit)
    (hl : takeLine nl limit pipe = some (l, r)) : Feeds nl limit ended wrote r (read ++ [l]) := by
  intro more hm
  rw [h more hm, cut_some (takeLine_append hl more) hpos]
  simp

/-- The rest of an ended stream, with no terminator, is its last line. -/
theorem Feeds.rest (h : Feeds nl limit ended wrote pipe read) (hend : ended)
    (hl : takeLine nl limit pipe = none) (hne : pipe ≠ []) :
    Feeds nl limit ended wrote [] (read ++ [pipe]) := by
  intro more hm
  obtain rfl := hm hend
  rw [h [] hm, List.append_nil, cut_none hl hne]
  simp

theorem Feeds.finished (h : Feeds nl limit ended wrote [] read) : cut nl limit wrote = read := by
  simpa using h [] fun _ => rfl

end Framing
