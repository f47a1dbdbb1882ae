import Mathlib.Data.List.Infix
import Mathlib.Tactic.Common

/-! Replacing every occurrence of a substring, from left to right. Where the text is a sequence of
pieces and the substring occurs only as one of them, these pieces are replaced. -/

namespace Replace

variable {α β : Type*} [DecidableEq α]

/-- The rest of an occurrence is passed over. -/
def replaceFrom (old new : List α) : Nat → List α → List α
  | _, [] => []
  | skip + 1, _ :: s => replaceFrom old new skip s
  | 0, c :: s =>
    if old <+: c :: s then new ++ replaceFrom old new (old.length - 1) s
    else c :: replaceFrom old new 0 s

def replaceAll (old new s : List α) : List α := replaceFrom old new 0 s

variable {old new : List α}

theorem replaceFrom_eq (skip : Nat) (s : List α) :
    replaceFrom old new skip s = replaceAll old new (s.drop skip) := by
  induction s generalizing skip with
  | nil => cases skip <;> rfl
  | cons c s ih =>
    cases skip with
    | zero => rfl
    | succ skip => exact ih skip

theorem replaceAll_nil : replaceAll old new [] = [] := rfl

theorem replaceAll_old (h : old ≠ []) (s : List α) :
    replaceAll old new (old ++ s) = new ++ replaceAll old new s := by
  obtain ⟨c, rest, rfl⟩ := List.exists_cons_of_ne_nil h
  have hprefix : c :: rest <+: c :: (rest ++ s) := List.prefix_append (c :: rest) s
  rw [List.cons_append, replaceAll, replaceFrom, if_pos hprefix, replaceFrom_eq,
    List.length_cons, Nat.add_sub_cancel, List.drop_left]

theorem replaceAll_cons {c : α} {s : List α} (h : ¬ old <+: c :: s) :
    replaceAll old new (c :: s) = c :: replaceAll old new s := by
  rw [replaceAll, replaceFrom, if_neg h]
  rfl

/-- No occurrence starts in `w`. -/
theorem replaceAll_append {w s : List α}
    (h : ∀ a b, w ++ s = a ++ (old ++ b) → w.length ≤ a.length) :
    replaceAll old new (w ++ s) = w ++ replaceAll old new s := by
  induction w with
  | nil => rfl
  | cons c w ih =>
    have hstart : ¬ old <+: c :: (w ++ s) := by
      rintro ⟨b, hb⟩
      cases h [] b hb.symm
    rw [List.cons_append, replaceAll_cons hstart, ih, List.cons_append]
    intro a b hab
    have hlonger := h (c :: a) b (by rw [List.cons_append, List.cons_append, hab])
    exact Nat.le_of_succ_le_succ hlonger

section Pieces

variable {text : β → List α} {marked : β → Bool}

/-- The substring occurs only as a marked piece. -/
def OnlyMarked (text : β → List α) (marked : β → Bool) (old : List α) (pieces : List β) : Prop :=
  ∀ a b, pieces.flatMap text = a ++ (old ++ b) →
    ∃ before piece after, pieces = before ++ piece :: after ∧ marked piece = true ∧
      a = before.flatMap text

omit [DecidableEq α] in
theorem OnlyMarked.tail (hold : old ≠ []) (hmarked : ∀ p, marked p = true → text p = old)
    {piece : β} {pieces : List β} (h : OnlyMarked text marked old (piece :: pieces)) :
    OnlyMarked text marked old pieces := by
  intro a b hab
  obtain ⟨before, q, after, hsplit, hq, ha⟩ := h (text piece ++ a) b (by
    rw [List.flatMap_cons, hab, List.append_assoc])
  cases before with
  | nil =>
    -- the occurrence is the first piece itself, so nothing stands before it
    obtain ⟨rfl, rfl⟩ := List.cons.inj hsplit
    rw [List.flatMap_nil, hmarked _ hq, List.append_eq_nil_iff] at ha
    exact absurd ha.1 hold
  | cons p before =>
    obtain ⟨rfl, rfl⟩ := List.cons.inj hsplit
    rw [List.flatMap_cons] at ha
    exact ⟨before, q, after, rfl, hq, List.append_cancel_left ha⟩

theorem replaceAll_pieces (hold : old ≠ []) (hmarked : ∀ p, marked p = true → text p = old)
    {pieces : List β} (h : OnlyMarked text marked old pieces) :
    replaceAll old new (pieces.flatMap text) =
      pieces.flatMap fun p => if marked p then new else text p := by
  induction pieces with
  | nil => rfl
  | cons piece pieces ih =>
    have hrest := ih (h.tail hold hmarked)
    rw [List.flatMap_cons, List.flatMap_cons]
    by_cases hp : marked piece = true
    · rw [if_pos hp, hmarked piece hp, replaceAll_old hold, hrest]
    · rw [if_neg hp, replaceAll_append, hrest]
      intro a b hab
      obtain ⟨before, q, after, hsplit, hq, rfl⟩ := h a b hab
      cases before with
      | nil =>
        obtain ⟨rfl, rfl⟩ := List.cons.inj hsplit
        exact absurd hq hp
      | cons p before =>
        obtain ⟨rfl, rfl⟩ := List.cons.inj hsplit
        rw [List.flatMap_cons, List.length_append]
        exact Nat.le_add_right _ _

end Pieces

/-- A substring that does not occur is not replaced. -/
theorem replaceAll_of_absent {s : List α} (h : ¬ old <:+: s) : replaceAll old new s = s := by
  have happend : replaceAll old new (s ++ []) = s ++ replaceAll old new [] :=
    replaceAll_append fun a b hab => by
      rw [List.append_nil] at hab
      exact absurd ⟨a, b, by rw [hab, List.append_assoc]⟩ h
  rwa [List.append_nil, replaceAll_nil, List.append_nil] at happend

end Replace
