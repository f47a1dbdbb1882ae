import MsysSdk.Text.Join
import Mathlib.Data.List.DropRight
import Mathlib.Tactic.Common

/-! A text seen through an encoding of its characters: what cuts the text cuts its encoding at
the same places. -/

namespace Encoded

variable {α β : Type*} {f : α → β} {p : β → Bool} {q : α → Bool} {s : List α}

theorem map_inj {t : List α} (h : ∀ a ∈ s, ∀ b ∈ t, f a = f b → a = b) :
    s.map f = t.map f ↔ s = t := by
  refine ⟨fun heq => ?_, fun heq => heq ▸ rfl⟩
  induction s generalizing t with
  | nil => exact (List.map_eq_nil_iff.mp heq.symm).symm
  | cons a s ih =>
    cases t with
    | nil => cases heq
    | cons b t =>
      obtain ⟨hab, htail⟩ := List.cons.inj heq
      rw [h a List.mem_cons_self b List.mem_cons_self hab, ih (fun x hx y hy =>
        h x (List.mem_cons_of_mem _ hx) y (List.mem_cons_of_mem _ hy)) htail]

theorem takeWhile (h : ∀ a ∈ s, p (f a) = q a) :
    (s.map f).takeWhile p = (s.takeWhile q).map f := by
  induction s with
  | nil => rfl
  | cons a s ih =>
    obtain ⟨ha, hs⟩ := List.forall_mem_cons.mp h
    rw [List.map_cons, List.takeWhile_cons, List.takeWhile_cons, ha, ih hs]
    cases q a <;> rfl

theorem dropWhile (h : ∀ a ∈ s, p (f a) = q a) :
    (s.map f).dropWhile p = (s.dropWhile q).map f := by
  induction s with
  | nil => rfl
  | cons a s ih =>
    obtain ⟨ha, hs⟩ := List.forall_mem_cons.mp h
    rw [List.map_cons, List.dropWhile_cons, List.dropWhile_cons, ha, ih hs]
    cases q a <;> rfl

theorem rdropWhile (h : ∀ a ∈ s, p (f a) = q a) :
    (s.map f).rdropWhile p = (s.rdropWhile q).map f := by
  rw [List.rdropWhile, List.rdropWhile, ← List.map_reverse,
    dropWhile fun a ha => h a (List.mem_reverse.mp ha), List.map_reverse]

theorem all (h : ∀ a ∈ s, p (f a) = q a) : (s.map f).all p = s.all q := by
  rw [List.all_map, Bool.eq_iff_iff, List.all_eq_true, List.all_eq_true]
  exact forall₂_congr fun a ha => by rw [Function.comp_apply, h a ha]

theorem any (h : ∀ a ∈ s, p (f a) = q a) : (s.map f).any p = s.any q := by
  rw [List.any_map, Bool.eq_iff_iff, List.any_eq_true, List.any_eq_true]
  exact exists_congr fun a => and_congr_right fun ha => by rw [Function.comp_apply, h a ha]

theorem intercalate (f : α → β) (a : α) (ss : List (List α)) :
    ([a].intercalate ss).map f = [f a].intercalate (ss.map (List.map f)) := by
  cases ss with
  | nil => rfl
  | cons s ss =>
    rw [List.map_cons, Joined.intercalate_singleton, Joined.intercalate_singleton, List.map_append,
      List.map_flatMap, List.flatMap_map]
    rfl

variable [BEq α] [LawfulBEq α] [BEq β] [LawfulBEq β]

theorem splitOn {a : α} (h : ∀ b ∈ s, f b = f a ↔ b = a) :
    (s.map f).splitOn (f a) = (s.splitOn a).map (List.map f) := by
  induction s with
  | nil => simp
  | cons b s ih =>
    obtain ⟨hb, hs⟩ := List.forall_mem_cons.mp h
    rw [List.map_cons, List.splitOn_cons_eq_if_modifyHead, List.splitOn_cons_eq_if_modifyHead,
      ih hs]
    by_cases hba : b = a
    · simp [hba]
    · have hf : ¬f b = f a := mt hb.mp hba
      rw [if_neg (by simpa using hf), if_neg (by simpa using hba)]
      cases s.splitOn a <;> simp

omit [LawfulBEq α] in
theorem mem_of_mem_splitOn {a b : α} {l : List α} (hl : l ∈ s.splitOn a) (hb : b ∈ l) : b ∈ s := by
  induction s generalizing l with
  | nil =>
    obtain rfl : l = [] := by simpa using hl
    cases hb
  | cons c s ih =>
    rw [List.splitOn_cons_eq_if_modifyHead] at hl
    split_ifs at hl with hc
    · rcases List.mem_cons.mp hl with rfl | hl
      · cases hb
      · exact List.mem_cons_of_mem _ (ih hl hb)
    · cases hsplit : s.splitOn a with
      | nil => exact absurd hsplit (List.splitOn_ne_nil a s)
      | cons x xs =>
        rw [hsplit] at hl ih
        rcases List.mem_cons.mp hl with rfl | hl
        · rcases List.mem_cons.mp hb with rfl | hb
          · exact List.mem_cons_self
          · exact List.mem_cons_of_mem _ (ih List.mem_cons_self hb)
        · exact List.mem_cons_of_mem _ (ih (List.mem_cons_of_mem _ hl) hb)

end Encoded
