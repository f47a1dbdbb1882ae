import MsysSdk.Json.Grammar
import Mathlib.Data.Nat.Digits.Defs

/-! How a reader puts the text of a container together: from one element, the white space after
it, and the elements that it reads next. -/

namespace Json

variable {α : Type} {G : Dialect α}

theorem Spaces.nil : Spaces G [] := by simp [Spaces]

theorem Spaces.append {s t : List α} (hs : Spaces G s) (ht : Spaces G t) : Spaces G (s ++ t) :=
  List.forall_mem_append.mpr ⟨hs, ht⟩

theorem commaJoin_cons (s : List α) {ts : List (List α)} (h : ts ≠ []) :
    commaJoin G (s :: ts) = s ++ G.ch ',' :: commaJoin G ts := by
  obtain ⟨t, ts, rfl⟩ := List.exists_cons_of_ne_nil h
  rfl

theorem commaJoin_first (s : List α) (ts : List (List α)) :
    ∃ more, commaJoin G (s :: ts) = s ++ more := by
  cases ts with
  | nil => exact ⟨[], by simp [commaJoin]⟩
  | cons t ts => exact ⟨_, rfl⟩

theorem infix_commaJoin {ts : List (List α)} {t : List α} (h : t ∈ ts) :
    t <:+: commaJoin G ts := by
  induction ts with
  | nil => cases h
  | cons s ts ih =>
    rcases List.mem_cons.mp h with rfl | h
    · obtain ⟨more, hmore⟩ := commaJoin_first (G := G) t ts
      rw [hmore]
      exact (List.prefix_append t more).isInfix
    · rw [commaJoin_cons s (List.ne_nil_of_mem h)]
      exact (ih h).trans ⟨s ++ [G.ch ','], [], by simp⟩

theorem mem_commaJoin {ts : List (List α)} {t : List α} (h : t ∈ ts) {c : α} (hc : c ∈ t) :
    c ∈ commaJoin G ts := (infix_commaJoin h).subset hc

/-- White space before the first item belongs to it. -/
def padItems (ws : List α) : List (Item α) → List (Item α)
  | [] => []
  | i :: items => { i with before := ws ++ i.before } :: items

theorem padItems_text (ws : List α) {items : List (Item α)} (h : items ≠ []) :
    commaJoin G ((padItems ws items).map Item.text) = ws ++ commaJoin G (items.map Item.text) := by
  obtain ⟨i, items, rfl⟩ := List.exists_cons_of_ne_nil h
  cases items <;> simp [padItems, commaJoin, Item.text]

theorem padItems_spaced {ws : List α} (hws : Spaces G ws) {items : List (Item α)}
    (h : ∀ i ∈ items, i.Spaced G) : ∀ i ∈ padItems ws items, i.Spaced G := by
  cases items with
  | nil => exact h
  | cons i items =>
    rw [List.forall_mem_cons] at h
    exact List.forall_mem_cons.mpr ⟨⟨hws.append h.1.1, h.1.2⟩, h.2⟩

theorem padItems_values (ws : List α) (items : List (Item α)) :
    (padItems ws items).map Item.value = items.map Item.value := by
  cases items <;> rfl

/-- White space before the first member belongs to it. -/
def padMembers (ws : List α) : List (Member α) → List (Member α)
  | [] => []
  | m :: members => { m with before := ws ++ m.before } :: members

theorem padMembers_text (ws : List α) {members : List (Member α)} (h : members ≠ []) :
    commaJoin G ((padMembers ws members).map (Member.text G)) =
      ws ++ commaJoin G (members.map (Member.text G)) := by
  obtain ⟨m, members, rfl⟩ := List.exists_cons_of_ne_nil h
  cases members <;> simp [padMembers, commaJoin, Member.text]

theorem padMembers_spaced {ws : List α} (hws : Spaces G ws) {members : List (Member α)}
    (h : ∀ m ∈ members, m.Spaced G) : ∀ m ∈ padMembers ws members, m.Spaced G := by
  cases members with
  | nil => exact h
  | cons m members =>
    rw [List.forall_mem_cons] at h
    exact List.forall_mem_cons.mpr ⟨⟨hws.append h.1.1, h.1.2⟩, h.2⟩

theorem padMembers_values (ws : List α) (members : List (Member α)) :
    (padMembers ws members).map Member.value = members.map Member.value := by
  cases members <;> rfl

theorem padMembers_names (ws : List α) (members : List (Member α)) :
    (padMembers ws members).map Member.name = members.map Member.name := by
  cases members <;> rfl

/-! ### Whole numbers -/

/-- A number whose digits begin with a zero is zero. -/
theorem toDigits_zero_head (n : Nat) (h : (Nat.toDigits 10 n).head? = some '0') :
    Nat.toDigits 10 n = ['0'] := by
  induction n using Nat.base_induction 10 (by decide) with
  | single m hm =>
    rw [Nat.toDigits_of_lt_base hm] at h ⊢
    simpa using h
  | digit m k hk hm ih =>
    rw [← Nat.toDigits_append_toDigits (by decide) hm hk,
      List.head?_append_of_ne_nil _ Nat.toDigits_ne_nil] at h
    have hzero := congrArg (fun cs => Nat.ofDigitChars 10 cs 0) (ih h)
    simp only [Nat.ofDigitChars_ten_toDigits] at hzero
    have : Nat.ofDigitChars 10 ['0'] 0 = 0 := rfl
    omega

/-- The number of an integer, without fraction and exponent. -/
def wholeNumber (negative : Bool) (n : Nat) : Number where
  negative := negative
  int := ⟨Nat.toDigits 10 n, Nat.toDigits_ne_nil,
    fun _ hc => Nat.isDigit_of_mem_toDigits (by decide) (by decide) hc⟩
  noLeadingZero := toDigits_zero_head n
  frac := none
  exp := none

end Json
