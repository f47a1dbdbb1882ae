import MsysSdk.Text.Bytes
import Mathlib.Data.List.Induction
import Mathlib.Data.List.TakeWhile
import Mathlib.Data.Nat.Digits.Defs

/-! Decimal numbers in C strings: what a run of digits denotes, and the reading of an unsigned
integer by `strtoull`. -/

namespace Libc

/-- The number that a run of decimal digits denotes. -/
def decimalValue (s : Bytes) : Nat := Nat.ofDigits 10 (s.map fun b => b.toNat - 48).reverse

theorem decimalValue_concat (s : Bytes) (b : UInt8) :
    decimalValue (s ++ [b]) = 10 * decimalValue s + (b.toNat - 48) := by
  simp [decimalValue, Nat.ofDigits_cons, Nat.add_comm]

def ullongMax : Nat := 2 ^ 64 - 1
def erange : Nat := 34

/-- An integer as `strtoull` reads it in base 10. -/
structure IntegerText where
  space : Bytes
  sign : Bytes
  digits : Bytes
  spaces : ∀ b ∈ space, isspace b = true
  signed : sign = [] ∨ sign = [chr '+'] ∨ sign = [chr '-']
  nonempty : digits ≠ []
  numeric : ∀ b ∈ digits, isdigit b = true

namespace IntegerText

def text (t : IntegerText) : Bytes := t.space ++ (t.sign ++ t.digits)

def value (t : IntegerText) : Int :=
  if t.sign = [chr '-'] then -(decimalValue t.digits : Int) else decimalValue t.digits

end IntegerText

/-- `strtoull(s, &end, 10)`: what it returns, where `end` points, and the `errno` it sets. -/
def strtoull (s : Bytes) : UInt64 × Bytes × Nat :=
  let signed := s.dropWhile isspace
  let negative := signed.head? = some (chr '-')
  let subject := if negative ∨ signed.head? = some (chr '+') then signed.tail else signed
  let digits := subject.takeWhile isdigit
  let rest := subject.dropWhile isdigit
  if digits = [] then (0, s, 0)
  else if decimalValue digits > ullongMax then (.ofNat ullongMax, rest, erange)
  else if negative then (-.ofNat (decimalValue digits), rest, 0)
  else (.ofNat (decimalValue digits), rest, 0)

theorem sign_not_space : isspace (chr '+') = false ∧ isspace (chr '-') = false := by decide

theorem isdigit_head {b : UInt8} (h : isdigit b = true) :
    isspace b = false ∧ b ≠ chr '+' ∧ b ≠ chr '-' := by
  refine ⟨?_, ?_, ?_⟩
  · simp only [isdigit, Ascii.isDigit, Bool.and_eq_true, decide_eq_true_eq] at h
    simp only [isspace, Ascii.isSpace, Bool.or_eq_false_iff, Bool.and_eq_false_iff,
      decide_eq_false_iff_not]
    omega
  · rintro rfl
    revert h
    decide
  · rintro rfl
    revert h
    decide

namespace IntegerText

theorem text_ne (t : IntegerText) : t.text ≠ [] := by
  simp [text, t.nonempty]

/-- White space ends where the sign or the first digit stands. -/
theorem dropWhile_text (t : IntegerText) : t.text.dropWhile isspace = t.sign ++ t.digits := by
  rw [text, List.dropWhile_append_of_pos t.spaces]
  obtain ⟨b, ds, hd⟩ := List.exists_cons_of_ne_nil t.nonempty
  have hb := isdigit_head (t.numeric b (by simp [hd]))
  rcases t.signed with h | h | h <;> rw [h]
  · rw [List.nil_append, hd]
    exact List.dropWhile_cons_of_neg (by simp [hb.1])
  · exact List.dropWhile_cons_of_neg (by simp [sign_not_space])
  · exact List.dropWhile_cons_of_neg (by simp [sign_not_space])

theorem negative_iff (t : IntegerText) :
    (t.sign ++ t.digits).head? = some (chr '-') ↔ t.sign = [chr '-'] := by
  obtain ⟨b, ds, hd⟩ := List.exists_cons_of_ne_nil t.nonempty
  have hb := isdigit_head (t.numeric b (by simp [hd]))
  have hne : chr '+' ≠ chr '-' := by decide
  rcases t.signed with h | h | h <;> simp [h, hd, hb, hne]

theorem head_minus (t : IntegerText) :
    t.text.head? = some (chr '-') ↔ t.space = [] ∧ t.sign = [chr '-'] := by
  rw [text]
  cases hspace : t.space with
  | nil =>
    rw [List.nil_append, t.negative_iff]
    simp
  | cons b bs =>
    have hb := t.spaces b (by simp [hspace])
    have hne : b ≠ chr '-' := by
      rintro rfl
      simp [sign_not_space] at hb
    simp [hne]

theorem subject (t : IntegerText) :
    (if (t.sign ++ t.digits).head? = some (chr '-') ∨ (t.sign ++ t.digits).head? = some (chr '+')
      then (t.sign ++ t.digits).tail else t.sign ++ t.digits) = t.digits := by
  obtain ⟨b, ds, hd⟩ := List.exists_cons_of_ne_nil t.nonempty
  have hb := isdigit_head (t.numeric b (by simp [hd]))
  rcases t.signed with h | h | h <;> simp [h, hd, hb]

/-- An integer is read whole, with its own `errno` when it does not fit. -/
theorem strtoull_text (t : IntegerText) :
    strtoull t.text =
      if decimalValue t.digits > ullongMax then (.ofNat ullongMax, [], erange)
      else (.ofInt t.value, [], 0) := by
  have htake : t.digits.takeWhile isdigit = t.digits := List.takeWhile_eq_self_iff.mpr t.numeric
  have hdrop : t.digits.dropWhile isdigit = [] := List.dropWhile_eq_nil_iff.mpr t.numeric
  unfold strtoull
  simp only [dropWhile_text, subject, htake, hdrop, if_neg t.nonempty]
  by_cases hbig : decimalValue t.digits > ullongMax
  · rw [if_pos hbig, if_pos hbig]
  rw [if_neg hbig, if_neg hbig, value]
  have hnat : UInt64.ofInt (decimalValue t.digits) = .ofNat (decimalValue t.digits) := by
    rw [UInt64.ofInt, UInt64.ofNat_eq_iff_mod_eq_toNat, UInt64.toNat_ofNat']
    omega
  by_cases hneg : t.sign = [chr '-']
  · rw [if_pos (t.negative_iff.mpr hneg), if_pos hneg, UInt64.ofInt_neg, hnat]
  · rw [if_neg (mt t.negative_iff.mp hneg), if_neg hneg, hnat]

end IntegerText

/-- What is read whole is an integer's text. -/
theorem strtoull_whole {s : Bytes} (hs : s ≠ []) (h : (strtoull s).2.1 = []) :
    ∃ t : IntegerText, t.text = s := by
  unfold strtoull at h
  dsimp only at h
  have hspaces : ∀ b ∈ s.takeWhile isspace, isspace b = true := fun b hb =>
    List.all_eq_true.mp List.all_takeWhile b hb
  have hsplit := List.takeWhile_append_dropWhile (p := isspace) (l := s)
  generalize hsubject : (if (s.dropWhile isspace).head? = some (chr '-') ∨
      (s.dropWhile isspace).head? = some (chr '+') then (s.dropWhile isspace).tail
      else s.dropWhile isspace) = subject at h
  have hnumeric : ∀ b ∈ subject.takeWhile isdigit, isdigit b = true := fun b hb =>
    List.all_eq_true.mp List.all_takeWhile b hb
  by_cases hdigits : subject.takeWhile isdigit = []
  · rw [if_pos hdigits] at h
    exact absurd h hs
  have hrest : subject.dropWhile isdigit = [] := by
    split_ifs at h <;> exact h
  have hwhole : subject.takeWhile isdigit = subject := by
    have := List.takeWhile_append_dropWhile (p := isdigit) (l := subject)
    rwa [hrest, List.append_nil] at this
  rw [hwhole] at hdigits hnumeric
  have key : ∀ sign, (sign = [] ∨ sign = [chr '+'] ∨ sign = [chr '-']) →
      s.dropWhile isspace = sign ++ subject → ∃ t : IntegerText, t.text = s := by
    intro sign hsign htext
    refine ⟨⟨s.takeWhile isspace, sign, subject, hspaces, hsign, hdigits, hnumeric⟩, ?_⟩
    rw [IntegerText.text, ← htext, hsplit]
  by_cases hsigned : (s.dropWhile isspace).head? = some (chr '-') ∨
      (s.dropWhile isspace).head? = some (chr '+')
  · rw [if_pos hsigned] at hsubject
    rcases hsigned with hsign | hsign
    · obtain ⟨tail, htail⟩ := List.head?_eq_some_iff.mp hsign
      exact key [chr '-'] (by simp) (by rw [← hsubject, htail]; rfl)
    · obtain ⟨tail, htail⟩ := List.head?_eq_some_iff.mp hsign
      exact key [chr '+'] (by simp) (by rw [← hsubject, htail]; rfl)
  · rw [if_neg hsigned] at hsubject
    exact key [] (by simp) hsubject

/-- A text denotes one integer. -/
theorem IntegerText.value_unique {t u : IntegerText} (h : t.text = u.text) : t.value = u.value := by
  have hsigned : t.sign ++ t.digits = u.sign ++ u.digits := by
    rw [← t.dropWhile_text, h, u.dropWhile_text]
  have hdigits : t.digits = u.digits := by
    rw [← t.subject, hsigned, u.subject]
  have hsign : t.sign = u.sign := by
    rw [hdigits] at hsigned
    exact List.append_cancel_right hsigned
  rw [value, value, hsign, hdigits]

end Libc
