import MsysSdk.Mipc.Accessors
import MsysSdk.Mipc.Finding
import MsysSdk.Text.Decimal

/-! The integer accessor on every value that the lookup lets through: the number its digits
denote while that fits a `uint64_t`, and a refusal of everything else. The loop over the digits
never forms a number that does not fit. -/

namespace Msys.Mipc
open Libc Json

/-- The text consists only of decimal digits, and denotes `n`. -/
def Denotes (s : Bytes) (n : Nat) : Prop :=
  s ≠ [] ∧ (∀ b ∈ s, isdigit b = true) ∧ decimalValue s = n

/-- The products and the sums that the loop over the digits forms, in order. -/
def digitResults : Nat → Bytes → List Nat
  | _, [] => []
  | parsed, b :: rest =>
    if isdigit b then
      let digit := b.toNat - 48
      if parsed > (uint64Max - digit) / 10 then []
      else parsed * 10 :: (parsed * 10 + digit) :: digitResults (parsed * 10 + digit) rest
    else []

theorem ofDigitChars_eq_decimalValue {cs : List Char} (hcs : ∀ c ∈ cs, c.isDigit = true) :
    Nat.ofDigitChars 10 cs 0 = decimalValue (cs.map chr) := by
  induction cs using List.reverseRecOn with
  | nil => rfl
  | append_singleton cs c ih =>
    have hc := isDigit_bounds (hcs c (by simp))
    have hzero : '0'.toNat = 48 := rfl
    rw [Nat.ofDigitChars_append, ih fun d hd => hcs d (by simp [hd]), List.map_append,
      List.map_singleton, decimalValue_concat, Nat.ofDigitChars_cons, Nat.ofDigitChars_nil,
      toNat_chr (by omega), hzero]

/-! ### The loop -/

/-- One round that the guard lets pass keeps the number within the type. -/
theorem digit_fits {parsed digit : Nat} (hd : digit ≤ 9)
    (h : ¬parsed > (uint64Max - digit) / 10) : parsed * 10 + digit ≤ uint64Max := by
  have hmul : parsed * 10 ≤ uint64Max - digit :=
    (Nat.le_div_iff_mul_le (by decide)).mp (Nat.le_of_not_lt h)
  have hdigit : digit ≤ uint64Max := hd.trans (by decide)
  omega

theorem digit_le {b : UInt8} (h : isdigit b = true) : b.toNat - 48 ≤ 9 := by
  simp only [isdigit, Ascii.isDigit, Bool.and_eq_true, decide_eq_true_eq] at h
  omega

theorem digitResults_le (parsed : Nat) (s : Bytes) :
    ∀ n ∈ digitResults parsed s, n ≤ uint64Max := by
  induction s generalizing parsed with
  | nil => simp [digitResults]
  | cons b rest ih =>
    rw [digitResults]
    by_cases hb : isdigit b = true
    swap
    · simp [hb]
    rw [if_pos hb]
    dsimp only
    split_ifs with hguard
    · simp
    have hsum := digit_fits (digit_le hb) hguard
    refine List.forall_mem_cons.mpr ⟨?_, List.forall_mem_cons.mpr ⟨hsum, ih _⟩⟩
    exact (Nat.le_add_right _ _).trans hsum

/-- The loop as the machine runs it, on a `uint64_t` whose arithmetic wraps. -/
def parseDigitsWord : UInt64 → Bytes → Option (UInt64 × Bytes)
  | parsed, [] => some (parsed, [])
  | parsed, b :: rest =>
    if isdigit b then
      let digit : UInt64 := b.toUInt64 - 48
      if parsed > (0xFFFFFFFFFFFFFFFF - digit) / 10 then none
      else parseDigitsWord (parsed * 10 + digit) rest
    else some (parsed, b :: rest)

theorem digit_word {b : UInt8} (h : isdigit b = true) :
    (b.toUInt64 - 48 : UInt64).toNat = b.toNat - 48 := by
  simp only [isdigit, Ascii.isDigit, Bool.and_eq_true, decide_eq_true_eq] at h
  have hle : (48 : UInt64) ≤ b.toUInt64 := by
    rw [UInt64.le_iff_toNat_le]
    simpa using h.1
  rw [UInt64.toNat_sub_of_le _ _ hle]
  simp

/-- No step of the loop wraps: the machine computes the numbers themselves. -/
theorem parseDigitsWord_eq (parsed : UInt64) (s : Bytes) :
    (parseDigitsWord parsed s).map (fun r => (r.1.toNat, r.2)) = parseDigits parsed.toNat s := by
  induction s generalizing parsed with
  | nil => rfl
  | cons b rest ih =>
    rw [parseDigitsWord, parseDigits]
    by_cases hb : isdigit b = true
    swap
    · simp [hb]
    have hdigit := digit_word hb
    have hnine := digit_le hb
    have hguard : parsed > (0xFFFFFFFFFFFFFFFF - (b.toUInt64 - 48)) / 10 ↔
        parsed.toNat > (uint64Max - (b.toNat - 48)) / 10 := by
      have hle : b.toUInt64 - 48 ≤ (0xFFFFFFFFFFFFFFFF : UInt64) := by
        rw [UInt64.le_iff_toNat_le, hdigit]
        exact hnine.trans (by decide)
      rw [gt_iff_lt, UInt64.lt_iff_toNat_lt, UInt64.toNat_div, UInt64.toNat_sub_of_le _ _ hle,
        hdigit]
      rfl
    rw [if_pos hb, if_pos hb]
    dsimp only
    by_cases hbig : parsed.toNat > (uint64Max - (b.toNat - 48)) / 10
    · rw [if_pos hbig, if_pos (hguard.mpr hbig)]
      rfl
    rw [if_neg hbig, if_neg (mt hguard.mp hbig), ih]
    have hsum := digit_fits hnine hbig
    have hnowrap : (parsed * 10 + (b.toUInt64 - 48)).toNat =
        parsed.toNat * 10 + (b.toNat - 48) := by
      have hten : (10 : UInt64).toNat = 10 := rfl
      rw [UInt64.toNat_add, UInt64.toNat_mul, hdigit, hten]
      unfold uint64Max at hsum
      omega
    rw [hnowrap]

/-! ### The accessor -/

theorem jsonGetU64_denotes {json key tail v : Bytes} {n : Nat}
    (h : findTopLevelValue json key = .ok (v ++ tail, tail)) (hv : Denotes v n) :
    jsonGetU64 json key = if n ≤ uint64Max then (.ok, n) else (.invalidJson, 0) := by
  obtain ⟨hne, hdigits, rfl⟩ := hv
  have hchars : (v.map ofByte).map chr = v := by simp [Function.comp_def]
  let d : Digits := ⟨v.map ofByte, by simpa using hne, by
    intro c hc
    obtain ⟨b, hb, rfl⟩ := List.mem_map.mp hc
    exact isDigit_ofByte (hdigits b hb)⟩
  have htext : d.text dialect = v := hchars
  have hvalue : Nat.ofDigitChars 10 d.chars 0 = decimalValue v := by
    rw [ofDigitChars_eq_decimalValue d.digits]
    exact congrArg decimalValue hchars
  rw [← htext] at h
  rw [jsonGetU64_digits d h, hvalue]

/-- A value with anything but digits in it is refused, wherever the loop stops. -/
theorem jsonGetU64_other {json key tail v : Bytes}
    (h : findTopLevelValue json key = .ok (v ++ tail, tail))
    (hv : ¬(v ≠ [] ∧ ∀ b ∈ v, isdigit b = true)) :
    jsonGetU64 json key = (.invalidJson, 0) := by
  rw [jsonGetU64_eq h]
  by_cases hstart : startsWith isdigit v = false
  · rw [if_pos hstart]
  rw [if_neg hstart]
  cases hparse : parseDigits 0 v with
  | none => rfl
  | some r =>
    obtain ⟨parsed, rest⟩ := r
    cases rest with
    | cons b rest => rfl
    | nil =>
      refine absurd ⟨?_, parseDigits_digits hparse⟩ hv
      rintro rfl
      exact hstart rfl

/-- The accessor answers exactly the integers that the type holds, and nothing on the way to an
answer or to a refusal wraps. -/
theorem jsonGetU64_exact {json key v tail : Bytes} (h : FieldAt json key v tail) :
    (∀ n, jsonGetU64 json key = (.ok, n) ↔ Denotes v n ∧ n ≤ uint64Max) ∧
      ((¬∃ n, Denotes v n ∧ n ≤ uint64Max) → jsonGetU64 json key = (.invalidJson, 0)) ∧
      (∀ n ∈ digitResults 0 v, n ≤ uint64Max) ∧
      (parseDigitsWord 0 v).map (fun r => (r.1.toNat, r.2)) = parseDigits 0 v := by
  have hloop := And.intro (digitResults_le 0 v) (parseDigitsWord_eq 0 v)
  have hfind := findTopLevelValue_iff.mpr h
  by_cases hdigits : v ≠ [] ∧ ∀ b ∈ v, isdigit b = true
  · have hv : Denotes v (decimalValue v) := ⟨hdigits.1, hdigits.2, rfl⟩
    have hget := jsonGetU64_denotes hfind hv
    refine ⟨fun n => ⟨fun hn => ?_, ?_⟩, fun hnone => ?_, hloop⟩
    · rw [hget] at hn
      split_ifs at hn with hle
      · cases hn
        exact ⟨hv, hle⟩
      · cases hn
    · rintro ⟨hn, hle⟩
      rw [jsonGetU64_denotes hfind hn, if_pos hle]
    · rw [hget, if_neg]
      exact fun hle => hnone ⟨_, hv, hle⟩
  · have hget := jsonGetU64_other hfind hdigits
    refine ⟨fun n => ⟨fun hn => ?_, ?_⟩, fun _ => hget, hloop⟩
    · rw [hget] at hn
      cases hn
    · rintro ⟨hn, -⟩
      exact absurd ⟨hn.1, hn.2.1⟩ hdigits

theorem jsonGetU64_largest :
    jsonGetU64 (text "\x7b\"a\": 18446744073709551615\x7d") (text "a") = (.ok, uint64Max) := by
  have hfield : FieldAt (text "\x7b\"a\": 18446744073709551615\x7d") (text "a")
      (text "18446744073709551615") (text "\x7d") :=
    findTopLevelValue_iff.mp (by decide +kernel)
  apply ((jsonGetU64_exact hfield).1 uint64Max).mpr
  exact ⟨⟨by decide, by decide +kernel, by decide +kernel⟩, le_rfl⟩

end Msys.Mipc
