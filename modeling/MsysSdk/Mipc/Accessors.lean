import MsysSdk.Mipc.Lookup
import Mathlib.Data.Nat.Digits.Defs

/-! What the string and integer accessors make of a value. A string literal is read chunk by
chunk, each one a round of the decoding loop, and stored as far as it fits; an integer is its
digits' value while that fits. -/

namespace Msys.Mipc
open Libc Json

/-! ### Integers -/

theorem le_ofDigitChars (cs : List Char) (n : Nat) : n ≤ Nat.ofDigitChars 10 cs n := by
  induction cs generalizing n with
  | nil => simp
  | cons c cs ih =>
    rw [Nat.ofDigitChars_cons]
    exact le_trans (by omega) (ih _)

theorem isDigit_bounds {c : Char} (h : c.isDigit = true) : 48 ≤ c.toNat ∧ c.toNat ≤ 57 := by
  simpa [← Ascii.isDigit_toNat, Ascii.isDigit] using h

theorem parseDigits_chars {cs : List Char} (hcs : ∀ c ∈ cs, c.isDigit = true) {parsed : Nat}
    (hp : parsed ≤ uint64Max) {rest : Bytes} (hrest : startsWith isdigit rest = false) :
    parseDigits parsed (cs.map chr ++ rest) =
      if Nat.ofDigitChars 10 cs parsed ≤ uint64Max then
        some (Nat.ofDigitChars 10 cs parsed, rest)
      else none := by
  induction cs generalizing parsed with
  | nil =>
    rw [List.map_nil, List.nil_append, Nat.ofDigitChars_nil, if_pos hp]
    cases rest with
    | nil => rfl
    | cons b rest =>
      rw [startsWith_cons] at hrest
      rw [parseDigits, hrest]
      simp
  | cons c cs ih =>
    have hc := hcs c List.mem_cons_self
    obtain ⟨hlo, hhi⟩ := isDigit_bounds hc
    have hbyte : (chr c).toNat = c.toNat := toNat_chr (by omega)
    have hzero : '0'.toNat = 48 := rfl
    rw [List.map_cons, List.cons_append, parseDigits, if_pos (isdigit_chr hc),
      Nat.ofDigitChars_cons, hbyte, hzero, mul_comm parsed 10]
    have hnext := le_ofDigitChars cs (10 * parsed + (c.toNat - 48))
    by_cases hbig : parsed > (uint64Max - (c.toNat - 48)) / 10
    · rw [if_pos hbig, if_neg]
      have hover : uint64Max < 10 * parsed + (c.toNat - 48) := by
        unfold uint64Max at hbig ⊢
        omega
      omega
    · rw [if_neg hbig]
      refine ih (fun d hd => hcs d (List.mem_cons_of_mem _ hd)) ?_
      unfold uint64Max at hbig ⊢
      omega

theorem parseDigits_digits {s : Bytes} {parsed n : Nat} (h : parseDigits parsed s = some (n, [])) :
    ∀ b ∈ s, isdigit b = true := by
  induction s generalizing parsed with
  | nil => simp
  | cons b s ih =>
    rw [parseDigits] at h
    by_cases hb : isdigit b = true
    · rw [if_pos hb] at h
      dsimp only at h
      split_ifs at h
      exact List.forall_mem_cons.mpr ⟨hb, ih h⟩
    · rw [if_neg hb] at h
      cases h

/-- The rest of `msys_mipc_json_get_u64` once the field is found. -/
theorem jsonGetU64_eq {json key value tail : Bytes}
    (h : findTopLevelValue json key = .ok (value ++ tail, tail)) :
    jsonGetU64 json key =
      if startsWith isdigit value = false then (.invalidJson, 0)
      else
        match parseDigits 0 value with
        | some (parsed, []) => (.ok, parsed)
        | _ => (.invalidJson, 0) := by
  rw [jsonGetU64, h]
  show (if startsWith isdigit (between (value ++ tail) tail) = false then (Result.invalidJson, 0)
    else match parseDigits 0 (between (value ++ tail) tail) with
      | some (parsed, []) => (.ok, parsed)
      | _ => (.invalidJson, 0)) = _
  rw [between_append]

/-- The digits of a number. -/
theorem jsonGetU64_digits {json key tail : Bytes} (d : Digits)
    (h : findTopLevelValue json key = .ok (d.text dialect ++ tail, tail)) :
    jsonGetU64 json key =
      if Nat.ofDigitChars 10 d.chars 0 ≤ uint64Max then (.ok, Nat.ofDigitChars 10 d.chars 0)
      else (.invalidJson, 0) := by
  have hparse := @parseDigits_chars _ d.digits 0 (by decide) [] rfl
  have hstart : startsWith isdigit (d.text dialect) = true := by
    have := Digits.startsWith d []
    rwa [List.append_nil] at this
  rw [List.append_nil] at hparse
  have htext : d.text dialect = d.chars.map chr := rfl
  rw [jsonGetU64_eq h, hstart, htext, hparse]
  split_ifs <;> simp_all

/-! ### Strings -/

/-- A non-empty piece of a string body that one round of the loop reads whole. -/
def Chunk (source decoded : Bytes) : Prop :=
  source ≠ [] ∧ ∀ rest, decodeNext (source ++ rest) = some (decoded, rest)

theorem storeBytes_append (capacity : Nat) (m : Buffer) (written : Nat) (s t : Bytes) :
    storeBytes capacity m written (s ++ t) =
      storeBytes capacity (storeBytes capacity m written s) (written + s.length) t := by
  induction s generalizing m written with
  | nil => rfl
  | cons b s ih =>
    rw [List.cons_append, storeBytes, ih, storeBytes, List.length_cons]
    congr 1
    omega

/-- What the loop leaves in memory: the bytes that leave room for the NUL. -/
theorem storeBytes_apply (capacity : Nat) (m : Buffer) (written : Nat) (s : Bytes) (j : Nat) :
    storeBytes capacity m written s j =
      if written ≤ j ∧ j + 1 < capacity then (s[j - written]?).getD (m j) else m j := by
  induction s generalizing m written with
  | nil => simp [storeBytes]
  | cons b s ih =>
    rw [storeBytes, ih]
    have hother : j ≠ written → (if written + 1 < capacity then Function.update m written b else m) j
        = m j := by
      intro hne
      split_ifs
      · exact Function.update_of_ne hne _ _
      · rfl
    rcases lt_trichotomy j written with hlt | rfl | hgt
    · have hout : ¬(written + 1 ≤ j ∧ j + 1 < capacity) := by omega
      have hout' : ¬(written ≤ j ∧ j + 1 < capacity) := by omega
      rw [if_neg hout, if_neg hout', hother (by omega)]
    · rw [if_neg (by omega)]
      by_cases hroom : j + 1 < capacity <;> simp [hroom]
    · obtain ⟨k, rfl⟩ : ∃ k, j = written + 1 + k := ⟨j - (written + 1), by omega⟩
      have h₁ : written + 1 + k - (written + 1) = k := by omega
      have h₂ : written + 1 + k - written = k + 1 := by omega
      rw [h₁, h₂, List.getElem?_cons_succ, hother (by omega)]
      congr 1
      simp only [eq_iff_iff]
      omega

theorem storeBytes_outside {capacity : Nat} {m : Buffer} {written : Nat} {s : Bytes} {j : Nat}
    (h : capacity ≤ j + 1) : storeBytes capacity m written s j = m j := by
  rw [storeBytes_apply, if_neg (by omega)]

/-- The bytes that leave room for the NUL, and the NUL behind them. -/
theorem holds_take {capacity : Nat} (hc : 1 ≤ capacity) (m : Buffer) (s : Bytes) :
    Buffer.holds (Function.update (storeBytes capacity m 0 s) (min s.length (capacity - 1)) 0)
      (s.take (capacity - 1)) := by
  have hlength : (s.take (capacity - 1)).length = min s.length (capacity - 1) := by
    rw [List.length_take, Nat.min_comm]
  refine ⟨List.ext_getElem (by simp [Buffer.read]) fun j hj hs => ?_, by simp [hlength]⟩
  rw [hlength] at hs
  simp only [Buffer.read, List.getElem_map, List.getElem_range, List.getElem_take]
  rw [Function.update_of_ne (by omega), storeBytes_apply, if_pos ⟨by omega, by omega⟩]
  simp [show j < s.length by omega]

end Msys.Mipc
