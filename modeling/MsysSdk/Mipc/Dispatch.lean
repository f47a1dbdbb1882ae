import MsysSdk.Mipc.Strings
import Mathlib.Data.List.TakeWhile

/-! The callers of `msys_mipc_json_get_string` compare what it leaves in the buffer as a C string
and do not look at its length. That tells two strings apart unless they differ only behind a NUL,
which a literal can spell as an escape. -/

namespace Msys.Mipc
open Libc Json

/-- A call that returns `OK`. -/
structure Reading where
  json : CString
  key : CString
  buffer : Buffer
  capacity : Nat
  ok : (jsonGetString json.bytes key.bytes buffer capacity).result = .ok

def Reading.result (a : Reading) : StringResult :=
  jsonGetString a.json.bytes a.key.bytes a.buffer a.capacity

/-- The C string in the buffer, as `strlen` and `strcmp` see it. -/
def Reading.string (a : Reading) : Bytes := a.result.buffer.string a.capacity

/-- The literal that is read. -/
def Reading.Literal (a : Reading) (body : List (Piece UInt8)) : Prop := StringAt a.json a.key body

theorem Reading.capacity_pos (a : Reading) : 1 ≤ a.capacity := by
  by_contra h
  have hok := a.ok
  rw [jsonGetString, if_pos (by omega)] at hok
  cases hok

/-- The value that is read is a string literal. -/
theorem Reading.exists_literal (a : Reading) : ∃ body, a.Literal body := by
  by_contra h
  obtain ⟨e, hok, -, hcall⟩ := jsonGetString_other (not_exists.mp h) a.buffer a.capacity_pos
  have hresult := a.ok
  rw [hcall] at hresult
  exact hok hresult

/-! ### Up to the first NUL -/

def beforeNul (decoded : List Decoded) : List Decoded := decoded.takeWhile (· ≠ .byte 0)

theorem byte_injective : Function.Injective Decoded.byte := fun _ _ h => Decoded.byte.inj h

theorem beforeNul_bytes (s : Bytes) :
    beforeNul (s.map .byte) = (s.takeWhile (· ≠ 0)).map .byte := by
  rw [beforeNul, List.takeWhile_map]
  congr 2
  funext b
  simp

theorem takeWhile_stops {α : Type} {p : α → Bool} (s : List α) {b : α} (hb : p b = false)
    (t : List α) : (s ++ b :: t).takeWhile p = s.takeWhile p := by
  induction s with
  | nil => simp [hb]
  | cons a s ih =>
    rw [List.cons_append, List.takeWhile_cons, List.takeWhile_cons, ih]

theorem read_take (m : Buffer) {k n : Nat} (h : k ≤ n) : (m.read n).take k = m.read k := by
  rw [Buffer.read, ← List.map_take, List.take_range, Nat.min_eq_left h]
  rfl

/-- The C string in a buffer that holds `s`. -/
theorem string_of_holds {m : Buffer} {s : Bytes} (h : m.holds s) {capacity : Nat}
    (hroom : s.length < capacity) : m.string capacity = s.takeWhile (· ≠ 0) := by
  obtain ⟨hread, hnul⟩ := h
  have hlength : s.length < (m.read capacity).length := by simpa [Buffer.read] using hroom
  have hat : (m.read capacity)[s.length] = 0 := by simpa [Buffer.read] using hnul
  rw [Buffer.string, ← List.take_append_drop s.length (m.read capacity),
    List.drop_eq_getElem_cons hlength, hat, read_take m hroom.le, hread]
  exact takeWhile_stops s (by decide) _

theorem Reading.string_eq {a : Reading} {body : List (Piece UInt8)} (h : a.Literal body) :
    unpaired (decode body) = false ∧ a.result.length = (decode body).length ∧
      a.string.map .byte = beforeNul (decode body) := by
  have hexact := jsonGetString_exact h a.buffer a.capacity_pos
  have hok : a.result.result = .ok := a.ok
  cases hpaired : unpaired (decode body) with
  | true =>
    have hbroken := hexact.broken hpaired
    rw [a.ok] at hbroken
    cases hbroken
  | false =>
    obtain ⟨s, hs, hlength, hholds, hresult⟩ := hexact.whole hpaired
    have hroom : s.length < a.capacity := by
      by_contra hsmall
      rw [if_neg hsmall, a.ok] at hresult
      cases hresult
    rw [List.take_of_length_le (by omega)] at hholds
    refine ⟨rfl, ?_, ?_⟩
    · rw [hs, List.length_map]
      exact hlength
    · rw [hs, beforeNul_bytes]
      exact congrArg (List.map Decoded.byte) (string_of_holds hholds hroom)

/-! ### The escape of the NUL -/

def nulEscape : Piece UInt8 := .unicode '0' '0' '0' '0'

theorem zero_ne_ofNat {k : Nat} (h : 0 < k) (hk : k < 256) : (0 : UInt8) ≠ .ofNat k := by
  intro heq
  have hval := congrArg UInt8.toNat heq
  rw [UInt8.toNat_ofNat', Nat.mod_eq_of_lt hk] at hval
  exact h.ne hval

/-- The UTF-8 form of no other character has a NUL in it. -/
theorem nul_mem_scalar {n : Nat} (h : n.isValidChar) : .byte 0 ∈ scalar n ↔ n = 0 := by
  have hval : (Char.ofNat n).val.toNat = n := by
    rw [Char.ofNat, dif_pos h]
    rfl
  have hmax : n < 0x110000 := by
    rcases h with h | h <;> omega
  rw [scalar, List.mem_map_of_injective byte_injective, String.utf8EncodeChar]
  simp only [hval]
  by_cases hzero : n = 0
  · simp [hzero]
  have hbyte := fun k (hpos : 0 < k) (hk : k < 256) => zero_ne_ofNat hpos hk
  refine iff_of_false ?_ hzero
  split_ifs with h₁ h₂ h₃ <;> simp only [List.mem_cons, List.not_mem_nil, or_false, not_or]
  · exact hbyte _ (by omega) (by omega)
  · exact ⟨hbyte _ (by omega) (by omega), hbyte _ (by omega) (by omega)⟩
  · exact ⟨hbyte _ (by omega) (by omega), hbyte _ (by omega) (by omega),
      hbyte _ (by omega) (by omega)⟩
  · exact ⟨hbyte _ (by omega) (by omega), hbyte _ (by omega) (by omega),
      hbyte _ (by omega) (by omega), hbyte _ (by omega) (by omega)⟩

theorem hexDigit_zero {c : Char} (h : Json.isHex c = true) : hexDigit c = 0 ↔ c = '0' := by
  have key : ∀ n < 128, (Ascii.hexValue n).isSome = true →
      ((Ascii.hexValue n).getD 0 = 0 ↔ n = 48) := by decide
  rw [← Char.toNat_inj]
  exact key c.toNat (lt_of_isHex h) h

theorem hexQuad_zero {h₁ h₂ h₃ h₄ : Char}
    (h : (Piece.unicode h₁ h₂ h₃ h₄ : Piece UInt8).Valid dialect) :
    hexQuad h₁ h₂ h₃ h₄ = 0 ↔ Piece.unicode h₁ h₂ h₃ h₄ = nulEscape := by
  obtain ⟨v₁, v₂, v₃, v₄⟩ := h
  rw [nulEscape, Piece.unicode.injEq, ← hexDigit_zero v₁, ← hexDigit_zero v₂, ← hexDigit_zero v₃,
    ← hexDigit_zero v₄, hexQuad]
  omega

theorem nul_mem_codeUnit {h₁ h₂ h₃ h₄ : Char}
    (h : (Piece.unicode h₁ h₂ h₃ h₄ : Piece UInt8).Valid dialect) :
    .byte 0 ∈ codeUnit (hexQuad h₁ h₂ h₃ h₄) ↔ nulEscape = .unicode h₁ h₂ h₃ h₄ := by
  rw [eq_comm, ← hexQuad_zero h, codeUnit]
  cases hsurrogate : isHigh (hexQuad h₁ h₂ h₃ h₄) || isLow (hexQuad h₁ h₂ h₃ h₄) with
  | true =>
    refine iff_of_false (by simp) fun hzero => ?_
    rw [hzero] at hsurrogate
    cases hsurrogate
  | false =>
    obtain ⟨hhigh, hlow⟩ := Bool.or_eq_false_iff.mp hsurrogate
    exact nul_mem_scalar (valid_of_unit (hexQuad_lt h) hhigh hlow)

/-- Only the escape of the NUL denotes one. -/
theorem nul_mem_decode {body : List (Piece UInt8)} (h : ∀ p ∈ body, p.Valid dialect) :
    .byte 0 ∈ decode body ↔ nulEscape ∈ body := by
  induction body using decode.induct with
  | case1 => simp [decode]
  | case2 b body ih =>
    obtain ⟨hp, hbody⟩ := List.forall_mem_cons.mp h
    have hb : (0 : UInt8) ≠ b := by
      rintro rfl
      exact absurd hp (by decide)
    simp [decode, ih hbody, hb, nulEscape]
  | case3 c body ih =>
    obtain ⟨hp, hbody⟩ := List.forall_mem_cons.mp h
    have key : shortEscapes.all (fun c => decide (0 ≠ shortEscapeValue c)) = true := by decide
    have hc : 0 ≠ shortEscapeValue c := of_decide_eq_true (List.all_eq_true.mp key c hp)
    simp [decode, ih hbody, hc, nulEscape]
  | case4 a b c d e f g k body hpair ih =>
    obtain ⟨hp, hrest⟩ := List.forall_mem_cons.mp h
    obtain ⟨hq, hbody⟩ := List.forall_mem_cons.mp hrest
    obtain ⟨hhigh, hlow⟩ := Bool.and_eq_true_iff.mp hpair
    -- neither half of the pair is the NUL, and together they are above the other planes
    have hfirst : nulEscape ≠ .unicode a b c d := by
      intro heq
      rw [(hexQuad_zero hp).mpr heq.symm] at hhigh
      cases hhigh
    have hsecond : nulEscape ≠ .unicode e f g k := by
      intro heq
      rw [(hexQuad_zero hq).mpr heq.symm] at hlow
      cases hlow
    have hscalar := (nul_mem_scalar (valid_of_pair hhigh hlow)).not.mpr (by omega)
    rw [decode, if_pos hpair, List.mem_append, or_iff_right hscalar, ih hbody, List.mem_cons,
      List.mem_cons, or_iff_right hfirst, or_iff_right hsecond]
  | case5 a b c d e f g k body hpair ih =>
    obtain ⟨hp, hrest⟩ := List.forall_mem_cons.mp h
    rw [decode, if_neg hpair, List.mem_append, nul_mem_codeUnit hp, ih hrest]
    exact List.mem_cons.symm
  | case6 a b c d body hother ih =>
    obtain ⟨hp, hbody⟩ := List.forall_mem_cons.mp h
    have hdecode : decode (.unicode a b c d :: body) = codeUnit (hexQuad a b c d) ++ decode body := by
      rw [decode]
      exact hother
    rw [hdecode, List.mem_append, nul_mem_codeUnit hp, ih hbody]
    exact List.mem_cons.symm

/-! ### What the callers see -/

/-- `strlen` of the buffer is the length that is returned. -/
theorem Reading.strlen_iff {a : Reading} {body : List (Piece UInt8)} (h : a.Literal body) :
    a.string.length = a.result.length ↔ nulEscape ∉ body := by
  obtain ⟨-, hlength, hstring⟩ := Reading.string_eq h
  have hlen : a.string.length = (beforeNul (decode body)).length := by
    rw [← hstring, List.length_map]
  have hhead : beforeNul (decode body) <+: decode body := List.takeWhile_prefix _
  have hwhole : (beforeNul (decode body)).length = (decode body).length ↔
      beforeNul (decode body) = decode body := ⟨hhead.eq_of_length, congrArg List.length⟩
  rw [hlen, hlength, ← nul_mem_decode h.1, hwhole, beforeNul, List.takeWhile_eq_self_iff]
  constructor
  · intro hall hnul
    exact absurd (hall _ hnul) (by decide)
  · intro hnul d hd
    exact decide_eq_true (ne_of_mem_of_not_mem hd hnul)

/-- Comparing the C strings of two calls that return `OK`: `strlen` is the returned length exactly
if the literal has no escape of the NUL, and `strcmp` tells the two strings apart exactly if they
differ before the first NUL whenever they differ. -/
theorem dispatch_faithful (a b : Reading) :
    (∃ s, a.Literal s) ∧ (∃ t, b.Literal t) ∧ ∀ s t, a.Literal s → b.Literal t →
      (a.string.length = a.result.length ↔ nulEscape ∉ s) ∧
      ((a.string = b.string ↔ decode s = decode t) ↔
        (beforeNul (decode s) = beforeNul (decode t) → decode s = decode t)) := by
  refine ⟨a.exists_literal, b.exists_literal, fun s t hs ht => ⟨Reading.strlen_iff hs, ?_⟩⟩
  have hstrings : a.string = b.string ↔ beforeNul (decode s) = beforeNul (decode t) := by
    rw [← (Reading.string_eq hs).2.2, ← (Reading.string_eq ht).2.2, byte_injective.list_map.eq_iff]
  rw [hstrings]
  constructor
  · exact Iff.mp
  · intro h
    exact ⟨h, fun heq => congrArg beforeNul heq⟩

/-- The record with this type. -/
def typeText (value : String) : String := "\x7b\"type\":\"" ++ value ++ "\"\x7d"

/-- `shutdown` with a NUL behind it compares equal to `shutdown`. -/
theorem nul_escape_cuts : ∃ a b : Reading, ∃ s t : List (Piece UInt8),
    a.json.bytes = text (typeText "shutdown\\u0000") ∧ b.json.bytes = text (typeText "shutdown") ∧
    a.Literal s ∧ b.Literal t ∧ a.string = b.string ∧ decode s ≠ decode t ∧
    a.string.length ≠ a.result.length := by
  let body : List (Piece UInt8) := (text "shutdown").map .plain
  let json₁ := cstring (typeText "shutdown\\u0000") (by decide +kernel)
  let json₂ := cstring (typeText "shutdown") (by decide +kernel)
  let key := cstring "type" (by decide +kernel)
  refine ⟨⟨json₁, key, fun _ => 0xFF, 32, by decide +kernel⟩,
    ⟨json₂, key, fun _ => 0xFF, 32, by decide +kernel⟩, body ++ [nulEscape], body, rfl, rfl,
    ⟨by decide +kernel, text "\x7d", findTopLevelValue_iff.mp (by decide +kernel)⟩,
    ⟨by decide +kernel, text "\x7d", findTopLevelValue_iff.mp (by decide +kernel)⟩,
    by decide +kernel, by decide +kernel, by decide +kernel⟩

end Msys.Mipc
