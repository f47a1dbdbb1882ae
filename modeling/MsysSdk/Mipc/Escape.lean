import MsysSdk.Mipc.Send
import MsysSdk.Mipc.Accessors

/-! The two passes of the escaper agree, and what they write is the body of a string literal
that the accessor decodes to the input. -/

namespace Msys.Mipc
open Libc Json

theorem shortEscaped_some {b e : UInt8} (h : shortEscaped b = some e) :
    shortEscape e = some b ∧ ofByte e ∈ shortEscapes ∧ e ≠ chr 'u' ∧ addition b = 2 := by
  unfold shortEscaped at h
  split_ifs at h with h₁ h₂ h₃ h₄ h₅ h₆ h₇ <;> cases h <;> subst b <;> decide +kernel

theorem shortEscaped_none {b : UInt8} (h : shortEscaped b = none) :
    b ≠ chr '"' ∧ b ≠ chr '\\' ∧ addition b = if b < 0x20 then 6 else 1 := by
  unfold shortEscaped at h
  split_ifs at h with h₁ h₂ h₃ h₄ h₅ h₆ h₇
  simp [addition, *]

/-- The two digits that stand for a control character. -/
theorem hex_control : ∀ n < 0x20, isHex (hex (UInt8.ofNat n >>> 4)) = true ∧
    isHex (hex (UInt8.ofNat n)) = true ∧
    decodeHexQuad [chr '0', chr '0', hex (UInt8.ofNat n >>> 4), hex (UInt8.ofNat n)] = some n := by
  decide +kernel

theorem decodeHexQuad_append (h₁ h₂ h₃ h₄ : UInt8) (rest : Bytes) :
    decodeHexQuad (h₁ :: h₂ :: h₃ :: h₄ :: rest) = decodeHexQuad [h₁, h₂, h₃, h₄] := rfl

theorem decodeUnicode_control {b : UInt8} (h : b < 0x20) (rest : Bytes) :
    decodeUnicode (chr '0' :: chr '0' :: hex (b >>> 4) :: hex b :: rest) = some ([b], rest) := by
  have hn : b.toNat < 0x20 := h
  have hquad := (hex_control b.toNat hn).2.2
  rw [UInt8.ofNat_toNat] at hquad
  rw [decodeUnicode, decodeHexQuad_append, hquad]
  have hhigh : ¬0xD800 ≤ b.toNat := by omega
  have hlow : ¬0xDC00 ≤ b.toNat := by omega
  have hascii : b.toNat ≤ 0x7F := by omega
  simp [hhigh, hlow, encodeUtf8, hascii]

/-- Each byte written by the escaper is one chunk of the decoder. -/
theorem chunk_escapeByte (b : UInt8) : Chunk (escapeByte b) [b] := by
  unfold escapeByte
  cases hb : shortEscaped b with
  | some e =>
    obtain ⟨hdecode, -, hu, -⟩ := shortEscaped_some hb
    exact ⟨by simp, fun rest => by simp [decodeNext, hu, hdecode]⟩
  | none =>
    obtain ⟨-, hbackslash, -⟩ := shortEscaped_none hb
    by_cases hcontrol : b < 0x20
    · refine ⟨by simp [hcontrol], fun rest => ?_⟩
      have hunicode := decodeUnicode_control hcontrol rest
      simpa [hcontrol, decodeNext] using hunicode
    · exact ⟨by simp [hcontrol], fun rest => by simp [hcontrol, decodeNext, hbackslash]⟩

theorem length_escapeByte (b : UInt8) : (escapeByte b).length = addition b := by
  unfold escapeByte
  cases hb : shortEscaped b with
  | some e => simp [(shortEscaped_some hb).2.2.2]
  | none =>
    rw [(shortEscaped_none hb).2.2]
    split_ifs with hcontrol <;> simp

/-- The sizing pass counts what the writing pass emits. -/
theorem length_writeEscaped {outputLength n : Nat} {input : Bytes}
    (h : escapedLength outputLength input = some n) :
    outputLength + (writeEscaped input).length = n := by
  induction input generalizing outputLength with
  | nil => simpa [escapedLength, writeEscaped] using h
  | cons b input ih =>
    rw [escapedLength] at h
    split_ifs at h
    have hrest := ih h
    have hcons : writeEscaped (b :: input) = escapeByte b ++ writeEscaped input := rfl
    rw [hcons, List.length_append, length_escapeByte]
    omega

theorem escapedJsonString_ok {allocated : Bool} {input : Option Bytes} {escaped : Bytes}
    (h : escapedJsonString allocated input = .ok escaped) :
    ∃ s, input = some s ∧ s.length ≤ maxPacket ∧ escaped = writeEscaped s := by
  cases input with
  | none => cases h
  | some s =>
    rw [escapedJsonString] at h
    by_cases hsize : s.length > maxPacket
    · simp [hsize] at h
    · rw [if_neg hsize] at h
      cases hlength : escapedLength 0 s with
      | none => simp [hlength] at h
      | some n =>
        cases allocated with
        | false => simp [hlength] at h
        | true =>
          simp only [hlength, if_true, Except.ok.injEq] at h
          exact ⟨s, rfl, by omega, h.symm⟩

/-- The byte as it stands in the literal. -/
def pieceOf (b : UInt8) : Piece UInt8 :=
  match shortEscaped b with
  | some e => .escape (ofByte e)
  | none =>
    if b < 0x20 then .unicode '0' '0' (ofByte (hex (b >>> 4))) (ofByte (hex b)) else .plain b

theorem pieceOf_text (b : UInt8) : (pieceOf b).text dialect = escapeByte b := by
  unfold pieceOf escapeByte
  cases shortEscaped b with
  | some e => simp [Piece.text]
  | none => split_ifs <;> simp [Piece.text]

theorem pieceOf_valid (b : UInt8) : (pieceOf b).Valid dialect := by
  unfold pieceOf
  cases hb : shortEscaped b with
  | some e => exact (shortEscaped_some hb).2.1
  | none =>
    obtain ⟨hquote, hbackslash, -⟩ := shortEscaped_none hb
    by_cases hcontrol : b < 0x20
    · have hn : b.toNat < 0x20 := hcontrol
      have hhex := hex_control b.toNat hn
      rw [UInt8.ofNat_toNat] at hhex
      simp only [if_pos hcontrol]
      exact ⟨rfl, rfl, by rw [isHex_ofByte]; exact hhex.1, by rw [isHex_ofByte]; exact hhex.2.1⟩
    · simp only [if_neg hcontrol]
      show dialect.plain b = true
      have hlow : (0x20 : UInt8) ≤ b := UInt8.not_lt.mp hcontrol
      simp [dialect, hquote, hbackslash, hlow]

theorem bodyText_pieceOf (s : Bytes) : bodyText dialect (s.map pieceOf) = writeEscaped s := by
  induction s with
  | nil => rfl
  | cons b s ih =>
    have hcons : bodyText dialect ((b :: s).map pieceOf) =
      (pieceOf b).text dialect ++ bodyText dialect (s.map pieceOf) := rfl
    rw [hcons, ih, pieceOf_text]
    rfl

end Msys.Mipc
