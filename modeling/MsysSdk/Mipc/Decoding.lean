import MsysSdk.Mipc.Accessors
import MsysSdk.Mipc.Names

/-! The rounds of the decoding loop. Each reads one piece of a literal, or the two halves of a
surrogate pair, and emits the bytes they stand for; the loop stops at the first surrogate that
has no partner. -/

namespace Msys.Mipc
open Libc Json

/-! ### Code points -/

theorem hexValue_chr {c : Char} (h : Json.isHex c = true) :
    hexValue (chr c) = some (hexDigit c) := by
  have hc := lt_of_isHex h
  obtain ⟨d, hd⟩ := Option.isSome_iff_exists.mp h
  rw [hexValue, toNat_chr (by omega), hexDigit, hd]
  rfl

theorem hexDigit_lt {c : Char} (h : Json.isHex c = true) : hexDigit c < 16 := by
  have key : ∀ n < 128, (Ascii.hexValue n).getD 0 < 16 := by decide
  exact key c.toNat (lt_of_isHex h)

theorem shift_or {n d : Nat} (h : d < 16) : n <<< 4 ||| d = n * 16 + d := by
  rw [Nat.shiftLeft_eq, mul_comm]
  exact (Nat.two_pow_add_eq_or_of_lt (i := 4) h n).symm

theorem decodeHexQuad_chr {h₁ h₂ h₃ h₄ : Char}
    (h : (Piece.unicode h₁ h₂ h₃ h₄ : Piece UInt8).Valid dialect) (rest : Bytes) :
    decodeHexQuad (chr h₁ :: chr h₂ :: chr h₃ :: chr h₄ :: rest) = some (hexQuad h₁ h₂ h₃ h₄) := by
  obtain ⟨v₁, v₂, v₃, v₄⟩ := h
  simp only [decodeHexQuad, hexValue_chr v₁, hexValue_chr v₂, hexValue_chr v₃, hexValue_chr v₄]
  simp only [Option.bind_eq_bind, Option.bind_some, Option.pure_def, shift_or (hexDigit_lt v₂),
    shift_or (hexDigit_lt v₃), shift_or (hexDigit_lt v₄), hexQuad]

theorem hexQuad_lt {h₁ h₂ h₃ h₄ : Char}
    (h : (Piece.unicode h₁ h₂ h₃ h₄ : Piece UInt8).Valid dialect) : hexQuad h₁ h₂ h₃ h₄ < 0x10000 := by
  obtain ⟨v₁, v₂, v₃, v₄⟩ := h
  have b₁ := hexDigit_lt v₁
  have b₂ := hexDigit_lt v₂
  have b₃ := hexDigit_lt v₃
  have b₄ := hexDigit_lt v₄
  rw [hexQuad]
  omega

/-- A marker in the high bits of a byte, and a value in the low ones. -/
theorem marker_or {i b : Nat} (h : b < 2 ^ i) (a : Nat) : 2 ^ i * a ||| b = b + 2 ^ i * a := by
  rw [← Nat.two_pow_add_eq_or_of_lt h, Nat.add_comm]

theorem continuation (n : Nat) : 0x80 ||| n &&& 0x3F = n % 0x40 + 0x80 := by
  have hmod : n &&& 0x3F = n % 0x40 := Nat.and_two_pow_sub_one_eq_mod n 6
  rw [hmod]
  exact marker_or (i := 7) (by omega) 1

/-- `encode_utf8` is the UTF-8 form. -/
theorem encodeUtf8_eq {n : Nat} (h : n.isValidChar) :
    encodeUtf8 n = String.utf8EncodeChar (Char.ofNat n) := by
  have hmax : n < 0x110000 := by
    rcases h with h | h <;> omega
  have hval : (Char.ofNat n).val.toNat = n := by
    rw [Char.ofNat, dif_pos h]
    rfl
  rw [encodeUtf8, String.utf8EncodeChar]
  simp only [hval, continuation, Nat.shiftRight_eq_div_pow]
  split_ifs with h₁ h₂ h₃
  · rfl
  · have hlead : 0xC0 ||| n / 2 ^ 6 = n / 64 % 0x20 + 0xC0 := by
      rw [Nat.mod_eq_of_lt (by omega)]
      exact marker_or (i := 6) (by omega) 3
    rw [hlead]
  · have hlead : 0xE0 ||| n / 2 ^ 12 = n / 4096 % 0x10 + 0xE0 := by
      rw [Nat.mod_eq_of_lt (by omega)]
      exact marker_or (i := 5) (by omega) 7
    rw [hlead]
  · have hlead : 0xF0 ||| n / 2 ^ 18 = n / 262144 % 0x08 + 0xF0 := by
      rw [Nat.mod_eq_of_lt (by omega)]
      exact marker_or (i := 4) (by omega) 15
    rw [hlead]

/-! ### One round -/

theorem chunk_plain {b : UInt8} (h : dialect.plain b = true) : Chunk [b] [b] :=
  ⟨by simp, fun rest => by
    have hb := ne_backslash (b := b) h
    simp [decodeNext, hb]⟩

theorem chunk_escape {c : Char} (h : c ∈ shortEscapes) :
    Chunk [chr '\\', chr c] [shortEscapeValue c] :=
  ⟨by simp, fun rest => by
    simp [decodeNext, (mem_escapes h).2, shortEscape_chr h]⟩

theorem decodeNext_unicode (body : Bytes) :
    decodeNext (chr '\\' :: chr 'u' :: body) = decodeUnicode body := by
  simp [decodeNext]

/-- What `decodeUnicode` does behind a high surrogate. -/
def decodeLow (high : Nat) : Bytes → Option (Bytes × Bytes)
  | b :: u :: rest =>
    if b = chr '\\' ∧ u = chr 'u' then
      (decodeHexQuad rest).bind fun low =>
        if isLow low then
          some (encodeUtf8 (0x10000 + (high - 0xD800) * 0x400 + (low - 0xDC00)), rest.drop 4)
        else none
    else none
  | _ => none

theorem isLow_iff {n : Nat} : isLow n = true ↔ ¬(n < 0xDC00 ∨ 0xDFFF < n) := by
  simp [isLow]

theorem decodeUnicode_eq {body : Bytes} {n : Nat} (h : decodeHexQuad body = some n) :
    decodeUnicode body =
      if isHigh n then decodeLow n (body.drop 4)
      else if isLow n then none
      else some (encodeUtf8 n, body.drop 4) := by
  have hhigh : (decide (0xD800 ≤ n) && decide (n ≤ 0xDBFF)) = isHigh n := rfl
  have hlow : (decide (0xDC00 ≤ n) && decide (n ≤ 0xDFFF)) = isLow n := rfl
  rw [decodeUnicode, h]
  simp only [Option.bind_eq_bind, Option.bind_some, Option.pure_def, hhigh, hlow]
  congr 1
  rcases body.drop 4 with _ | ⟨b, _ | ⟨u, rest⟩⟩
  · rfl
  · rfl
  · simp only [decodeLow, Bool.and_eq_true, decide_eq_true_eq, Nat.shiftLeft_eq]
    congr 1
    cases decodeHexQuad rest with
    | none => rfl
    | some low =>
      simp only [Option.bind_some, Bool.or_eq_true, decide_eq_true_eq, isLow_iff, ite_not]

theorem decodeLow_plain {high : Nat} {b : UInt8} (h : b ≠ chr '\\') (rest : Bytes) :
    decodeLow high (b :: rest) = none := by
  cases rest with
  | nil => rfl
  | cons u rest => rw [decodeLow, if_neg fun hbu => h hbu.1]

theorem decodeLow_escape {high : Nat} {e : UInt8} (h : e ≠ chr 'u') (rest : Bytes) :
    decodeLow high (chr '\\' :: e :: rest) = none := by
  rw [decodeLow, if_neg fun hbu => h hbu.2]

theorem decodeLow_unicode (high : Nat) (rest : Bytes) :
    decodeLow high (chr '\\' :: chr 'u' :: rest) =
      (decodeHexQuad rest).bind fun low =>
        if isLow low then
          some (encodeUtf8 (0x10000 + (high - 0xD800) * 0x400 + (low - 0xDC00)), rest.drop 4)
        else none := by
  rw [decodeLow, if_pos ⟨rfl, rfl⟩]

theorem scalar_eq {n : Nat} (h : n.isValidChar) : scalar n = (encodeUtf8 n).map .byte := by
  rw [scalar, encodeUtf8_eq h]

theorem valid_of_unit {n : Nat} (hlt : n < 0x10000) (h : isHigh n = false) (h' : isLow n = false) :
    n.isValidChar := by
  simp only [isHigh, isLow, Bool.and_eq_false_iff, decide_eq_false_iff_not] at h h'
  simp only [Nat.isValidChar]
  omega

theorem valid_of_pair {n k : Nat} (h : isHigh n = true) (h' : isLow k = true) :
    (0x10000 + (n - 0xD800) * 0x400 + (k - 0xDC00)).isValidChar := by
  simp only [isHigh, isLow, Bool.and_eq_true, decide_eq_true_eq] at h h'
  simp only [Nat.isValidChar]
  omega

/-! ### The rounds on a literal -/

/-- `Rounds body decoded`: the rounds of the loop on a body, and what they decode it to. -/
inductive Rounds : Bytes → List Decoded → Prop
  | done : Rounds [] []
  | fails {body : Bytes} {decoded : List Decoded} (n : Nat) (hne : body ≠ [])
    (h : decodeNext body = none) : Rounds body (.surrogate n :: decoded)
  | next {source bytes rest : Bytes} {decoded : List Decoded} (h : Chunk source bytes)
    (hrest : Rounds rest decoded) : Rounds (source ++ rest) (bytes.map .byte ++ decoded)

section Unicode
variable {h₁ h₂ h₃ h₄ : Char} (hv : (Piece.unicode h₁ h₂ h₃ h₄ : Piece UInt8).Valid dialect)
include hv

theorem decodeNext_piece (rest : Bytes) :
    decodeNext ((Piece.unicode h₁ h₂ h₃ h₄ : Piece UInt8).text dialect ++ rest) =
      if isHigh (hexQuad h₁ h₂ h₃ h₄) then decodeLow (hexQuad h₁ h₂ h₃ h₄) rest
      else if isLow (hexQuad h₁ h₂ h₃ h₄) then none
      else some (encodeUtf8 (hexQuad h₁ h₂ h₃ h₄), rest) :=
  (decodeNext_unicode _).trans (decodeUnicode_eq (decodeHexQuad_chr hv rest))

theorem decodeLow_piece (high : Nat) (rest : Bytes) :
    decodeLow high ((Piece.unicode h₁ h₂ h₃ h₄ : Piece UInt8).text dialect ++ rest) =
      if isLow (hexQuad h₁ h₂ h₃ h₄) then
        some (encodeUtf8 (0x10000 + (high - 0xD800) * 0x400 + (hexQuad h₁ h₂ h₃ h₄ - 0xDC00)), rest)
      else none := by
  have htext : (Piece.unicode h₁ h₂ h₃ h₄ : Piece UInt8).text dialect ++ rest =
      chr '\\' :: chr 'u' :: chr h₁ :: chr h₂ :: chr h₃ :: chr h₄ :: rest := rfl
  rw [htext, decodeLow_unicode, decodeHexQuad_chr hv]
  rfl

/-- A code unit that is not the first half of a pair. -/
theorem rounds_unit {body : Bytes} {decoded : List Decoded} (h : Rounds body decoded)
    (halone : isHigh (hexQuad h₁ h₂ h₃ h₄) = true → decodeLow (hexQuad h₁ h₂ h₃ h₄) body = none) :
    Rounds ((Piece.unicode h₁ h₂ h₃ h₄ : Piece UInt8).text dialect ++ body)
      (codeUnit (hexQuad h₁ h₂ h₃ h₄) ++ decoded) := by
  have hnext := decodeNext_piece hv
  cases hhigh : isHigh (hexQuad h₁ h₂ h₃ h₄) with
  | true =>
    simp only [codeUnit, hhigh, Bool.true_or, if_true]
    refine .fails _ (by simp [Piece.text]) ?_
    rw [hnext, if_pos hhigh, halone hhigh]
  | false =>
    cases hlow : isLow (hexQuad h₁ h₂ h₃ h₄) with
    | true =>
      simp only [codeUnit, hhigh, hlow, Bool.or_true, if_true]
      refine .fails _ (by simp [Piece.text]) ?_
      rw [hnext, hhigh, hlow]
      rfl
    | false =>
      simp only [codeUnit, hhigh, hlow, Bool.or_false, Bool.false_eq_true, if_false]
      rw [scalar_eq (valid_of_unit (hexQuad_lt hv) hhigh hlow)]
      refine .next ⟨by simp [Piece.text], fun rest => ?_⟩ h
      rw [hnext, hhigh, hlow]
      rfl

end Unicode

theorem chunk_pair {h₁ h₂ h₃ h₄ l₁ l₂ l₃ l₄ : Char}
    (hv : (Piece.unicode h₁ h₂ h₃ h₄ : Piece UInt8).Valid dialect)
    (lv : (Piece.unicode l₁ l₂ l₃ l₄ : Piece UInt8).Valid dialect)
    (hhigh : isHigh (hexQuad h₁ h₂ h₃ h₄) = true) (hlow : isLow (hexQuad l₁ l₂ l₃ l₄) = true) :
    Chunk ((Piece.unicode h₁ h₂ h₃ h₄ : Piece UInt8).text dialect ++
        (Piece.unicode l₁ l₂ l₃ l₄ : Piece UInt8).text dialect)
      (encodeUtf8 (0x10000 + (hexQuad h₁ h₂ h₃ h₄ - 0xD800) * 0x400 +
        (hexQuad l₁ l₂ l₃ l₄ - 0xDC00))) := by
  refine ⟨by simp [Piece.text], fun rest => ?_⟩
  rw [List.append_assoc, decodeNext_piece hv, if_pos hhigh, decodeLow_piece lv, if_pos hlow]

theorem bodyText_cons (p : Piece UInt8) (body : List (Piece UInt8)) :
    bodyText dialect (p :: body) = p.text dialect ++ bodyText dialect body := rfl

/-- No low surrogate comes first in the body. -/
theorem decodeLow_none {high : Nat} {body : List (Piece UInt8)}
    (hb : ∀ p ∈ body, p.Valid dialect)
    (h : ∀ l₁ l₂ l₃ l₄ more, body = .unicode l₁ l₂ l₃ l₄ :: more →
      isLow (hexQuad l₁ l₂ l₃ l₄) = false) :
    decodeLow high (bodyText dialect body) = none := by
  cases body with
  | nil => rfl
  | cons p body =>
    have hp := hb p List.mem_cons_self
    rw [bodyText_cons]
    cases p with
    | plain b => exact decodeLow_plain (ne_backslash hp) _
    | escape c => exact decodeLow_escape (mem_escapes hp).2 _
    | unicode l₁ l₂ l₃ l₄ =>
      rw [decodeLow_piece hp, h _ _ _ _ _ rfl]
      rfl

/-- The rounds of the loop decode a literal to the string that it denotes. -/
theorem rounds_decode {body : List (Piece UInt8)} (h : ∀ p ∈ body, p.Valid dialect) :
    Rounds (bodyText dialect body) (decode body) := by
  induction body using decode.induct with
  | case1 => exact .done
  | case2 b body ih =>
    obtain ⟨hp, hbody⟩ := List.forall_mem_cons.mp h
    exact .next (chunk_plain hp) (ih hbody)
  | case3 c body ih =>
    obtain ⟨hp, hbody⟩ := List.forall_mem_cons.mp h
    exact .next (chunk_escape hp) (ih hbody)
  | case4 a b c d e f g k body hpair ih =>
    obtain ⟨hp, hrest⟩ := List.forall_mem_cons.mp h
    obtain ⟨hq, hbody⟩ := List.forall_mem_cons.mp hrest
    obtain ⟨hhigh, hlow⟩ := Bool.and_eq_true_iff.mp hpair
    rw [bodyText_cons, bodyText_cons, ← List.append_assoc, decode, if_pos hpair,
      scalar_eq (valid_of_pair hhigh hlow)]
    exact .next (chunk_pair hp hq hhigh hlow) (ih hbody)
  | case5 a b c d e f g k body hpair ih =>
    obtain ⟨hp, hrest⟩ := List.forall_mem_cons.mp h
    rw [bodyText_cons, decode, if_neg hpair]
    refine rounds_unit hp (ih hrest) fun hhigh => decodeLow_none hrest ?_
    rintro l₁ l₂ l₃ l₄ more hmore
    cases hmore
    simpa [hhigh] using hpair
  | case6 a b c d body hother ih =>
    obtain ⟨hp, hbody⟩ := List.forall_mem_cons.mp h
    have hdecode : decode (.unicode a b c d :: body) = codeUnit (hexQuad a b c d) ++ decode body := by
      rw [decode]
      exact hother
    rw [bodyText_cons, hdecode]
    refine rounds_unit hp (ih hbody) fun _ => decodeLow_none hbody ?_
    rintro l₁ l₂ l₃ l₄ more hmore
    exact absurd hmore (hother _ _ _ _ _)

/-! ### The loop -/

def Decoded.isSurrogate : Decoded → Bool
  | .byte _ => false
  | .surrogate _ => true

/-- Some surrogate escape in the literal has no partner. -/
def unpaired (decoded : List Decoded) : Bool := decoded.any Decoded.isSurrogate

/-- The bytes up to the first surrogate without a partner. -/
def decodedBytes : List Decoded → Bytes
  | .byte b :: decoded => b :: decodedBytes decoded
  | _ => []

@[simp] theorem unpaired_append (bytes : Bytes) (decoded : List Decoded) :
    unpaired (bytes.map .byte ++ decoded) = unpaired decoded := by
  simp [unpaired, Decoded.isSurrogate]

@[simp] theorem decodedBytes_append (bytes : Bytes) (decoded : List Decoded) :
    decodedBytes (bytes.map .byte ++ decoded) = bytes ++ decodedBytes decoded := by
  induction bytes with
  | nil => rfl
  | cons b bytes ih => rw [List.map_cons, List.cons_append, decodedBytes, ih, List.cons_append]

theorem decoded_of_paired {decoded : List Decoded} (h : unpaired decoded = false) :
    decoded = (decodedBytes decoded).map .byte := by
  induction decoded with
  | nil => rfl
  | cons d decoded ih =>
    obtain ⟨hd, hrest⟩ := Bool.or_eq_false_iff.mp h
    cases d with
    | byte b => rw [decodedBytes, List.map_cons, ← ih hrest]
    | surrogate n => cases hd

/-! #### Sizes -/

theorem length_encodeUtf8 (n : Nat) : (encodeUtf8 n).length ≤ 4 := by
  rw [encodeUtf8]
  split_ifs <;> simp

theorem length_decodeHexQuad {body : Bytes} {n : Nat} (h : decodeHexQuad body = some n) :
    4 ≤ body.length := by
  rcases body with _ | ⟨a, _ | ⟨b, _ | ⟨c, _ | ⟨d, body⟩⟩⟩⟩
  · cases h
  · cases h
  · cases h
  · cases h
  · simp

theorem length_decodeLow {high : Nat} {body bytes rest : Bytes}
    (h : decodeLow high body = some (bytes, rest)) : bytes.length + rest.length ≤ body.length := by
  rcases body with _ | ⟨b, _ | ⟨u, body⟩⟩
  · cases h
  · cases h
  · rw [decodeLow] at h
    split_ifs at h
    obtain ⟨low, hlow, h⟩ := Option.bind_eq_some_iff.mp h
    split_ifs at h
    obtain ⟨rfl, rfl⟩ := Prod.mk.inj (Option.some.inj h)
    have hquad := length_decodeHexQuad hlow
    have hform := length_encodeUtf8 (0x10000 + (high - 0xD800) * 0x400 + (low - 0xDC00))
    simp only [List.length_drop, List.length_cons]
    omega

theorem length_decodeUnicode {body bytes rest : Bytes}
    (h : decodeUnicode body = some (bytes, rest)) : bytes.length + rest.length ≤ body.length := by
  cases hquad : decodeHexQuad body with
  | none => simp [decodeUnicode, hquad] at h
  | some n =>
    have hlen := length_decodeHexQuad hquad
    rw [decodeUnicode_eq hquad] at h
    split_ifs at h
    · have hlow := length_decodeLow h
      rw [List.length_drop] at hlow
      omega
    · cases h
      have hform := length_encodeUtf8 n
      rw [List.length_drop]
      omega

/-- A round emits no more bytes than it reads. -/
theorem length_decodeNext {body bytes rest : Bytes} (h : decodeNext body = some (bytes, rest)) :
    bytes.length + rest.length ≤ body.length := by
  rcases body with _ | ⟨b, body⟩
  · cases h
  rw [decodeNext.eq_def] at h
  dsimp only at h
  split_ifs at h with hplain
  · cases h
    rw [List.length_singleton, List.length_cons]
    omega
  · rcases body with _ | ⟨e, body⟩
    · cases h
    · dsimp only at h
      split_ifs at h
      · have hunicode := length_decodeUnicode h
        simp only [List.length_cons]
        omega
      · obtain ⟨c, -, hc⟩ := Option.map_eq_some_iff.mp h
        cases hc
        simp only [List.length_cons, List.length_nil]
        omega

theorem Chunk.length_le {source bytes : Bytes} (h : Chunk source bytes) :
    bytes.length ≤ source.length := by
  have hnext := h.2 []
  rw [List.append_nil] at hnext
  simpa using length_decodeNext hnext

theorem Rounds.length_le {body : Bytes} {decoded : List Decoded} (h : Rounds body decoded) :
    (decodedBytes decoded).length ≤ body.length := by
  induction h with
  | done => exact le_refl 0
  | fails n hne h => exact Nat.zero_le _
  | next h hrest ih =>
    rw [decodedBytes_append, List.length_append, List.length_append]
    exact Nat.add_le_add h.length_le ih

/-! #### What the loop returns -/

/-- The result of the loop on a literal that denotes `decoded`. -/
def outcome (capacity : Nat) (m : Buffer) (written : Nat) (decoded : List Decoded) :
    StringResult :=
  let total := written + (decodedBytes decoded).length
  let m := storeBytes capacity m written (decodedBytes decoded)
  if unpaired decoded then ⟨.invalidJson, m, 0⟩
  else if capacity ≤ total then ⟨.bufferTooSmall, Function.update m (capacity - 1) 0, total⟩
  else ⟨.ok, Function.update m total 0, total⟩

theorem decodeString_rounds {body : Bytes} {decoded : List Decoded} (h : Rounds body decoded)
    (capacity : Nat) {fuel : Nat} (hf : body.length < fuel) (m : Buffer) (written : Nat)
    (hsize : written + (decodedBytes decoded).length ≤ sizeMax) :
    decodeString capacity fuel m written body = outcome capacity m written decoded := by
  induction h generalizing fuel m written with
  | done =>
    obtain ⟨fuel, rfl⟩ := Nat.exists_eq_succ_of_ne_zero (Nat.ne_of_gt (Nat.zero_lt_of_lt hf))
    rfl
  | fails n hne h =>
    obtain ⟨fuel, rfl⟩ := Nat.exists_eq_succ_of_ne_zero (Nat.ne_of_gt (Nat.zero_lt_of_lt hf))
    rw [decodeString, if_neg hne, h]
    rfl
  | @next source bytes rest decoded h hrest ih =>
    obtain ⟨fuel, rfl⟩ := Nat.exists_eq_succ_of_ne_zero (Nat.ne_of_gt (Nat.zero_lt_of_lt hf))
    have hsource := List.length_pos_of_ne_nil h.1
    rw [List.length_append] at hf
    rw [decodedBytes_append, List.length_append] at hsize
    rw [decodeString, if_neg (by simp [h.1]), h.2 rest]
    dsimp only
    rw [if_pos (by omega), ih (by omega) _ _ (by omega)]
    simp only [outcome, unpaired_append, decodedBytes_append, storeBytes_append,
      List.length_append, Nat.add_assoc]

@[simp] theorem unpaired_bytes (s : Bytes) : unpaired (s.map .byte) = false := by
  simpa [unpaired] using unpaired_append s []

@[simp] theorem decodedBytes_bytes (s : Bytes) : decodedBytes (s.map .byte) = s := by
  simpa [decodedBytes] using decodedBytes_append s []

theorem outcome_broken {decoded : List Decoded} (h : unpaired decoded = true) (capacity : Nat)
    (m : Buffer) :
    outcome capacity m 0 decoded = ⟨.invalidJson, storeBytes capacity m 0 (decodedBytes decoded), 0⟩ := by
  rw [outcome, if_pos h]

theorem outcome_whole (s : Bytes) {capacity : Nat} (hc : 1 ≤ capacity) (m : Buffer) :
    outcome capacity m 0 (s.map .byte) =
      ⟨if s.length < capacity then .ok else .bufferTooSmall,
        Function.update (storeBytes capacity m 0 s) (min s.length (capacity - 1)) 0, s.length⟩ := by
  rw [outcome, unpaired_bytes, decodedBytes_bytes, if_neg Bool.false_ne_true, Nat.zero_add]
  by_cases hroom : s.length < capacity
  · rw [if_neg (Nat.not_le.mpr hroom), if_pos hroom, Nat.min_eq_left (by omega)]
  · rw [if_pos (Nat.not_lt.mp hroom), if_neg hroom, Nat.min_eq_right (by omega)]

/-- The call on a literal is the loop on what is between its quotes. -/
theorem jsonGetString_rounds {json key body tail : Bytes} {decoded : List Decoded}
    (h : Rounds body decoded)
    (hfind : findTopLevelValue json key = .ok (chr '"' :: (body ++ [chr '"']) ++ tail, tail))
    (m : Buffer) {capacity : Nat} (hsize : (decodedBytes decoded).length ≤ sizeMax)
    (hc : 1 ≤ capacity) :
    jsonGetString json key m capacity = outcome capacity (Function.update m 0 0) 0 decoded := by
  have hlast : (chr '"' :: (body ++ [chr '"'])).getLast? = some (chr '"') := by
    rw [← List.cons_append, List.getLast?_concat]
  rw [jsonGetString, if_neg (by omega), hfind]
  simp only [between_append]
  rw [if_neg (by simp [hlast]), List.tail_cons, List.dropLast_concat]
  exact decodeString_rounds h capacity (Nat.lt_succ_self _) _ 0 (by omega)

/-- The call on a literal that denotes `s`, with room for it. -/
theorem jsonGetString_whole {json key body tail s : Bytes} (h : Rounds body (s.map .byte))
    (hfind : findTopLevelValue json key = .ok (chr '"' :: (body ++ [chr '"']) ++ tail, tail))
    (m : Buffer) {capacity : Nat} (hsize : s.length ≤ sizeMax) (hcap : s.length < capacity) :
    (jsonGetString json key m capacity).result = .ok ∧
      Buffer.holds (jsonGetString json key m capacity).buffer s ∧
      (jsonGetString json key m capacity).length = s.length := by
  have hc : 1 ≤ capacity := by omega
  have hholds := holds_take hc (Function.update m 0 0) s
  rw [List.take_of_length_le (by omega)] at hholds
  rw [jsonGetString_rounds h hfind m (by rwa [decodedBytes_bytes]) hc, outcome_whole s hc,
    if_pos hcap]
  exact ⟨rfl, hholds, rfl⟩

/-- A body that spells each byte of `s` in a round of its own. -/
theorem rounds_flatMap {spell : UInt8 → Bytes} {s : Bytes} (h : ∀ b ∈ s, Chunk (spell b) [b]) :
    Rounds (s.flatMap spell) (s.map .byte) := by
  induction s with
  | nil => exact .done
  | cons b s ih =>
    obtain ⟨hb, hs⟩ := List.forall_mem_cons.mp h
    exact .next hb (ih hs)

end Msys.Mipc
