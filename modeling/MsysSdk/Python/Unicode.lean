import Mathlib.Tactic.Common

/-! Python strings and bytes. A `str` is a sequence of code points which, unlike a Lean
`String`, may hold surrogates; only `encode` refuses them. -/

namespace Python

abbrev CodePoint := Fin 0x110000
abbrev Str := List CodePoint
abbrev Bytes := List UInt8

instance CodePoint.neZero : @NeZero Nat Zero.ofOfNat0 0x110000 := ⟨by decide⟩

instance Str.lawfulBEq : LawfulBEq Str := inferInstance

def CodePoint.isSurrogate (c : CodePoint) : Bool := 0xD800 ≤ c.val && c.val ≤ 0xDFFF

def CodePoint.ofNat (n : Nat) : CodePoint := Fin.ofNat 0x110000 n

/-- The Python string of a Lean literal. -/
def str (s : String) : Str := s.toList.map fun c => CodePoint.ofNat c.toNat

/-- The ASCII bytes of a Lean literal. -/
def bytes (s : String) : Bytes := s.toList.map fun c => UInt8.ofNat c.toNat

/-- The UTF-8 form of one code point. -/
def encodeChar (c : CodePoint) : Option Bytes :=
  if c.val < 0x80 then some [.ofNat c.val]
  else if c.val < 0x800 then some [.ofNat (0xC0 + c.val / 0x40), .ofNat (0x80 + c.val % 0x40)]
  else if c.isSurrogate then none
  else if c.val < 0x10000 then
    some [.ofNat (0xE0 + c.val / 0x1000), .ofNat (0x80 + c.val / 0x40 % 0x40),
      .ofNat (0x80 + c.val % 0x40)]
  else
    some [.ofNat (0xF0 + c.val / 0x40000), .ofNat (0x80 + c.val / 0x1000 % 0x40),
      .ofNat (0x80 + c.val / 0x40 % 0x40), .ofNat (0x80 + c.val % 0x40)]

/-- `str.encode("utf-8")`; `none` stands for UnicodeEncodeError. -/
def encodeUtf8 : Str → Option Bytes
  | [] => some []
  | c :: cs => do
    let b ← encodeChar c
    let bs ← encodeUtf8 cs
    return b ++ bs

def isTail (b : UInt8) : Bool := 0x80 ≤ b && b ≤ 0xBF

/-- `bytes.decode("utf-8")`: strict, so overlong forms and surrogates are refused;
`none` stands for UnicodeDecodeError. -/
def decodeUtf8 : Bytes → Option Str
  | [] => some []
  | a :: rest =>
    if a < 0x80 then (decodeUtf8 rest).map (CodePoint.ofNat a.toNat :: ·)
    else match rest with
      | [] => none
      | b :: rest =>
        if !isTail b then none
        else if 0xC2 ≤ a && a ≤ 0xDF then
          (decodeUtf8 rest).map (CodePoint.ofNat ((a.toNat - 0xC0) * 0x40 + (b.toNat - 0x80)) :: ·)
        else match rest with
          | [] => none
          | c :: rest =>
            if !isTail c then none
            else if 0xE0 ≤ a && a ≤ 0xEF then
              let n := ((a.toNat - 0xE0) * 0x40 + (b.toNat - 0x80)) * 0x40 + (c.toNat - 0x80)
              if n < 0x800 || (0xD800 ≤ n && n ≤ 0xDFFF) then none
              else (decodeUtf8 rest).map (CodePoint.ofNat n :: ·)
            else match rest with
              | [] => none
              | d :: rest =>
                if !isTail d || a < 0xF0 || 0xF4 < a then none
                else
                  let n := (((a.toNat - 0xF0) * 0x40 + (b.toNat - 0x80)) * 0x40
                    + (c.toNat - 0x80)) * 0x40 + (d.toNat - 0x80)
                  if n < 0x10000 || 0x10FFFF < n then none
                  else (decodeUtf8 rest).map (CodePoint.ofNat n :: ·)

theorem encodeChar_isSome (c : CodePoint) : (encodeChar c).isSome = !c.isSurrogate := by
  unfold encodeChar CodePoint.isSurrogate
  split_ifs <;> simp_all <;> omega

/-- `encode` succeeds exactly on the strings without surrogates. -/
theorem encodeUtf8_isSome (s : Str) :
    (encodeUtf8 s).isSome = s.all fun c => !c.isSurrogate := by
  induction s with
  | nil => rfl
  | cons c cs ih =>
    rw [List.all_cons, ← ih, ← encodeChar_isSome]
    cases h : encodeChar c <;> cases h' : encodeUtf8 cs <;> simp [encodeUtf8, h, h']

theorem encodeChar_length {c : CodePoint} {b : Bytes} (h : encodeChar c = some b) :
    b.length ≤ 4 := by
  unfold encodeChar at h
  split_ifs at h <;> simp only [Option.some.injEq] at h <;> subst h <;> simp

/-- Every code point takes at most four bytes. -/
theorem encodeUtf8_length {s : Str} {b : Bytes} (h : encodeUtf8 s = some b) :
    b.length ≤ 4 * s.length := by
  induction s generalizing b with
  | nil =>
    simp only [encodeUtf8, Option.some.injEq] at h
    simp [← h]
  | cons c cs ih =>
    simp only [encodeUtf8, Option.bind_eq_bind, Option.bind_eq_some_iff, Option.pure_def,
      Option.some.injEq] at h
    obtain ⟨a, ha, bs, hbs, rfl⟩ := h
    have hc := encodeChar_length ha
    have hs := ih hbs
    simp only [List.length_append, List.length_cons]
    omega

end Python
