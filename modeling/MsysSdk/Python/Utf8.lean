import MsysSdk.Python.Unicode
import Mathlib.Data.List.Basic

/-! `encode` and `decode` are inverse to each other on the strings without surrogates, and an
ASCII code point is its own form: no other form has an ASCII byte in it. -/

namespace Python

theorem ofNat_val {n : Nat} (h : n < 0x110000) : (CodePoint.ofNat n).val = n :=
  Nat.mod_eq_of_lt h

theorem byte_eq {n : Nat} {b : UInt8} (h : n = b.toNat) : UInt8.ofNat n = b := by
  rw [h, UInt8.ofNat_toNat]

theorem byte_val {n : Nat} (h : n < 256) : (UInt8.ofNat n).toNat = n := by
  simp [Nat.mod_eq_of_lt h]

theorem isTail_iff {b : UInt8} : isTail b = true ↔ 0x80 ≤ b.toNat ∧ b.toNat ≤ 0xBF := by
  simp [isTail, UInt8.le_iff_toNat_le]

/-! ### One code point -/

theorem encodeChar_ascii {n : Nat} (h : n < 0x80) :
    encodeChar (CodePoint.ofNat n) = some [.ofNat n] := by
  rw [encodeChar, ofNat_val (by omega), if_pos h]

theorem encodeChar_two {a b : UInt8} (ha : 0xC2 ≤ a.toNat ∧ a.toNat ≤ 0xDF)
    (hb : isTail b = true) :
    encodeChar (.ofNat ((a.toNat - 0xC0) * 0x40 + (b.toNat - 0x80))) = some [a, b] := by
  rw [isTail_iff] at hb
  rw [encodeChar, ofNat_val (by omega), if_neg (by omega), if_pos (by omega)]
  rw [byte_eq (b := a) (by omega), byte_eq (b := b) (by omega)]

theorem encodeChar_three {a b c : UInt8} (ha : 0xE0 ≤ a.toNat ∧ a.toNat ≤ 0xEF)
    (hb : isTail b = true) (hc : isTail c = true) {n : Nat}
    (hn : n = ((a.toNat - 0xE0) * 0x40 + (b.toNat - 0x80)) * 0x40 + (c.toNat - 0x80))
    (hrange : ¬(n < 0x800 ∨ 0xD800 ≤ n ∧ n ≤ 0xDFFF)) :
    encodeChar (.ofNat n) = some [a, b, c] := by
  rw [isTail_iff] at hb hc
  have hval := ofNat_val (n := n) (by omega)
  have hsurrogate : ¬(CodePoint.ofNat n).isSurrogate = true := by
    simp only [CodePoint.isSurrogate, hval, Bool.and_eq_true, decide_eq_true_eq]
    omega
  rw [encodeChar, hval, if_neg (by omega), if_neg (by omega), if_neg hsurrogate,
    if_pos (by omega)]
  rw [byte_eq (b := a) (by omega), byte_eq (b := b) (by omega), byte_eq (b := c) (by omega)]

theorem encodeChar_four {a b c d : UInt8} (ha : 0xF0 ≤ a.toNat ∧ a.toNat ≤ 0xF4)
    (hb : isTail b = true) (hc : isTail c = true) (hd : isTail d = true) {n : Nat}
    (hn : n = (((a.toNat - 0xF0) * 0x40 + (b.toNat - 0x80)) * 0x40 + (c.toNat - 0x80)) * 0x40 +
      (d.toNat - 0x80)) (hrange : 0x10000 ≤ n ∧ n ≤ 0x10FFFF) :
    encodeChar (.ofNat n) = some [a, b, c, d] := by
  rw [isTail_iff] at hb hc hd
  have hval := ofNat_val (n := n) (by omega)
  have hsurrogate : ¬(CodePoint.ofNat n).isSurrogate = true := by
    simp only [CodePoint.isSurrogate, hval, Bool.and_eq_true, decide_eq_true_eq]
    omega
  rw [encodeChar, hval, if_neg (by omega), if_neg (by omega), if_neg hsurrogate,
    if_neg (by omega)]
  rw [byte_eq (b := a) (by omega), byte_eq (b := b) (by omega), byte_eq (b := c) (by omega),
    byte_eq (b := d) (by omega)]

/-- `decode` takes the form of one code point off the front. -/
theorem decodeUtf8_step {b : UInt8} {bs : Bytes} {s : Str} (h : decodeUtf8 (b :: bs) = some s) :
    ∃ c cs form rest, s = c :: cs ∧ b :: bs = form ++ rest ∧ encodeChar c = some form ∧
      decodeUtf8 rest = some cs := by
  rw [decodeUtf8.eq_def] at h
  dsimp only at h
  by_cases hascii : b < 0x80
  · rw [if_pos hascii] at h
    obtain ⟨cs, hcs, rfl⟩ := Option.map_eq_some_iff.mp h
    have hb : b.toNat < 0x80 := hascii
    exact ⟨_, cs, [b], bs, rfl, rfl, by rw [encodeChar_ascii hb, UInt8.ofNat_toNat], hcs⟩
  rw [if_neg hascii] at h
  cases bs with
  | nil => cases h
  | cons b₂ bs =>
  dsimp only at h
  by_cases h₂ : isTail b₂ = true
  swap
  · simp [h₂] at h
  simp only [h₂, Bool.not_true, Bool.false_eq_true, if_false] at h
  by_cases htwo : (0xC2 ≤ b && b ≤ 0xDF) = true
  · rw [if_pos htwo] at h
    obtain ⟨cs, hcs, rfl⟩ := Option.map_eq_some_iff.mp h
    simp only [Bool.and_eq_true, decide_eq_true_eq] at htwo
    exact ⟨_, cs, [b, b₂], bs, rfl, rfl, encodeChar_two htwo h₂, hcs⟩
  rw [if_neg htwo] at h
  cases bs with
  | nil => cases h
  | cons b₃ bs =>
  dsimp only at h
  by_cases h₃ : isTail b₃ = true
  swap
  · simp [h₃] at h
  simp only [h₃, Bool.not_true, Bool.false_eq_true, if_false] at h
  by_cases hthree : (0xE0 ≤ b && b ≤ 0xEF) = true
  · rw [if_pos hthree] at h
    split_ifs at h with hrange
    obtain ⟨cs, hcs, rfl⟩ := Option.map_eq_some_iff.mp h
    simp only [Bool.and_eq_true, decide_eq_true_eq] at hthree
    refine ⟨_, cs, [b, b₂, b₃], bs, rfl, rfl, encodeChar_three hthree h₂ h₃ rfl ?_, hcs⟩
    simpa using hrange
  rw [if_neg hthree] at h
  cases bs with
  | nil => cases h
  | cons b₄ bs =>
  dsimp only at h
  split_ifs at h with hlead hrange
  obtain ⟨cs, hcs, rfl⟩ := Option.map_eq_some_iff.mp h
  simp only [Bool.or_eq_true, Bool.not_eq_true', decide_eq_true_eq, not_or] at hlead hrange
  obtain ⟨⟨h₄, hlo⟩, hhi⟩ := hlead
  refine ⟨_, cs, [b, b₂, b₃, b₄], bs, rfl, rfl, encodeChar_four
    ⟨Nat.le_of_not_lt hlo, Nat.le_of_not_lt hhi⟩ h₂ h₃ (by simpa using h₄) rfl ?_, hcs⟩
  exact ⟨Nat.le_of_not_lt hrange.1, Nat.le_of_not_lt hrange.2⟩

theorem encode_of_decode {b : Bytes} {s : Str} (h : decodeUtf8 b = some s) :
    encodeUtf8 s = some b := by
  induction s generalizing b with
  | nil =>
    cases b with
    | nil => rfl
    | cons x b =>
      obtain ⟨c, cs, _, _, hs, -⟩ := decodeUtf8_step h
      cases hs
  | cons c cs ih =>
    cases b with
    | nil => cases h
    | cons x b =>
      obtain ⟨c', cs', form, rest, hs, hb, hc, hrest⟩ := decodeUtf8_step h
      cases hs
      rw [hb, encodeUtf8, hc, ih hrest]
      rfl

/-- The forms of a code point, by its size. -/
theorem encodeChar_cases {c : CodePoint} {form : Bytes} (h : encodeChar c = some form) :
    (c.val < 0x80 ∧ form = [.ofNat c.val]) ∨
    (∃ a b : UInt8, form = [a, b] ∧ (0xC2 ≤ a.toNat ∧ a.toNat ≤ 0xDF) ∧ isTail b = true ∧
      c.val = (a.toNat - 0xC0) * 0x40 + (b.toNat - 0x80)) ∨
    (∃ a b d : UInt8, form = [a, b, d] ∧ (0xE0 ≤ a.toNat ∧ a.toNat ≤ 0xEF) ∧ isTail b = true ∧
      isTail d = true ∧
      c.val = ((a.toNat - 0xE0) * 0x40 + (b.toNat - 0x80)) * 0x40 + (d.toNat - 0x80) ∧
      0x800 ≤ c.val ∧ c.isSurrogate = false) ∨
    (∃ a b d e : UInt8, form = [a, b, d, e] ∧ (0xF0 ≤ a.toNat ∧ a.toNat ≤ 0xF4) ∧
      isTail b = true ∧ isTail d = true ∧ isTail e = true ∧
      c.val = (((a.toNat - 0xF0) * 0x40 + (b.toNat - 0x80)) * 0x40 + (d.toNat - 0x80)) * 0x40 +
        (e.toNat - 0x80) ∧ 0x10000 ≤ c.val) := by
  have hmax := c.isLt
  unfold encodeChar at h
  split_ifs at h with h₁ h₂ hsurrogate h₃ <;> cases h
  · exact .inl ⟨h₁, rfl⟩
  · refine .inr (.inl ⟨_, _, rfl, ?_, ?_, ?_⟩)
    · rw [byte_val (by omega)]
      omega
    · rw [isTail_iff, byte_val (by omega)]
      omega
    · rw [byte_val (by omega), byte_val (by omega)]
      omega
  · refine .inr (.inr (.inl ⟨_, _, _, rfl, ?_, ?_, ?_, ?_, by omega, by simpa using hsurrogate⟩))
    · rw [byte_val (by omega)]
      omega
    · rw [isTail_iff, byte_val (by omega)]
      omega
    · rw [isTail_iff, byte_val (by omega)]
      omega
    · rw [byte_val (by omega), byte_val (by omega), byte_val (by omega)]
      omega
  · refine .inr (.inr (.inr ⟨_, _, _, _, rfl, ?_, ?_, ?_, ?_, ?_, by omega⟩))
    · rw [byte_val (by omega)]
      omega
    · rw [isTail_iff, byte_val (by omega)]
      omega
    · rw [isTail_iff, byte_val (by omega)]
      omega
    · rw [isTail_iff, byte_val (by omega)]
      omega
    · rw [byte_val (by omega), byte_val (by omega), byte_val (by omega), byte_val (by omega)]
      omega

theorem ofNat_eq {c : CodePoint} {n : Nat} (h : c.val = n) : CodePoint.ofNat n = c := by
  refine Fin.ext ?_
  rw [ofNat_val (by rw [← h]; exact c.isLt), h]

/-- `decode` reads the form of a code point back. -/
theorem decodeUtf8_form {c : CodePoint} {form : Bytes} (h : encodeChar c = some form)
    (rest : Bytes) : decodeUtf8 (form ++ rest) = (decodeUtf8 rest).map (c :: ·) := by
  rcases encodeChar_cases h with ⟨hc, rfl⟩ | ⟨a, b, rfl, ha, hb, hc⟩ |
    ⟨a, b, d, rfl, ha, hb, hd, hc, hmin, hsurrogate⟩ |
    ⟨a, b, d, e, rfl, ha, hb, hd, he, hc, hmin⟩
  · have hval := byte_val (n := c.val) (by omega)
    have hascii : UInt8.ofNat c.val < 0x80 := show (UInt8.ofNat c.val).toNat < 0x80 by omega
    rw [List.singleton_append, decodeUtf8.eq_def]
    dsimp only
    rw [if_pos hascii, ofNat_eq hval.symm]
  · have hlead : ¬a < 0x80 := show ¬a.toNat < 0x80 by omega
    have htwo : (0xC2 ≤ a && a ≤ 0xDF) = true := by simpa [UInt8.le_iff_toNat_le] using ha
    rw [List.cons_append, List.cons_append, List.nil_append, decodeUtf8.eq_def]
    simp only [if_neg hlead, hb, htwo, Bool.not_true, Bool.false_eq_true, if_false, if_true,
      ofNat_eq hc]
  · have hlead : ¬a < 0x80 := show ¬a.toNat < 0x80 by omega
    have htwo : (0xC2 ≤ a && a ≤ 0xDF) = false := by
      simp [UInt8.le_iff_toNat_le]
      omega
    have hthree : (0xE0 ≤ a && a ≤ 0xEF) = true := by simpa [UInt8.le_iff_toNat_le] using ha
    have hrange : ¬(c.val < 0x800 ∨ 0xD800 ≤ c.val ∧ c.val ≤ 0xDFFF) := by
      simp only [CodePoint.isSurrogate, Bool.and_eq_false_iff, decide_eq_false_iff_not] at hsurrogate
      omega
    rw [List.cons_append, List.cons_append, List.cons_append, List.nil_append, decodeUtf8.eq_def]
    simp only [if_neg hlead, hb, hd, htwo, hthree, Bool.not_true, Bool.false_eq_true, if_false,
      if_true, ← hc]
    rw [if_neg (by simpa using hrange), ofNat_eq rfl]
  · have hlead : ¬a < 0x80 := show ¬a.toNat < 0x80 by omega
    have htwo : (0xC2 ≤ a && a ≤ 0xDF) = false := by
      simp [UInt8.le_iff_toNat_le]
      omega
    have hthree : (0xE0 ≤ a && a ≤ 0xEF) = false := by
      simp [UInt8.le_iff_toNat_le]
      omega
    have hfour : ¬(!isTail e || a < 0xF0 || 0xF4 < a) = true := by
      simp [he, UInt8.lt_iff_toNat_lt]
      omega
    have hrange : ¬(c.val < 0x10000 || 0x10FFFF < c.val) = true := by
      have hmax := c.isLt
      simp only [Bool.or_eq_true, decide_eq_true_eq]
      omega
    rw [List.cons_append, List.cons_append, List.cons_append, List.cons_append, List.nil_append,
      decodeUtf8.eq_def]
    simp only [if_neg hlead, hb, hd, htwo, hthree, Bool.not_true, Bool.false_eq_true, if_false,
      if_neg hfour, ← hc, if_neg hrange, ofNat_eq rfl]

theorem decode_of_encode {s : Str} {b : Bytes} (h : encodeUtf8 s = some b) :
    decodeUtf8 b = some s := by
  induction s generalizing b with
  | nil =>
    cases h
    rfl
  | cons c cs ih =>
    simp only [encodeUtf8, Option.bind_eq_bind, Option.bind_eq_some_iff, Option.pure_def,
      Option.some.injEq] at h
    obtain ⟨form, hform, rest, hrest, rfl⟩ := h
    rw [decodeUtf8_form hform, ih hrest]
    rfl

theorem encodeUtf8_append {s t : Str} {a b : Bytes} (hs : encodeUtf8 s = some a)
    (ht : encodeUtf8 t = some b) : encodeUtf8 (s ++ t) = some (a ++ b) := by
  induction s generalizing a with
  | nil =>
    cases hs
    exact ht
  | cons c s ih =>
    simp only [encodeUtf8, Option.bind_eq_bind, Option.bind_eq_some_iff, Option.pure_def,
      Option.some.injEq] at hs
    obtain ⟨form, hform, rest, hrest, rfl⟩ := hs
    simp [encodeUtf8, hform, ih hrest]

theorem encodeUtf8_inj {s t : Str} {b : Bytes} (hs : encodeUtf8 s = some b)
    (ht : encodeUtf8 t = some b) : s = t :=
  Option.some.inj ((decode_of_encode hs).symm.trans (decode_of_encode ht))

/-! ### The form of any string -/

/-- The UTF-8 form, with nothing in it for a surrogate. -/
def utf8 (s : Str) : Bytes := s.flatMap fun c => (encodeChar c).getD []

@[simp] theorem utf8_nil : utf8 [] = [] := rfl

theorem utf8_cons (c : CodePoint) (s : Str) : utf8 (c :: s) = (encodeChar c).getD [] ++ utf8 s :=
  rfl

@[simp] theorem utf8_append (s t : Str) : utf8 (s ++ t) = utf8 s ++ utf8 t :=
  List.flatMap_append

theorem utf8_of_encode {s : Str} {b : Bytes} (h : encodeUtf8 s = some b) : utf8 s = b := by
  induction s generalizing b with
  | nil =>
    cases h
    rfl
  | cons c cs ih =>
    simp only [encodeUtf8, Option.bind_eq_bind, Option.bind_eq_some_iff, Option.pure_def,
      Option.some.injEq] at h
    obtain ⟨form, hform, rest, hrest, rfl⟩ := h
    rw [utf8_cons, hform, Option.getD_some, ih hrest]

/-- Apart from an ASCII code point's own, the bytes of a form are not ASCII. -/
theorem encodeChar_high {c : CodePoint} (hc : 0x80 ≤ c.val) {form : Bytes}
    (h : encodeChar c = some form) : ∀ b ∈ form, 0x80 ≤ b.toNat := by
  rcases encodeChar_cases h with ⟨hlow, -⟩ | ⟨a, b, rfl, ha, hb, -⟩ |
    ⟨a, b, d, rfl, ha, hb, hd, -⟩ | ⟨a, b, d, e, rfl, ha, hb, hd, he, -⟩
  · omega
  all_goals
    rw [isTail_iff] at *
    simp only [List.forall_mem_cons, List.not_mem_nil, false_implies, implies_true, and_true]
    omega

theorem mem_utf8 {s : Str} {b : UInt8} (h : b ∈ utf8 s) :
    (∃ c ∈ s, c.val < 0x80 ∧ b = .ofNat c.val) ∨ 0x80 ≤ b.toNat := by
  obtain ⟨c, hc, hb⟩ := List.mem_flatMap.mp h
  by_cases hascii : c.val < 0x80
  · rw [encodeChar, if_pos hascii, Option.getD_some, List.mem_singleton] at hb
    exact .inl ⟨c, hc, hascii, hb⟩
  · cases hform : encodeChar c with
    | none => simp [hform] at hb
    | some form =>
      rw [hform, Option.getD_some] at hb
      exact .inr (encodeChar_high (by omega) hform b hb)

/-- No surrogates. -/
def Encodable (s : Str) : Prop := ∀ c ∈ s, c.isSurrogate = false

theorem encodable_iff {s : Str} : Encodable s ↔ encodeUtf8 s = some (utf8 s) := by
  have hsome := encodeUtf8_isSome s
  constructor
  · intro h
    have hall : s.all (fun c => !c.isSurrogate) = true := by
      rw [List.all_eq_true]
      exact fun c hc => by rw [h c hc]; rfl
    rw [hall] at hsome
    obtain ⟨b, hb⟩ := Option.isSome_iff_exists.mp hsome
    rw [hb, utf8_of_encode hb]
  · intro h c hc
    rw [h, Option.isSome_some] at hsome
    have := List.all_eq_true.mp hsome.symm c hc
    simpa using this

theorem utf8_inj {s t : Str} (hs : Encodable s) (ht : Encodable t) : utf8 s = utf8 t ↔ s = t := by
  refine ⟨fun h => ?_, fun h => h ▸ rfl⟩
  rw [encodable_iff] at hs ht
  rw [h] at hs
  exact encodeUtf8_inj hs ht

/-- The form of a character: itself if it is ASCII, else bytes that are not. -/
theorem form_cases {c : CodePoint} (hc : c.isSurrogate = false) :
    (c.val < 0x80 ∧ (encodeChar c).getD [] = [.ofNat c.val]) ∨
      (0x80 ≤ c.val ∧ ∃ b bs, (encodeChar c).getD [] = b :: bs ∧ ∀ x ∈ b :: bs, 0x80 ≤ x.toNat) := by
  have hsome := encodeChar_isSome c
  rw [hc] at hsome
  obtain ⟨form, hform⟩ := Option.isSome_iff_exists.mp hsome
  rw [hform, Option.getD_some]
  rcases Nat.lt_or_ge c.val 0x80 with hlow | hhigh
  · rw [encodeChar, if_pos hlow] at hform
    exact .inl ⟨hlow, (Option.some.inj hform).symm⟩
  · refine .inr ⟨hhigh, ?_⟩
    have hbytes := encodeChar_high hhigh hform
    rcases encodeChar_cases hform with ⟨hlow, -⟩ | ⟨a, b, rfl, -⟩ | ⟨a, b, d, rfl, -⟩ |
      ⟨a, b, d, e, rfl, -⟩
    · omega
    all_goals exact ⟨_, _, rfl, hbytes⟩

/-- What holds of all bytes and of no byte beyond ASCII, holds of the characters. -/
theorem all_utf8 {p : UInt8 → Bool} (hp : ∀ b : UInt8, 0x80 ≤ b.toNat → p b = false) {s : Str}
    (hs : Encodable s) : (utf8 s).all p = s.all fun c => c.val < 0x80 && p (.ofNat c.val) := by
  induction s with
  | nil => rfl
  | cons c s ih =>
    obtain ⟨hc, hs⟩ := List.forall_mem_cons.mp hs
    rw [utf8_cons, List.all_append, List.all_cons, ih hs]
    rcases form_cases hc with ⟨hlow, hform⟩ | ⟨hhigh, b, bs, hform, hbytes⟩
    · rw [hform, decide_eq_true hlow, Bool.true_and, List.all_cons, List.all_nil, Bool.and_true]
    · rw [hform, decide_eq_false (Nat.not_lt.mpr hhigh), List.all_cons,
        hp b (hbytes b List.mem_cons_self)]
      rfl

theorem encodable_of_ascii {s : Str} (h : ∀ c ∈ s, c.val < 0x80) : Encodable s := fun c hc => by
  have := h c hc
  simp only [CodePoint.isSurrogate, Bool.and_eq_false_iff, decide_eq_false_iff_not]
  omega

theorem length_utf8_ascii {s : Str} (h : ∀ c ∈ s, c.val < 0x80) : (utf8 s).length = s.length := by
  induction s with
  | nil => rfl
  | cons c s ih =>
    obtain ⟨hc, hs⟩ := List.forall_mem_cons.mp h
    rw [utf8_cons, encodeChar, if_pos hc, Option.getD_some, List.singleton_append,
      List.length_cons, List.length_cons, ih hs]

end Python
