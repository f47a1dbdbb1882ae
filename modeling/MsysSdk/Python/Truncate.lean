import MsysSdk.Python.Utf8

/-! `bytes.decode("utf-8", "ignore")`, and what it makes of the first bytes of a string: the
characters that lie within them stay, and the one that the cut goes through is dropped whole. -/

namespace Python

/-- The character that the first `n` bytes form, and the bytes after it. -/
def decodeForm (n : Nat) (b : Bytes) : Option (CodePoint × Bytes) :=
  match decodeUtf8 (b.take n) with
  | some [c] => some (c, b.drop n)
  | _ => none

def decodeHead (b : Bytes) : Option (CodePoint × Bytes) :=
  (decodeForm 1 b).or ((decodeForm 2 b).or ((decodeForm 3 b).or (decodeForm 4 b)))

/-- The second byte can follow the first one in some character. -/
def validSecond (a b : UInt8) : Bool :=
  if a < 0xC2 || 0xF4 < a then false
  else if a = 0xE0 then 0xA0 ≤ b && b ≤ 0xBF
  else if a = 0xED then 0x80 ≤ b && b ≤ 0x9F
  else if a = 0xF0 then 0x90 ≤ b && b ≤ 0xBF
  else if a = 0xF4 then 0x80 ≤ b && b ≤ 0x8F
  else isTail b

/-- How many bytes are dropped where no character begins: as many as could still begin one. -/
def malformed : Bytes → Nat
  | a :: b :: c :: _ => if !validSecond a b then 1 else if 0xF0 ≤ a && isTail c then 3 else 2
  | [a, b] => if validSecond a b then 2 else 1
  | _ => 1

def decodeIgnoreFuel : Nat → Bytes → Str
  | 0, _ => []
  | fuel + 1, b =>
    if b = [] then []
    else match decodeHead b with
      | some (c, rest) => c :: decodeIgnoreFuel fuel rest
      | none => decodeIgnoreFuel fuel (b.drop (malformed b))

/-- Every step takes a byte at least. -/
def decodeIgnore (b : Bytes) : Str := decodeIgnoreFuel b.length b

example : decodeIgnore [0x61, 0xE4, 0xBD, 0xF0, 0x9F, 0x98, 0x80, 0xFF, 0x62, 0xE4] =
    [0x61, 0x1F600, 0x62] := by decide +kernel

/-! ### The first bytes of a string -/

/-- The characters within the first `n` bytes. -/
def cutTo : Nat → Str → Str
  | _, [] => []
  | n, c :: s => if (utf8 [c]).length ≤ n then c :: cutTo (n - (utf8 [c]).length) s else []

theorem cutTo_isPrefix (n : Nat) (s : Str) : cutTo n s <+: s := by
  induction s generalizing n with
  | nil => exact List.prefix_rfl
  | cons c s ih =>
    rw [cutTo]
    split_ifs
    · exact (List.prefix_cons_inj c).mpr (ih _)
    · exact List.nil_prefix

theorem length_utf8_cutTo (n : Nat) (s : Str) : (utf8 (cutTo n s)).length ≤ n := by
  induction s generalizing n with
  | nil => exact Nat.zero_le n
  | cons c s ih =>
    rw [cutTo]
    split_ifs with hfits
    · have hrest := ih (n - (utf8 [c]).length)
      rw [← List.singleton_append, utf8_append, List.length_append]
      omega
    · exact Nat.zero_le n

theorem cutTo_of_fits {n : Nat} {s : Str} (h : (utf8 s).length ≤ n) : cutTo n s = s := by
  induction s generalizing n with
  | nil => rfl
  | cons c s ih =>
    rw [← List.singleton_append, utf8_append, List.length_append] at h
    rw [cutTo, if_pos (by omega), ih (by omega)]

/-! ### Decoding what was cut -/

theorem decodeUtf8_append {s : Str} {b : Bytes} (h : encodeUtf8 s = some b) (rest : Bytes) :
    decodeUtf8 (b ++ rest) = (decodeUtf8 rest).map (s ++ ·) := by
  induction s generalizing b with
  | nil =>
    cases h
    simp
  | cons c s ih =>
    simp only [encodeUtf8, Option.bind_eq_bind, Option.bind_eq_some_iff, Option.pure_def,
      Option.some.injEq] at h
    obtain ⟨form, hform, bytes, hbytes, rfl⟩ := h
    rw [List.append_assoc, decodeUtf8_form hform, ih hbytes, Option.map_map]
    rfl

theorem encodeUtf8_singleton {c : CodePoint} {form : Bytes} (h : encodeChar c = some form) :
    encodeUtf8 [c] = some form := by
  rw [encodeUtf8, h]
  simp [encodeUtf8]

theorem utf8_singleton {c : CodePoint} {form : Bytes} (h : encodeChar c = some form) :
    utf8 [c] = form := utf8_of_encode (encodeUtf8_singleton h)

theorem form_length {c : CodePoint} {form : Bytes} (h : encodeChar c = some form) :
    form.length = 1 ∨ form.length = 2 ∨ form.length = 3 ∨ form.length = 4 := by
  rcases encodeChar_cases h with ⟨-, rfl⟩ | ⟨a, b, rfl, -⟩ | ⟨a, b, d, rfl, -⟩ |
    ⟨a, b, d, e, rfl, -⟩ <;> simp

variable {c : CodePoint} {form : Bytes}

/-- The beginning of a form is no text. -/
theorem decode_partial (h : encodeChar c = some form) {k : Nat} (h0 : 0 < k)
    (hk : k < form.length) : decodeUtf8 (form.take k) = none := by
  rw [Option.eq_none_iff_forall_ne_some]
  intro s hs
  have hencode := encode_of_decode hs
  have hwhole : decodeUtf8 form = some [c] := decode_of_encode (encodeUtf8_singleton h)
  have hparts := decodeUtf8_append hencode (form.drop k)
  rw [List.take_append_drop, hwhole] at hparts
  obtain ⟨t, -, ht⟩ := Option.map_eq_some_iff.mp hparts.symm
  have htake : (form.take k).length = k := by
    rw [List.length_take]
    omega
  cases s with
  | nil =>
    cases hencode' : form.take k with
    | nil =>
      rw [hencode'] at htake
      simp at htake
      omega
    | cons x bs =>
      rw [hencode'] at hencode
      cases hencode
  | cons d s =>
    obtain ⟨rfl, hnil⟩ := List.cons.inj ht
    obtain ⟨rfl, -⟩ := List.append_eq_nil_iff.mp hnil
    rw [encodeUtf8_singleton h] at hencode
    have hlength := congrArg List.length (Option.some.inj hencode)
    omega

theorem decodeForm_partial (h : encodeChar c = some form) {k : Nat} (h0 : 0 < k)
    (hk : k < form.length) (rest : Bytes) : decodeForm k (form ++ rest) = none := by
  rw [decodeForm, List.take_append_of_le_length (Nat.le_of_lt hk), decode_partial h h0 hk]

theorem decodeForm_whole (h : encodeChar c = some form) (rest : Bytes) :
    decodeForm form.length (form ++ rest) = some (c, rest) := by
  have hwhole : decodeUtf8 form = some [c] := decode_of_encode (encodeUtf8_singleton h)
  rw [decodeForm, List.take_left, hwhole, List.drop_left]

theorem decodeHead_form (h : encodeChar c = some form) (rest : Bytes) :
    decodeHead (form ++ rest) = some (c, rest) := by
  have hwhole := decodeForm_whole h rest
  have hbegun := fun k h0 hk => decodeForm_partial (k := k) h h0 hk rest
  rw [decodeHead]
  rcases form_length h with hlen | hlen | hlen | hlen
  · rw [hlen] at hwhole
    rw [hwhole]
    rfl
  · rw [hlen] at hwhole
    rw [hbegun 1 (by decide) (by omega), hwhole]
    rfl
  · rw [hlen] at hwhole
    rw [hbegun 1 (by decide) (by omega), hbegun 2 (by decide) (by omega), hwhole]
    rfl
  · rw [hlen] at hwhole
    rw [hbegun 1 (by decide) (by omega), hbegun 2 (by decide) (by omega),
      hbegun 3 (by decide) (by omega), hwhole]
    rfl

theorem decodeHead_partial (h : encodeChar c = some form) {k : Nat} (h0 : 0 < k)
    (hk : k < form.length) : decodeHead (form.take k) = none := by
  have hnone : ∀ j, 0 < j → decodeForm j (form.take k) = none := by
    intro j hj
    rw [decodeForm, List.take_take, decode_partial h (by omega) (by omega)]
  rw [decodeHead, hnone 1 (by decide), hnone 2 (by decide), hnone 3 (by decide),
    hnone 4 (by decide)]
  rfl

theorem validSecond_three {a b d : UInt8} (ha : 0xE0 ≤ a.toNat ∧ a.toNat ≤ 0xEF)
    (hb : isTail b = true) (hd : isTail d = true)
    (hc : c.val = ((a.toNat - 0xE0) * 0x40 + (b.toNat - 0x80)) * 0x40 + (d.toNat - 0x80))
    (hmin : 0x800 ≤ c.val) (hsurrogate : c.isSurrogate = false) : validSecond a b = true := by
  rw [isTail_iff] at hb hd
  simp only [CodePoint.isSurrogate, Bool.and_eq_false_iff, decide_eq_false_iff_not] at hsurrogate
  simp only [validSecond, isTail, Bool.or_eq_true, decide_eq_true_eq, UInt8.lt_iff_toNat_lt,
    UInt8.le_iff_toNat_le, ← UInt8.toNat_inj]
  simp only [UInt8.reduceToNat]
  split_ifs
  · omega
  all_goals
    rw [Bool.and_eq_true, decide_eq_true_eq, decide_eq_true_eq]
    omega

theorem validSecond_four {a b d e : UInt8} (ha : 0xF0 ≤ a.toNat ∧ a.toNat ≤ 0xF4)
    (hb : isTail b = true) (hd : isTail d = true) (he : isTail e = true)
    (hc : c.val = (((a.toNat - 0xF0) * 0x40 + (b.toNat - 0x80)) * 0x40 + (d.toNat - 0x80)) * 0x40 +
      (e.toNat - 0x80)) (hmin : 0x10000 ≤ c.val) : validSecond a b = true := by
  have hmax := c.isLt
  rw [isTail_iff] at hb hd he
  simp only [validSecond, isTail, Bool.or_eq_true, decide_eq_true_eq, UInt8.lt_iff_toNat_lt,
    UInt8.le_iff_toNat_le, ← UInt8.toNat_inj]
  simp only [UInt8.reduceToNat]
  split_ifs
  · omega
  all_goals
    rw [Bool.and_eq_true, decide_eq_true_eq, decide_eq_true_eq]
    omega

/-- The beginning of a form is dropped whole. -/
theorem malformed_partial (h : encodeChar c = some form) {k : Nat} (h0 : 0 < k)
    (hk : k < form.length) : malformed (form.take k) = k := by
  rcases encodeChar_cases h with ⟨-, rfl⟩ | ⟨a, b, rfl, -⟩ |
    ⟨a, b, d, rfl, ha, hb, hd, hc, hmin, hsurrogate⟩ |
    ⟨a, b, d, e, rfl, ha, hb, hd, he, hc, hmin⟩
  · simp at hk
    omega
  · obtain rfl : k = 1 := by
      simp at hk
      omega
    rfl
  · have hsecond := validSecond_three ha hb hd hc hmin hsurrogate
    obtain rfl | rfl : k = 1 ∨ k = 2 := by
      simp at hk
      omega
    · rfl
    · exact if_pos hsecond
  · have hsecond := validSecond_four ha hb hd he hc hmin
    have hlead : 0xF0 ≤ a := ha.1
    obtain rfl | rfl | rfl : k = 1 ∨ k = 2 ∨ k = 3 := by
      simp at hk
      omega
    · rfl
    · exact if_pos hsecond
    · simp [malformed, hsecond, hlead, hd]

theorem decodeIgnoreFuel_nil (fuel : Nat) : decodeIgnoreFuel fuel [] = [] := by
  cases fuel <;> rfl

theorem decodeIgnoreFuel_cut {s : Str} (hs : Encodable s) {n fuel : Nat}
    (hfuel : ((utf8 s).take n).length ≤ fuel) :
    decodeIgnoreFuel fuel ((utf8 s).take n) = cutTo n s := by
  induction s generalizing n fuel with
  | nil => rw [utf8_nil, List.take_nil, decodeIgnoreFuel_nil, cutTo]
  | cons c s ih =>
    obtain ⟨hc, hrest⟩ := List.forall_mem_cons.mp hs
    obtain ⟨form, hform⟩ : ∃ form, encodeChar c = some form :=
      Option.isSome_iff_exists.mp (by rw [encodeChar_isSome, hc]; rfl)
    have hone := utf8_singleton hform
    have hpos : 0 < form.length := by
      have := form_length hform
      omega
    rw [← List.singleton_append, utf8_append, hone] at hfuel ⊢
    rw [List.singleton_append, cutTo, hone]
    by_cases hfits : form.length ≤ n
    · have htake : (form ++ utf8 s).take n = form ++ (utf8 s).take (n - form.length) := by
        rw [List.take_append, List.take_of_length_le hfits]
      have hne : form ++ (utf8 s).take (n - form.length) ≠ [] := by
        apply List.ne_nil_of_length_pos
        rw [List.length_append]
        omega
      rw [htake] at hfuel ⊢
      rw [List.length_append] at hfuel
      obtain ⟨fuel, rfl⟩ : ∃ m, fuel = m + 1 := ⟨fuel - 1, by omega⟩
      rw [if_pos hfits, decodeIgnoreFuel, if_neg hne, decodeHead_form hform]
      exact congrArg (c :: ·) (ih hrest (by omega))
    · have htake : (form ++ utf8 s).take n = form.take n :=
        List.take_append_of_le_length (by omega)
      rw [htake] at hfuel ⊢
      rw [if_neg hfits]
      rcases Nat.eq_zero_or_pos n with rfl | h0
      · exact decodeIgnoreFuel_nil fuel
      have hne : form.take n ≠ [] := by
        apply List.ne_nil_of_length_pos
        rw [List.length_take]
        omega
      rw [List.length_take] at hfuel
      obtain ⟨fuel, rfl⟩ : ∃ m, fuel = m + 1 := ⟨fuel - 1, by omega⟩
      have hdrop : (form.take n).drop n = [] := List.drop_eq_nil_of_le (List.length_take_le _ _)
      rw [decodeIgnoreFuel, if_neg hne, decodeHead_partial hform h0 (by omega),
        malformed_partial hform h0 (by omega), hdrop]
      exact decodeIgnoreFuel_nil fuel

theorem decodeIgnore_cut {s : Str} (hs : Encodable s) (n : Nat) :
    decodeIgnore ((utf8 s).take n) = cutTo n s := decodeIgnoreFuel_cut hs (Nat.le_refl _)

/-! ### ASCII -/

theorem cutTo_ascii {s : Str} (h : ∀ c ∈ s, c.val < 0x80) (n : Nat) : cutTo n s = s.take n := by
  induction s generalizing n with
  | nil => rw [cutTo, List.take_nil]
  | cons c s ih =>
    obtain ⟨hc, hs⟩ := List.forall_mem_cons.mp h
    have hone : (utf8 [c]).length = 1 := length_utf8_ascii (by simpa using hc)
    rw [cutTo, hone]
    cases n with
    | zero => rfl
    | succ n =>
      rw [if_pos (Nat.le_add_left 1 n), Nat.add_sub_cancel, ih hs]
      rfl

/-- Cutting the bytes of an ASCII string cuts its characters. -/
theorem decodeIgnore_take {s : Str} (h : ∀ c ∈ s, c.val < 0x80) (n : Nat) :
    decodeIgnore ((utf8 s).take n) = s.take n := by
  rw [decodeIgnore_cut (encodable_of_ascii h), cutTo_ascii h]

end Python
