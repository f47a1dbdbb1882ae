import MsysSdk.Mipc.CursorScan
import MsysSdk.Mipc.Finding
import MsysSdk.Mipc.Names

/-! The accessors on a string in memory: they read no byte behind a NUL, each loop ends within
the length of the string, and what they return are parts of it. -/

namespace Msys.Mipc.Cursor
open Libc

variable {s t key : Bytes} {cursor rounds first finish : Nat}

/-! ### Names -/

theorem between_eq (hlt : first ≤ finish) (hfinish : finish ≤ s.length) :
    between (s.drop first) (s.drop finish) = (s.take finish).drop first := by
  rw [between, List.length_drop, List.length_drop, List.drop_take]
  congr 1
  omega

/-- What is between two cursors, without the quotes at its ends. -/
theorem between_body (hle : first ≤ finish) (hfinish : finish ≤ s.length) :
    (between (s.drop first) (s.drop finish)).tail.dropLast =
      (s.take (finish - 1)).drop (first + 1) := by
  rw [between_eq hle hfinish, List.tail_drop, List.dropLast_eq_take, length_slice hfinish,
    List.take_drop, List.take_take]
  by_cases hshort : finish ≤ first + 1
  · rw [slice_nil (by omega), List.drop_eq_nil_of_le]
    rw [List.length_take]
    omega
  · congr 2
    omega

theorem keyEquals_next {b : UInt8} (hb : b ≠ chr '\\') (body k : Bytes) :
    keyEquals (b :: body) k = (decide (k.head? = some b) && keyEquals body k.tail) := by
  cases k with
  | nil => exact keyEquals_plain_nil hb body
  | cons c k =>
    rw [keyEquals_plain hb]
    simp [eq_comm]

theorem keyEquals_nextEscape {e decoded : UInt8} (he : shortEscape e = some decoded)
    (body k : Bytes) : keyEquals (chr '\\' :: e :: body) k =
      (decide (k.head? = some decoded) && keyEquals body k.tail) := by
  cases k with
  | nil => exact keyEquals_escape_nil e body
  | cons c k =>
    rw [keyEquals_escape he]
    simp [eq_comm]

theorem keyEquals_noEscape {e : UInt8} (he : shortEscape e = none) (body k : Bytes) :
    keyEquals (chr '\\' :: e :: body) k = false := by
  rw [keyEquals.eq_def]
  simp only [if_pos, he]

theorem keyLoop_eq (hkey : 0 ∉ key) (hfinish : finish ≤ s.length) {k : Bytes} {keyCursor : Nat}
    (hk : At key keyCursor k) (hrounds : finish - cursor < rounds) :
    keyLoop s key finish rounds cursor keyCursor =
      pure (keyEquals ((s.take finish).drop cursor) k) := by
  induction rounds generalizing cursor keyCursor k with
  | zero => omega
  | succ rounds ih =>
    have hcompare : ∀ (decoded : UInt8) (next : Nat), cursor < next → cursor < finish →
        (do
          let k' ← readByte key keyCursor
          if k' = 0 || decoded ≠ k' then pure false
          else keyLoop s key finish rounds next (keyCursor + 1)) =
        (pure (decide (k.head? = some decoded) && keyEquals ((s.take finish).drop next) k.tail) :
          Checked Bool) := by
      intro decoded next hnext hlt
      cases k with
      | nil =>
        rw [hk.read_nil, pure_bind]
        rfl
      | cons c rest =>
        rw [hk.read_cons, pure_bind]
        by_cases hc : decoded = c
        · have hpass : (decide (c = 0) || decide (decoded ≠ c)) = false := by
            simp [hc, ne_zero hkey hk]
          rw [hpass, if_neg Bool.false_ne_true, ih hk.next (by omega)]
          simp [hc]
        · have hstop : (decide (c = 0) || decide (decoded ≠ c)) = true := by simp [hc]
          rw [hstop, if_pos rfl]
          simp [Ne.symm hc]
    rw [keyLoop]
    by_cases hlt : cursor < finish
    swap
    · rw [if_neg hlt, slice_nil (Nat.le_of_not_lt hlt), keyEquals]
      cases k with
      | nil =>
        rw [hk.read_nil]
        rfl
      | cons c rest =>
        rw [hk.read_cons, pure_bind, decide_eq_false (ne_zero hkey hk)]
        rfl
    obtain ⟨b, hb, hslice⟩ := slice_cons hlt hfinish
    rw [if_pos hlt, nextKeyByte, hb, pure_bind, hslice]
    by_cases hbackslash : b = chr '\\'
    swap
    · rw [if_neg hbackslash, pure_bind, keyEquals_next hbackslash]
      exact hcompare b (cursor + 1) (by omega) hlt
    rw [if_pos hbackslash, hbackslash]
    by_cases hend : finish ≤ cursor + 1
    · rw [if_pos hend, pure_bind, slice_nil hend]
      rfl
    obtain ⟨e, he, hslice'⟩ := slice_cons (Nat.lt_of_not_le hend) hfinish
    rw [if_neg hend, he, hslice']
    simp only [pure_bind]
    cases hescape : shortEscape e with
    | none =>
      rw [keyEquals_noEscape hescape]
      rfl
    | some decoded =>
      rw [keyEquals_nextEscape hescape]
      exact hcompare decoded (cursor + 2) (by omega) hlt

/-- The names are compared within the quotes of the literal. -/
theorem jsonKeyEquals_eq (hkey : 0 ∉ key) (hle : first ≤ finish) (hfinish : finish ≤ s.length)
    (hrounds : s.length < rounds) :
    jsonKeyEquals s rounds first finish key =
      pure (Mipc.jsonKeyEquals (s.drop first) (s.drop finish) key) := by
  rw [jsonKeyEquals, keyLoop_eq hkey (by omega) (.of_le (Nat.zero_le _)) (by omega),
    Mipc.jsonKeyEquals, between_body hle hfinish, List.drop_zero]

/-! ### The lookup -/

/-- A result of the lookup, by its cursors and by what they point at. -/
def Finds (s : Bytes) (x : Checked (Except Result (Nat × Nat)))
    (r : Except Result (Bytes × Bytes)) : Prop :=
  (∃ e, x = pure (.error e) ∧ r = .error e) ∨
    ∃ first finish t u, x = pure (.ok (first, finish)) ∧ r = .ok (t, u) ∧ first < finish ∧
      At s first t ∧ At s finish u

theorem Finds.error (e : Result) : Finds s (pure (.error e)) (.error e) := .inl ⟨e, rfl, rfl⟩

variable {frames fuel n : Nat}

theorem findMember_at (hs : 0 ∉ s) (hkey : 0 ∉ key) (hrounds : s.length < rounds)
    (hframes : jsonMaxDepth < frames) (h : At s cursor t) (hfuel : t.length < fuel)
    (hn : t.length < n) :
    Finds s (findMember s rounds frames key n cursor) (Mipc.findMember fuel key t) := by
  induction fuel generalizing cursor t n with
  | zero => omega
  | succ fuel ih =>
    obtain ⟨n, rfl⟩ := Nat.exists_eq_add_of_le' (Nat.one_le_of_lt hn)
    rw [findMember, Mipc.findMember]
    have hlength := h.add_length
    -- the name
    rcases skipJsonString_at hs h hrounds with ⟨hx, hr⟩ | ⟨keyEnd, u, hx, hr, hname, hu⟩
    · rw [hx, hr, pure_bind]
      exact .error _
    obtain ⟨k, c, hk, hc, hle, hat, hcases⟩ := peek hu hrounds
    rw [hx, hr, pure_bind]
    dsimp only
    rw [hk, pure_bind, hc, pure_bind]
    rcases hcases with ⟨hrest, rfl⟩ | ⟨rest, hrest⟩
    · rw [hrest]
      exact .error _
    rw [hrest] at hat ⊢
    dsimp only
    by_cases hcolon : c ≠ chr ':'
    · rw [if_pos hcolon, if_pos hcolon]
      exact .error _
    -- the value
    obtain ⟨first, hfirst, hfirstLe, hvalue⟩ := skipSpace_at hat.next hrounds
    rw [if_neg hcolon, if_neg hcolon, hfirst, pure_bind]
    have hscan : Scans s (first + 1) (skipJsonValue s rounds frames 1 first)
        (Mipc.skipJsonValue (Mipc.skipSpace rest) 1) :=
      skipJsonValue_at hs hrounds (Nat.zero_lt_of_lt hframes) (by omega) hvalue
    rcases hscan with ⟨hx, hr⟩ | ⟨finish, v, hx, hr, hlt, hv⟩
    · rw [hx, hr, pure_bind]
      exact .error _
    obtain ⟨k', c', hk', hc', hle', hat', hcases⟩ := peek hv hrounds
    rw [hx, hr, pure_bind]
    dsimp only
    rw [hk', pure_bind, hc', pure_bind]
    rcases hcases with ⟨hrest, rfl⟩ | ⟨rest', hrest⟩
    · rw [hrest]
      exact .error _
    rw [hrest] at hat' ⊢
    dsimp only
    by_cases hdelimiter : (c' ≠ chr ',' && c' ≠ chr '}') = true
    · rw [if_pos hdelimiter, if_pos hdelimiter]
      exact .error _
    have hequal : jsonKeyEquals s rounds cursor keyEnd key = _ :=
      jsonKeyEquals_eq hkey (by omega) hu.inside hrounds
    rw [h.rest, hu.rest] at hequal
    rw [if_neg hdelimiter, if_neg hdelimiter, hequal, pure_bind]
    by_cases hfound : Mipc.jsonKeyEquals t u key = true
    · rw [if_pos hfound, if_pos hfound]
      exact .inr ⟨first, finish, _, v, rfl, rfl, hlt, hvalue, hv⟩
    rw [if_neg hfound, if_neg hfound, pure_bind, hc', pure_bind]
    by_cases hclose : c' = chr '}'
    · rw [if_pos hclose, if_pos hclose]
      exact .error _
    have hcomma : ¬c' ≠ chr ',' := by simpa [hclose] using hdelimiter
    obtain ⟨l, hl, hlLe, hnext⟩ := skipSpace_at hat'.next hrounds
    have hnextLength := hnext.add_length
    rw [if_neg hclose, if_neg hclose, if_neg hcomma, hl, pure_bind]
    exact ih hnext (by omega) (by omega)

theorem findTopLevelValue_at (hs : 0 ∉ s) (hkey : 0 ∉ key) (hrounds : s.length < rounds)
    (hframes : jsonMaxDepth < frames) :
    Finds s (findTopLevelValue s rounds frames key) (Mipc.findTopLevelValue s key) := by
  have hstart : At key 0 key := .of_le (Nat.zero_le _)
  have hjson : At s 0 s := .of_le (Nat.zero_le _)
  rw [findTopLevelValue, Mipc.findTopLevelValue]
  cases key with
  | nil =>
    rw [hstart.read_nil, pure_bind]
    exact .error _
  | cons b key =>
    rw [hstart.read_cons, pure_bind, if_neg (ne_zero hkey hstart), if_neg (List.cons_ne_nil _ _)]
    obtain ⟨k, c, hk, hc, -, hat, hcases⟩ := peek hjson hrounds
    rw [hk, pure_bind, hc, pure_bind]
    rcases hcases with ⟨hrest, rfl⟩ | ⟨rest, hrest⟩
    · rw [hrest]
      exact .error _
    rw [hrest] at hat ⊢
    dsimp only
    by_cases hbrace : c ≠ chr '{'
    · rw [if_pos hbrace, if_pos hbrace]
      exact .error _
    obtain ⟨k', d, hk', hd, -, hat', hcases⟩ := peek hat.next hrounds
    rw [if_neg hbrace, if_neg hbrace, hk', pure_bind, hd, pure_bind]
    have hlength := hat'.add_length
    have hmember := findMember_at hs hkey hrounds hframes hat'
      (show (Mipc.skipSpace rest).length < s.length + 1 by omega)
      (show (Mipc.skipSpace rest).length < rounds by omega)
    rcases hcases with ⟨hinner, rfl⟩ | ⟨inner, hinner⟩
    · rw [hinner, Mipc.findMember] at hmember
      rw [hinner, if_neg (by decide)]
      exact hmember
    rw [hinner] at hmember ⊢
    dsimp only
    by_cases hend : d = chr '}'
    · rw [if_pos hend, if_pos hend]
      exact .error _
    · rwa [if_neg hend, if_neg hend]

/-! ### The text of a value -/

theorem jsonGetRaw_at (hs : 0 ∉ s) (hkey : 0 ∉ key) (hrounds : s.length < rounds)
    (hframes : jsonMaxDepth < frames) :
    (∃ e, jsonGetRaw s rounds frames key = pure (.error e) ∧ Mipc.jsonGetRaw s key = .error e) ∨
      ∃ first length, jsonGetRaw s rounds frames key = pure (.ok (first, length)) ∧
        Mipc.jsonGetRaw s key = .ok ((s.drop first).take length) ∧
        0 < length ∧ first + length ≤ s.length := by
  rw [jsonGetRaw, Mipc.jsonGetRaw]
  rcases findTopLevelValue_at hs hkey hrounds hframes with ⟨e, hx, hr⟩ |
    ⟨first, finish, t, u, hx, hr, hlt, ht, hu⟩
  · rw [hx, hr]
    exact .inl ⟨e, rfl, rfl⟩
  · have hinside := hu.inside
    have hbetween := between_eq (Nat.le_of_lt hlt) hinside
    rw [ht.rest, hu.rest, List.drop_take, ht.rest] at hbetween
    rw [hx, hr]
    refine .inr ⟨first, finish - first, rfl, ?_, by omega, by omega⟩
    rw [ht.rest, ← hbetween]
    rfl

/-! ### Strings -/

/-- One round of a loop that ends at `finish`. -/
def Decodes (s : Bytes) (finish cursor : Nat) (x : Checked (Option (Bytes × Nat)))
    (r : Option (Bytes × Bytes)) : Prop :=
  (x = pure none ∧ r = none) ∨
    ∃ bytes next, x = pure (some (bytes, next)) ∧ r = some (bytes, (s.take finish).drop next) ∧
      cursor < next ∧ next ≤ finish

theorem Decodes.none : Decodes s finish cursor (pure none) none := .inl ⟨rfl, rfl⟩

theorem decodeHexQuad_short {body : Bytes} (h : body.length < 4) :
    Mipc.decodeHexQuad body = none := by
  rcases body with _ | ⟨h₁, _ | ⟨h₂, _ | ⟨h₃, _ | ⟨h₄, body⟩⟩⟩⟩
  · rfl
  · rfl
  · rfl
  · rfl
  · simp only [List.length_cons] at h
    omega

theorem decodeHexQuad_eq (hfinish : finish ≤ s.length) (hroom : cursor + 4 ≤ finish) :
    decodeHexQuad s cursor = pure (Mipc.decodeHexQuad ((s.take finish).drop cursor)) := by
  obtain ⟨h₁, hread₁, hslice₁⟩ := slice_cons (show cursor < finish by omega) hfinish
  obtain ⟨h₂, hread₂, hslice₂⟩ := slice_cons (show cursor + 1 < finish by omega) hfinish
  obtain ⟨h₃, hread₃, hslice₃⟩ := slice_cons (show cursor + 1 + 1 < finish by omega) hfinish
  obtain ⟨h₄, hread₄, hslice₄⟩ := slice_cons (show cursor + 1 + 1 + 1 < finish by omega) hfinish
  rw [decodeHexQuad, hslice₁, hslice₂, hslice₃, hslice₄, Mipc.decodeHexQuad]
  simp only [hexDigits, hread₁, hread₂, hread₃, hread₄, pure_bind]
  cases hexValue h₁ with
  | none => rfl
  | some d₁ =>
  cases hexValue h₂ with
  | none => rfl
  | some d₂ =>
  cases hexValue h₃ with
  | none => rfl
  | some d₃ =>
  cases hexValue h₄ with
  | none => rfl
  | some d₄ => simp

theorem decodeUnicode_at (hfinish : finish ≤ s.length) (hle : cursor ≤ finish) :
    Decodes s finish cursor (decodeUnicode s finish cursor)
      (Mipc.decodeUnicode ((s.take finish).drop cursor)) := by
  rw [decodeUnicode, Mipc.decodeUnicode]
  by_cases hroom : finish - cursor < 4
  · rw [if_pos hroom, decodeHexQuad_short (by rwa [length_slice hfinish])]
    exact .none
  rw [if_neg hroom, decodeHexQuad_eq hfinish (by omega), pure_bind]
  cases Mipc.decodeHexQuad ((s.take finish).drop cursor) with
  | none => exact .none
  | some codepoint =>
  simp only [Option.bind_eq_bind, Option.bind_some, List.drop_drop, Option.pure_def]
  by_cases hhigh : (0xD800 ≤ codepoint && codepoint ≤ 0xDBFF) = true
  swap
  · rw [if_neg hhigh, if_neg hhigh]
    by_cases hlow : (0xDC00 ≤ codepoint && codepoint ≤ 0xDFFF) = true
    · rw [if_pos hlow, if_pos hlow]
      exact .none
    · rw [if_neg hlow, if_neg hlow]
      exact .inr ⟨_, cursor + 4, rfl, rfl, by omega, by omega⟩
  rw [if_pos hhigh, if_pos hhigh]
  by_cases hshort : finish - (cursor + 4) < 6
  · have hlength : ((s.take finish).drop (cursor + 4)).length = _ := length_slice hfinish
    rw [if_pos hshort]
    rcases hbody : (s.take finish).drop (cursor + 4) with _ | ⟨b, _ | ⟨u, rest⟩⟩
    · exact .none
    · exact .none
    · rw [hbody, List.length_cons, List.length_cons] at hlength
      dsimp only
      have hquad : Mipc.decodeHexQuad rest = none := decodeHexQuad_short (by omega)
      rw [hquad, Option.bind_none, ite_self]
      exact .none
  obtain ⟨b, hb, hslice⟩ := slice_cons (show cursor + 4 < finish by omega) hfinish
  obtain ⟨u, hu, hslice'⟩ := slice_cons (show cursor + 5 < finish by omega) hfinish
  rw [if_neg hshort, hb, pure_bind, hslice, hslice']
  dsimp only
  by_cases hbackslash : b = chr '\\'
  swap
  · rw [if_pos hbackslash, if_neg (by simp [hbackslash])]
    exact .none
  rw [if_neg (not_not.mpr hbackslash), hu, pure_bind]
  by_cases hletter : u = chr 'u'
  swap
  · rw [if_pos hletter, if_neg (by simp [hletter])]
    exact .none
  rw [if_neg (not_not.mpr hletter), if_pos (by simp [hbackslash, hletter]),
    decodeHexQuad_eq hfinish (by omega), pure_bind]
  cases Mipc.decodeHexQuad ((s.take finish).drop (cursor + 6)) with
  | none => exact .none
  | some low =>
  dsimp only
  rw [Option.bind_some]
  by_cases hlow : (decide (low < 0xDC00) || decide (0xDFFF < low)) = true
  · rw [if_pos hlow, if_pos hlow]
    exact .none
  · rw [if_neg hlow, if_neg hlow, List.drop_drop]
    exact .inr ⟨_, cursor + 10, rfl, rfl, by omega, by omega⟩

theorem decodeNext_at (hfinish : finish ≤ s.length) (hlt : cursor < finish) :
    Decodes s finish cursor (decodeNext s finish cursor)
      (Mipc.decodeNext ((s.take finish).drop cursor)) := by
  obtain ⟨b, hb, hslice⟩ := slice_cons hlt hfinish
  rw [decodeNext, hb, pure_bind, hslice, Mipc.decodeNext.eq_def]
  dsimp only
  by_cases hbackslash : b ≠ chr '\\'
  · rw [if_pos hbackslash, if_pos hbackslash]
    exact .inr ⟨_, cursor + 1, rfl, rfl, by omega, by omega⟩
  rw [if_neg hbackslash, if_neg hbackslash]
  by_cases hend : finish ≤ cursor + 1
  · rw [if_pos hend, slice_nil hend]
    exact .none
  obtain ⟨e, he, hslice'⟩ := slice_cons (Nat.lt_of_not_le hend) hfinish
  rw [if_neg hend, he, pure_bind, hslice']
  dsimp only
  by_cases hu : e = chr 'u'
  · rw [if_pos hu, if_pos hu]
    have hunicode : Decodes s finish (cursor + 1 + 1) _ _ := decodeUnicode_at hfinish (by omega)
    rcases hunicode with h | ⟨bytes, next, hx, hr, hnext, hle⟩
    · exact .inl h
    · exact .inr ⟨bytes, next, hx, hr, by omega, hle⟩
  rw [if_neg hu, if_neg hu]
  cases shortEscape e with
  | none => exact .none
  | some decoded => exact .inr ⟨_, cursor + 2, rfl, rfl, by omega, by omega⟩

theorem decodeString_eq (hfinish : finish ≤ s.length) {capacity written fuel : Nat} {m : Buffer}
    (hrounds : finish - cursor < rounds) (hfuel : finish - cursor < fuel) :
    decodeString s finish capacity rounds m written cursor =
      pure (Mipc.decodeString capacity fuel m written ((s.take finish).drop cursor)) := by
  induction rounds generalizing cursor written fuel m with
  | zero => omega
  | succ rounds ih =>
    obtain ⟨fuel, rfl⟩ := Nat.exists_eq_add_of_le' (Nat.one_le_of_lt hfuel)
    rw [decodeString, Mipc.decodeString]
    by_cases hlt : cursor < finish
    swap
    · rw [if_neg hlt, if_pos ((slice_eq_nil hfinish).mpr (Nat.le_of_not_lt hlt))]
      exact (apply_ite pure _ _ _).symm
    rw [if_pos hlt, if_neg (mt (slice_eq_nil hfinish).mp (Nat.not_le_of_lt hlt))]
    rcases decodeNext_at hfinish hlt with ⟨hx, hr⟩ | ⟨bytes, next, hx, hr, hnext, hle⟩
    · rw [hx, hr, pure_bind]
    rw [hx, hr, pure_bind]
    dsimp only
    by_cases hroom : written ≤ sizeMax - bytes.length
    · rw [if_pos hroom, if_pos hroom]
      exact ih (by omega) (by omega)
    · rw [if_neg hroom, if_neg hroom]

/-- The first and the last byte of a value, in memory and as the list has them. -/
theorem value_ends (hlt : first < finish) (hfinish : finish ≤ s.length) :
    ∃ a z, readByte s first = pure a ∧ readByte s (finish - 1) = pure z ∧
      ((s.take finish).drop first).head? = some a ∧
      ((s.take finish).drop first).getLast? = some z := by
  obtain ⟨a, ha, hfirst⟩ := slice_cons hlt hfinish
  obtain ⟨z, hz, hlast⟩ := slice_cons (show finish - 1 < finish by omega) hfinish
  rw [slice_nil (show finish ≤ finish - 1 + 1 by omega)] at hlast
  have hsplit : (s.take finish).drop (finish - 1) =
      ((s.take finish).drop first).drop (finish - 1 - first) := by
    rw [List.drop_drop]
    congr 1
    omega
  refine ⟨a, z, ha, hz, by rw [hfirst, List.head?_cons], ?_⟩
  have hsuffix := List.drop_suffix (finish - 1 - first) ((s.take finish).drop first)
  rw [← hsplit, hlast] at hsuffix
  obtain ⟨init, hinit⟩ := hsuffix
  rw [← hinit, List.getLast?_concat]

theorem jsonGetString_eq (hs : 0 ∉ s) (hkey : 0 ∉ key) (hrounds : s.length < rounds)
    (hframes : jsonMaxDepth < frames) (m : Buffer) (capacity : Nat) :
    jsonGetString s rounds frames key m capacity = pure (Mipc.jsonGetString s key m capacity) := by
  rw [jsonGetString, Mipc.jsonGetString]
  by_cases hcapacity : capacity = 0
  · rw [if_pos hcapacity, if_pos hcapacity]
  rw [if_neg hcapacity, if_neg hcapacity]
  dsimp only
  rcases findTopLevelValue_at hs hkey hrounds hframes with ⟨e, hx, hr⟩ |
    ⟨first, finish, t, u, hx, hr, hlt, ht, hu⟩
  · rw [hx, hr, pure_bind]
  have hinside := hu.inside
  have hbetween := between_eq (Nat.le_of_lt hlt) hinside
  have hbody := between_body (Nat.le_of_lt hlt) hinside
  rw [ht.rest, hu.rest] at hbetween hbody
  obtain ⟨a, z, ha, hz, hhead, hlast⟩ := value_ends hlt hinside
  rw [hx, hr, pure_bind]
  dsimp only
  rw [ha, pure_bind, hbody, hbetween, hhead, hlast, length_slice hinside]
  by_cases hquote : a ≠ chr '"'
  · rw [if_pos hquote, if_pos (by simp [hquote])]
  rw [if_neg hquote]
  by_cases hshort : finish ≤ first + 1
  · rw [if_pos hshort, if_pos (by simp; omega)]
  rw [if_neg hshort, hz, pure_bind]
  by_cases hclose : z ≠ chr '"'
  · rw [if_pos hclose, if_pos (by simp [hclose])]
  rw [if_neg hclose, if_neg (by simp [not_not.mp hquote, not_not.mp hclose]; omega)]
  exact decodeString_eq (by omega) (by omega) (by rw [length_slice (by omega)]; omega)

/-! ### Integers -/

theorem parseDigits_at (hfinish : finish ≤ s.length) (parsed : Nat) (hle : cursor ≤ finish)
    (hrounds : finish - cursor < rounds) :
    (parseDigits s finish rounds parsed cursor = pure none ∧
        Mipc.parseDigits parsed ((s.take finish).drop cursor) = none) ∨
      ∃ n next, parseDigits s finish rounds parsed cursor = pure (some (n, next)) ∧
        Mipc.parseDigits parsed ((s.take finish).drop cursor) =
          some (n, (s.take finish).drop next) ∧ next ≤ finish := by
  induction rounds generalizing cursor parsed with
  | zero => omega
  | succ rounds ih =>
    rw [parseDigits]
    by_cases hlt : cursor < finish
    swap
    · rw [if_neg hlt]
      refine .inr ⟨parsed, cursor, rfl, ?_, hle⟩
      rw [slice_nil (Nat.le_of_not_lt hlt), Mipc.parseDigits]
    obtain ⟨b, hb, hslice⟩ := slice_cons hlt hfinish
    rw [if_pos hlt, hb, pure_bind, hslice, Mipc.parseDigits]
    by_cases hdigit : isdigit b = true
    swap
    · rw [if_neg hdigit, if_neg hdigit]
      exact .inr ⟨parsed, cursor, rfl, by rw [hslice], hle⟩
    rw [if_pos hdigit, if_pos hdigit]
    dsimp only
    by_cases hbig : parsed > (uint64Max - (b.toNat - 48)) / 10
    · rw [if_pos hbig, if_pos hbig]
      exact .inl ⟨rfl, rfl⟩
    · rw [if_neg hbig, if_neg hbig]
      exact ih _ (by omega) (by omega)

theorem jsonGetU64_eq (hs : 0 ∉ s) (hkey : 0 ∉ key) (hrounds : s.length < rounds)
    (hframes : jsonMaxDepth < frames) :
    jsonGetU64 s rounds frames key = pure (Mipc.jsonGetU64 s key) := by
  rw [jsonGetU64, Mipc.jsonGetU64]
  rcases findTopLevelValue_at hs hkey hrounds hframes with ⟨e, hx, hr⟩ |
    ⟨first, finish, t, u, hx, hr, hlt, ht, hu⟩
  · rw [hx, hr, pure_bind]
  have hinside := hu.inside
  have hbetween := between_eq (Nat.le_of_lt hlt) hinside
  rw [ht.rest, hu.rest] at hbetween
  obtain ⟨a, ha, hslice⟩ := slice_cons hlt hinside
  rw [hx, hr, pure_bind]
  dsimp only
  rw [if_neg (Nat.ne_of_lt hlt), ha, pure_bind, hbetween]
  have hhead : startsWith isdigit ((s.take finish).drop first) = isdigit a := by
    rw [hslice, startsWith_cons]
  rw [hhead]
  by_cases hdigit : isdigit a = true
  swap
  · rw [if_pos (by simp [hdigit]), if_pos (by simpa using hdigit)]
  have hminus : a ≠ chr '-' := by
    rintro rfl
    exact absurd hdigit (by decide)
  have hparse := parseDigits_at hinside 0 (Nat.le_of_lt hlt)
    (show finish - first < rounds by omega)
  rw [if_neg (by simp [hdigit, hminus]), if_neg (by simp [hdigit])]
  rcases hparse with ⟨hx, hr⟩ | ⟨n, next, hx, hr, hnext⟩
  · rw [hx, hr, pure_bind]
  rw [hx, hr, pure_bind]
  dsimp only
  by_cases hend : next = finish
  · rw [if_pos hend, hend, slice_nil (Nat.le_refl _)]
  · obtain ⟨b, -, hmore⟩ := slice_cons (show next < finish by omega) hinside
    rw [if_neg hend, hmore]

/-! ### Staying inside -/

theorem scans_inside {least : Nat} {x : Checked (Option Nat)} {r : Option Bytes}
    (h : Scans s least x r) : ∃ j, x = pure j ∧ ∀ e ∈ j, least ≤ e ∧ e ≤ s.length := by
  rcases h with ⟨hx, -⟩ | ⟨j, t, hx, -, hle, hat⟩
  · exact ⟨none, hx, fun e he => by cases he⟩
  · refine ⟨some j, hx, fun e he => ?_⟩
    cases he
    exact ⟨hle, hat.inside⟩

/-- The accessors of a JSON text in memory, well-formed or not, end within the rounds that the
length of the text allows and within 65 frames of `skip_json_value`, and read nothing behind the
NULs of the text and of the key; whatever lies between the cursors that they return is a part of
the text with a byte in it at least. -/
theorem accessors_stay_inside (json key : CString) {rounds : Nat}
    (hrounds : json.bytes.length < rounds) :
    (∀ cursor ≤ json.bytes.length, ∃ r, skipJsonString json.bytes rounds cursor = pure r ∧
      ∀ finish ∈ r, cursor < finish ∧ finish ≤ json.bytes.length) ∧
    (∀ depth, 1 ≤ depth → ∀ cursor ≤ json.bytes.length,
      ∃ r, skipJsonValue json.bytes rounds 65 depth cursor = pure r ∧
        ∀ finish ∈ r, cursor < finish ∧ finish ≤ json.bytes.length) ∧
    (∀ first finish, first ≤ finish → finish ≤ json.bytes.length →
      ∃ r, jsonKeyEquals json.bytes rounds first finish key.bytes = pure r) ∧
    (∃ r, findTopLevelValue json.bytes rounds 65 key.bytes = pure r ∧
      ∀ first finish, r = .ok (first, finish) → first < finish ∧ finish ≤ json.bytes.length) ∧
    (∃ r, jsonGetRaw json.bytes rounds 65 key.bytes = pure r ∧
      ∀ rawValue rawLength, r = .ok (rawValue, rawLength) →
        0 < rawLength ∧ rawValue + rawLength ≤ json.bytes.length) ∧
    (∀ m capacity, ∃ r, jsonGetString json.bytes rounds 65 key.bytes m capacity = pure r) ∧
    ∃ r, jsonGetU64 json.bytes rounds 65 key.bytes = pure r := by
  have hs := json.terminated
  have hkey := key.terminated
  have hframes : jsonMaxDepth < 65 := by decide
  refine ⟨fun cursor hcursor => ?_, fun depth hdepth cursor hcursor => ?_,
    fun first finish hle hfinish => ⟨_, jsonKeyEquals_eq hkey hle hfinish hrounds⟩, ?_, ?_,
    fun m capacity => ⟨_, jsonGetString_eq hs hkey hrounds hframes m capacity⟩,
    ⟨_, jsonGetU64_eq hs hkey hrounds hframes⟩⟩
  · obtain ⟨r, hr, hinside⟩ := scans_inside (skipJsonString_at hs (.of_le hcursor) hrounds)
    exact ⟨r, hr, fun e he => ⟨by have := (hinside e he).1; omega, (hinside e he).2⟩⟩
  · have hdeep : jsonMaxDepth + 1 < 65 + depth := by
      rw [jsonMaxDepth]
      omega
    exact scans_inside (skipJsonValue_at hs hrounds (by decide) hdeep (.of_le hcursor))
  · rcases findTopLevelValue_at hs hkey hrounds hframes with ⟨e, hx, -⟩ |
      ⟨first, finish, t, u, hx, -, hlt, -, hu⟩
    · exact ⟨_, hx, fun first finish h => by cases h⟩
    · refine ⟨_, hx, fun first' finish' h => ?_⟩
      cases h
      exact ⟨hlt, hu.inside⟩
  · rcases jsonGetRaw_at hs hkey hrounds hframes with ⟨e, hx, -⟩ |
      ⟨first, length, hx, -, hpos, hle⟩
    · exact ⟨_, hx, fun rawValue rawLength h => by cases h⟩
    · refine ⟨_, hx, fun rawValue rawLength h => ?_⟩
      cases h
      exact ⟨hpos, hle⟩

/-- A record that breaks off within a `\u` escape. -/
def truncated : CString := ⟨text "\x7b\"a\": [1, \"\\u00", by decide +kernel, by decide +kernel⟩

def truncatedKey : CString := ⟨text "a", by decide +kernel, by decide +kernel⟩

theorem truncated_stays_inside :
    ∃ r, findTopLevelValue truncated.bytes 20 65 truncatedKey.bytes = pure r ∧
      ∀ first finish, r = .ok (first, finish) →
        first < finish ∧ finish ≤ truncated.bytes.length :=
  (accessors_stay_inside truncated truncatedKey (by decide +kernel)).2.2.2.1

/-- The deepest calls need all the frames. -/
example : skipJsonValue (List.replicate 64 (chr '[')) 65 64 1 0 = throw .stackOverflow := by
  decide +kernel

end Msys.Mipc.Cursor
