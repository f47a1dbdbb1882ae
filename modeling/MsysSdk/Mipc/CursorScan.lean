import MsysSdk.Mipc.Cursors
import MsysSdk.Mipc.Values

/-! The scanner on a string in memory reads no byte behind its NUL, and gives the cursor of what
the scanner of lists leaves over. -/

namespace Msys.Mipc.Cursor
open Libc

variable {s t : Bytes} {cursor rounds : Nat}

/-- A result of the scanner at `least` or further on, and what is left over there. -/
def Scans (s : Bytes) (least : Nat) (x : Checked (Option Nat)) (r : Option Bytes) : Prop :=
  (x = pure none ∧ r = none) ∨ ∃ j t, x = pure (some j) ∧ r = some t ∧ least ≤ j ∧ At s j t

theorem Scans.none (least : Nat) : Scans s least (pure none) none := .inl ⟨rfl, rfl⟩

theorem Scans.some {least j : Nat} (hle : least ≤ j) (h : At s j t) :
    Scans s least (pure (some j)) (some t) := .inr ⟨j, t, rfl, rfl, hle, h⟩

theorem Scans.mono {least least' : Nat} {x : Checked (Option Nat)} {r : Option Bytes}
    (h : Scans s least x r) (hle : least' ≤ least) : Scans s least' x r := by
  rcases h with h | ⟨j, t, hx, hr, hj, hat⟩
  · exact .inl h
  · exact .inr ⟨j, t, hx, hr, Nat.le_trans hle hj, hat⟩

theorem ne_zero (hs : 0 ∉ s) {b : UInt8} (h : At s cursor (b :: t)) : b ≠ 0 := by
  rintro rfl
  refine hs (List.mem_of_mem_drop (i := cursor) ?_)
  rw [h.rest]
  exact List.mem_cons_self

theorem length_lt (h : At s cursor t) (hrounds : s.length < rounds) : t.length < rounds := by
  have hlength := h.add_length
  omega

theorem skipSpace_at (h : At s cursor t) (hrounds : s.length < rounds) :
    ∃ j, skipSpace s rounds cursor = pure j ∧ cursor ≤ j ∧ At s j (Mipc.skipSpace t) := by
  have hspace : (fun b : UInt8 => decide (b ≠ 0) && isspace b) = isspace := by
    funext b
    by_cases hb : b = 0
    · rw [hb]
      rfl
    · rw [decide_eq_true hb, Bool.true_and]
  rw [skipSpace, hspace]
  exact h.skipWhile rfl (length_lt h hrounds)

/-! ### Strings -/

theorem skipHex_at (h : At s cursor t) (n : Nat) :
    skipHex s n cursor =
      pure (if n ≤ t.length ∧ (t.take n).all isHex = true then some (cursor + n) else none) := by
  induction n generalizing cursor t with
  | zero =>
    rw [skipHex, if_pos ⟨Nat.zero_le _, rfl⟩]
    rfl
  | succ n ih =>
    rw [skipHex]
    cases t with
    | nil =>
      rw [h.read_nil, pure_bind, if_pos (by decide), if_neg (by simp)]
    | cons b t =>
      rw [h.read_cons, pure_bind]
      simp only [List.take_succ_cons, List.all_cons, List.length_cons,
        Nat.add_le_add_iff_right, Bool.and_eq_true]
      by_cases hb : isHex b = true
      · have hne : b ≠ 0 := by
          rintro rfl
          exact absurd hb (by decide)
        have hpass : (decide (b = 0) || !isHex b) = false := by simp [hb, hne]
        rw [hpass, if_neg Bool.false_ne_true, ih h.next]
        simp only [hb, true_and, Nat.add_assoc, Nat.add_comm 1 n]
      · have hstop : (decide (b = 0) || !isHex b) = true := by simp [hb]
        rw [hstop, if_pos rfl, if_neg (by simp [hb])]

theorem skipStringBody_at (hs : 0 ∉ s) (h : At s cursor t) (hrounds : t.length < rounds) :
    Scans s (cursor + 1) (skipStringBody s rounds cursor) (Mipc.skipStringBody t) := by
  induction rounds generalizing cursor t with
  | zero => omega
  | succ rounds ih =>
    rw [skipStringBody]
    cases t with
    | nil =>
      rw [h.read_nil, pure_bind, if_pos rfl]
      exact .none _
    | cons b t =>
      rw [List.length_cons] at hrounds
      rw [h.read_cons, pure_bind, if_neg (ne_zero hs h), Mipc.skipStringBody.eq_def]
      dsimp only
      by_cases hquote : b = chr '"'
      · rw [if_pos hquote, if_pos hquote]
        exact .some (Nat.le_refl _) h.next
      rw [if_neg hquote, if_neg hquote]
      by_cases hcontrol : b < 0x20
      · rw [if_pos hcontrol, if_pos hcontrol]
        exact .none _
      rw [if_neg hcontrol, if_neg hcontrol]
      by_cases hbackslash : b = chr '\\'
      swap
      · rw [if_neg hbackslash, if_neg hbackslash]
        exact (ih h.next (by omega)).mono (by omega)
      rw [if_pos hbackslash, if_pos hbackslash]
      cases t with
      | nil =>
        rw [h.next.read_nil, pure_bind, if_pos rfl]
        exact .none _
      | cons e t =>
        rw [List.length_cons] at hrounds
        have hrest := h.next.next
        rw [h.next.read_cons, pure_bind, if_neg (ne_zero hs h.next)]
        dsimp only
        by_cases hu : e = chr 'u'
        swap
        · rw [if_neg hu, if_neg hu]
          by_cases he : e ∈ escapes
          · rw [if_pos he, if_pos he]
            exact (ih hrest (by omega)).mono (by omega)
          · rw [if_neg he, if_neg he]
            exact .none _
        rw [if_pos hu, if_pos hu, skipHex_at hrest, pure_bind]
        rcases t with _ | ⟨h₁, _ | ⟨h₂, _ | ⟨h₃, _ | ⟨h₄, t⟩⟩⟩⟩
        · exact .none _
        · exact .none _
        · exact .none _
        · exact .none _
        · simp only [List.length_cons] at hrounds
          have hdigits : (4 ≤ (h₁ :: h₂ :: h₃ :: h₄ :: t).length ∧
              ((h₁ :: h₂ :: h₃ :: h₄ :: t).take 4).all isHex = true) ↔
                (isHex h₁ && isHex h₂ && isHex h₃ && isHex h₄) = true := by
            simp [and_assoc]
          by_cases hhex : (isHex h₁ && isHex h₂ && isHex h₃ && isHex h₄) = true
          · rw [if_pos (hdigits.mpr hhex)]
            dsimp only
            rw [if_pos hhex]
            exact (ih hrest.next.next.next.next (by omega)).mono (by omega)
          · rw [if_neg (mt hdigits.mp hhex)]
            dsimp only
            rw [if_neg hhex]
            exact .none _

theorem skipJsonString_at (hs : 0 ∉ s) (h : At s cursor t) (hrounds : s.length < rounds) :
    Scans s (cursor + 2) (skipJsonString s rounds cursor) (Mipc.skipJsonString t) := by
  rw [skipJsonString]
  cases t with
  | nil =>
    rw [h.read_nil, pure_bind, if_neg (by decide)]
    exact .none _
  | cons b t =>
    rw [h.read_cons, pure_bind, Mipc.skipJsonString]
    by_cases hb : b = chr '"'
    · rw [if_pos hb, if_pos hb]
      exact skipStringBody_at hs h.next (length_lt h.next hrounds)
    · rw [if_neg hb, if_neg hb]
      exact .none _

/-! ### Numbers and words -/

theorem skipDigits_at (h : At s cursor t) (hrounds : s.length < rounds) :
    Scans s (cursor + 1) (skipDigits s rounds cursor)
      (if startsWith isdigit t then some (Mipc.skipDigits t) else none) := by
  rw [skipDigits]
  cases t with
  | nil =>
    rw [h.read_nil, pure_bind, if_neg (by decide)]
    exact .none _
  | cons b t =>
    rw [h.read_cons, pure_bind, startsWith_cons]
    by_cases hb : isdigit b = true
    · obtain ⟨j, hj, -, hat⟩ := h.skipWhile (p := isdigit) rfl (length_lt h hrounds)
      have hless : (Mipc.skipDigits (b :: t)).length < (b :: t).length := by
        rw [Mipc.skipDigits, List.dropWhile_cons_of_pos hb, List.length_cons]
        exact Nat.lt_succ_of_le (List.dropWhile_sublist _).length_le
      rw [if_pos hb, if_pos hb, hj]
      exact .some ((h.lt_iff hat).mpr hless) hat
    · rw [if_neg hb, if_neg hb]
      exact .none _

/-- An optional byte. -/
theorem stepOver_at {p : UInt8 → Bool} (hp : p 0 = false) (h : At s cursor t) :
    ∃ j, (do if p (← readByte s cursor) then pure (cursor + 1) else pure cursor : Checked Nat) =
        pure j ∧ cursor ≤ j ∧ At s j (if startsWith p t then t.drop 1 else t) := by
  cases t with
  | nil =>
    rw [h.read_nil, pure_bind, hp]
    exact ⟨cursor, rfl, Nat.le_refl _, h⟩
  | cons b t =>
    rw [h.read_cons, pure_bind, startsWith_cons]
    by_cases hb : p b = true
    · rw [if_pos hb, if_pos hb]
      exact ⟨cursor + 1, rfl, Nat.le_succ _, h.next⟩
    · rw [if_neg hb, if_neg hb]
      exact ⟨cursor, rfl, Nat.le_refl _, h⟩

theorem skipSign_at (h : At s cursor t) :
    ∃ j, skipSign s cursor = pure j ∧ cursor ≤ j ∧ At s j (Mipc.skipSign t) := by
  have hstep := stepOver_at (p := (· = chr '-')) rfl h
  simp only [decide_eq_true_eq] at hstep
  exact hstep

theorem skipExponentSign_at (h : At s cursor t) :
    ∃ j, skipExponentSign s cursor = pure j ∧ cursor ≤ j ∧ At s j (Mipc.skipExponentSign t) :=
  stepOver_at (p := fun b => b = chr '+' || b = chr '-') rfl h

theorem skipInteger_at (h : At s cursor t) (hrounds : s.length < rounds) :
    Scans s (cursor + 1) (skipInteger s rounds cursor) (Mipc.skipInteger t) := by
  have hdigits := skipDigits_at h hrounds
  rw [skipInteger, Mipc.skipInteger]
  cases t with
  | nil => rwa [h.read_nil, pure_bind, if_neg (by decide)]
  | cons b t =>
    rw [h.read_cons, pure_bind, startsWith_cons]
    by_cases hb : b = chr '0'
    · rw [if_pos hb, if_pos (decide_eq_true hb)]
      exact .some (Nat.le_refl _) h.next
    · rwa [if_neg hb, if_neg (by simpa using hb)]

theorem skipFraction_at (h : At s cursor t) (hrounds : s.length < rounds) :
    Scans s cursor (skipFraction s rounds cursor) (Mipc.skipFraction t) := by
  rw [skipFraction, Mipc.skipFraction]
  cases t with
  | nil =>
    rw [h.read_nil, pure_bind, if_neg (by decide)]
    exact .some (Nat.le_refl _) h
  | cons b t =>
    rw [h.read_cons, pure_bind, startsWith_cons]
    by_cases hb : b = chr '.'
    · rw [if_pos hb, if_pos (decide_eq_true hb)]
      exact (skipDigits_at h.next hrounds).mono (by omega)
    · rw [if_neg hb, if_neg (by simpa using hb)]
      exact .some (Nat.le_refl _) h

theorem skipExponent_at (h : At s cursor t) (hrounds : s.length < rounds) :
    Scans s cursor (skipExponent s rounds cursor) (Mipc.skipExponent t) := by
  rw [skipExponent, Mipc.skipExponent]
  cases t with
  | nil =>
    rw [h.read_nil, pure_bind, if_neg (by decide)]
    exact .some (Nat.le_refl _) h
  | cons b t =>
    rw [h.read_cons, pure_bind, startsWith_cons]
    by_cases hb : (b = chr 'e' || b = chr 'E') = true
    · obtain ⟨j, hj, hle, hat⟩ := skipExponentSign_at h.next
      rw [if_pos hb, if_pos hb, hj, pure_bind]
      exact (skipDigits_at hat hrounds).mono (by omega)
    · rw [if_neg hb, if_neg hb]
      exact .some (Nat.le_refl _) h

theorem skipNumber_at (h : At s cursor t) (hrounds : s.length < rounds) :
    Scans s (cursor + 1) (skipNumber s rounds cursor) (Mipc.skipNumber t) := by
  obtain ⟨i, hi, hle, hsign⟩ := skipSign_at h
  rw [skipNumber, Mipc.skipNumber, hi, pure_bind]
  rcases skipInteger_at hsign hrounds with ⟨hx, hr⟩ | ⟨j, t₁, hx, hr, hj, hinteger⟩
  · rw [hx, hr, pure_bind]
    exact .none _
  rw [hx, hr, pure_bind, Option.bind_some]
  dsimp only
  rcases skipFraction_at hinteger hrounds with ⟨hx, hr⟩ | ⟨k, t₂, hx, hr, hk, hfraction⟩
  · rw [hx, hr, pure_bind]
    exact .none _
  rw [hx, hr, pure_bind, Option.bind_some]
  dsimp only
  rcases skipExponent_at hfraction hrounds with ⟨hx, hr⟩ | ⟨l, t₃, hx, hr, hl, hexponent⟩
  · rw [hx, hr, pure_bind]
    exact .none _
  rw [hx, hr, pure_bind]
  dsimp only
  rw [if_neg (by omega)]
  exact .some (by omega) hexponent

theorem skipAtom_at (h : At s cursor t) (hrounds : s.length < rounds) :
    Scans s (cursor + 1) (skipAtom s rounds cursor) (Mipc.skipAtom t) := by
  have hword : ∀ {word : Bytes}, word ≠ [] → word.isPrefixOf t = true →
      skipWord word t = some (t.drop word.length) ∧
        Scans s (cursor + 1) (pure (some (cursor + word.length)))
          (some (t.drop word.length)) := by
    intro word hne hmatch
    have hlength := (List.isPrefixOf_iff_prefix.mp hmatch).length_le
    have hpos := List.length_pos_of_ne_nil hne
    exact ⟨if_pos hmatch, .some (by omega) (h.drop hlength)⟩
  have hother : ∀ {word : Bytes}, word.isPrefixOf t = false → skipWord word t = none :=
    fun hmatch => if_neg (by rw [hmatch]; exact Bool.false_ne_true)
  rw [skipAtom, Mipc.skipAtom, h.matchesWord (by decide), pure_bind]
  cases htrue : (text "true").isPrefixOf t with
  | true =>
    obtain ⟨hskip, hscan⟩ := hword (by decide) htrue
    rw [hskip]
    exact hscan
  | false =>
  rw [hother htrue, if_neg Bool.false_ne_true, h.matchesWord (by decide), pure_bind]
  cases hfalse : (text "false").isPrefixOf t with
  | true =>
    obtain ⟨hskip, hscan⟩ := hword (by decide) hfalse
    rw [hskip]
    exact hscan
  | false =>
  rw [hother hfalse, if_neg Bool.false_ne_true, h.matchesWord (by decide), pure_bind]
  cases hnull : (text "null").isPrefixOf t with
  | true =>
    obtain ⟨hskip, hscan⟩ := hword (by decide) hnull
    rw [hskip]
    exact hscan
  | false =>
  rw [hother hnull, if_neg Bool.false_ne_true]
  have hnumber := skipNumber_at h hrounds
  cases t with
  | nil =>
    rw [h.read_nil, pure_bind, if_neg (by decide)]
    exact .none _
  | cons b t =>
    rw [h.read_cons, pure_bind]
    dsimp only
    rw [startsWith_cons]
    by_cases hb : (b = chr '-' || isdigit b) = true
    · rwa [if_pos hb, if_pos hb]
    · rw [if_neg hb, if_neg hb]
      exact .none _

/-! ### Values -/

/-- The byte behind white space: the NUL, or the first one of what is left. -/
theorem peek (h : At s cursor t) (hrounds : s.length < rounds) :
    ∃ k c, skipSpace s rounds cursor = pure k ∧ readByte s k = pure c ∧ cursor ≤ k ∧
      At s k (Mipc.skipSpace t) ∧
      (Mipc.skipSpace t = [] ∧ c = 0 ∨ ∃ rest, Mipc.skipSpace t = c :: rest) := by
  obtain ⟨k, hk, hle, hat⟩ := skipSpace_at h hrounds
  cases hrest : Mipc.skipSpace t with
  | nil =>
    rw [hrest] at hat
    exact ⟨k, 0, hk, hat.read_nil, hle, hat, .inl ⟨rfl, rfl⟩⟩
  | cons c rest =>
    rw [hrest] at hat
    exact ⟨k, c, hk, hat.read_cons, hle, hat, .inr ⟨rest, rfl⟩⟩

/-- The scanner of lists needs no more fuel than there are bytes. -/
theorem skipValue_of_fuel {fuel d : Nat} (h : t.length < fuel) :
    skipValue fuel d t = Mipc.skipJsonValue t d := by
  refine Option.ext fun rest => ⟨fun hskip => ?_, fun hskip => ?_⟩
  · exact skipJsonValue_iff.mpr ((skip_sound _).1 d t rest hskip)
  · obtain ⟨ws, v, hws, rfl, hv, hends⟩ := skipJsonValue_iff.mp hskip
    rw [skipValue_space hws]
    rw [List.length_append, List.length_append] at h
    exact skipValue_complete hv _ rest (by omega) hends

/-- What the call for a value does, told by the scanner of lists: two units of its fuel for every
byte are enough for all the calls below. -/
def ScansValues (s : Bytes) (depth : Nat) (value : Nat → Checked (Option Nat)) : Prop :=
  ∀ (fuel cursor : Nat) (t : Bytes), At s cursor t → 2 * t.length < fuel →
    Scans s (cursor + 1) (value cursor) (skipValue fuel depth t)

variable {fuel depth n : Nat} {value : Nat → Checked (Option Nat)}

theorem skipItems_nil (fuel depth : Nat) : Mipc.skipItems fuel depth [] = none := by
  cases fuel with
  | zero => rfl
  | succ fuel =>
    have hvalue : skipValue fuel (depth + 1) [] = none := by
      cases fuel with
      | zero => rfl
      | succ fuel => rw [skipValue, skipSpace_nil, ite_self]
    rw [Mipc.skipItems, hvalue]

theorem skipMembers_nil (fuel depth : Nat) : Mipc.skipMembers fuel depth [] = none := by
  cases fuel with
  | zero => rfl
  | succ fuel =>
    rw [Mipc.skipMembers]
    rfl

theorem skipItems_at (hrounds : s.length < rounds) (hvalue : ScansValues s (depth + 1) value)
    (h : At s cursor t) (hfuel : 2 * t.length + 1 < fuel) (hn : t.length < n) :
    Scans s (cursor + 1) (skipItems s rounds value n cursor) (Mipc.skipItems fuel depth t) := by
  induction fuel generalizing cursor t n with
  | zero => omega
  | succ fuel ih =>
    obtain ⟨n, rfl⟩ := Nat.exists_eq_add_of_le' (Nat.one_le_of_lt hn)
    rw [skipItems, Mipc.skipItems]
    rcases hvalue fuel cursor t h (by omega) with ⟨hx, hr⟩ | ⟨i, u, hx, hr, hi, hu⟩
    · rw [hx, hr, pure_bind]
      exact .none _
    obtain ⟨k, c, hk, hc, hle, hat, hcases⟩ := peek hu hrounds
    rw [hx, hr, pure_bind]
    dsimp only
    rw [hk, pure_bind, hc, pure_bind]
    rcases hcases with ⟨hrest, rfl⟩ | ⟨rest, hrest⟩
    · rw [hrest]
      exact .none _
    rw [hrest] at hat ⊢
    dsimp only
    by_cases hclose : c = chr ']'
    · rw [if_pos hclose, if_pos hclose]
      exact .some (by omega) hat.next
    rw [if_neg hclose, if_neg hclose]
    by_cases hcomma : c ≠ chr ','
    · rw [if_pos hcomma, if_pos hcomma]
      exact .none _
    obtain ⟨l, hl, hle', hnext⟩ := skipSpace_at hat.next hrounds
    have hlength := h.add_length
    have hlength' := hnext.add_length
    rw [if_neg hcomma, if_neg hcomma, hl, pure_bind]
    exact (ih hnext (by omega) (by omega)).mono (by omega)

theorem skipMembers_at (hs : 0 ∉ s) (hrounds : s.length < rounds)
    (hvalue : ScansValues s (depth + 1) value) (h : At s cursor t)
    (hfuel : 2 * t.length + 1 < fuel) (hn : t.length < n) :
    Scans s (cursor + 1) (skipMembers s rounds value n cursor)
      (Mipc.skipMembers fuel depth t) := by
  induction fuel generalizing cursor t n with
  | zero => omega
  | succ fuel ih =>
    obtain ⟨n, rfl⟩ := Nat.exists_eq_add_of_le' (Nat.one_le_of_lt hn)
    rw [skipMembers, Mipc.skipMembers]
    rcases skipJsonString_at hs h hrounds with ⟨hx, hr⟩ | ⟨i, u, hx, hr, hi, hu⟩
    · rw [hx, hr, pure_bind]
      exact .none _
    obtain ⟨k, c, hk, hc, hle, hat, hcases⟩ := peek hu hrounds
    rw [hx, hr, pure_bind]
    dsimp only
    rw [hk, pure_bind, hc, pure_bind]
    rcases hcases with ⟨hrest, rfl⟩ | ⟨rest, hrest⟩
    · rw [hrest]
      exact .none _
    rw [hrest] at hat ⊢
    dsimp only
    by_cases hcolon : c ≠ chr ':'
    · rw [if_pos hcolon, if_pos hcolon]
      exact .none _
    have hlength := h.add_length
    have hvalueLength := hat.next.add_length
    rw [if_neg hcolon, if_neg hcolon]
    rcases hvalue fuel (k + 1) rest hat.next (by omega) with ⟨hx, hr⟩ | ⟨i', u', hx, hr, hi', hu'⟩
    · rw [hx, hr, pure_bind]
      exact .none _
    obtain ⟨k', c', hk', hc', hle', hat', hcases⟩ := peek hu' hrounds
    rw [hx, hr, pure_bind]
    dsimp only
    rw [hk', pure_bind, hc', pure_bind]
    rcases hcases with ⟨hrest, rfl⟩ | ⟨rest', hrest⟩
    · rw [hrest]
      exact .none _
    rw [hrest] at hat' ⊢
    dsimp only
    by_cases hclose : c' = chr '}'
    · rw [if_pos hclose, if_pos hclose]
      exact .some (by omega) hat'.next
    rw [if_neg hclose, if_neg hclose]
    by_cases hcomma : c' ≠ chr ','
    · rw [if_pos hcomma, if_pos hcomma]
      exact .none _
    obtain ⟨l, hl, hle'', hnext⟩ := skipSpace_at hat'.next hrounds
    have hnextLength := hnext.add_length
    rw [if_neg hcomma, if_neg hcomma, hl, pure_bind]
    exact (ih hnext (by omega) (by omega)).mono (by omega)

/-- On the frames: a call within the depth limit leaves one frame less, and one level less, to
those below it. -/
theorem skipValue_at (hs : 0 ∉ s) (hrounds : s.length < rounds) {frames : Nat}
    (hpos : 0 < frames) (hframes : jsonMaxDepth + 1 < frames + depth) :
    ScansValues s depth (skipJsonValue s rounds frames depth) := by
  induction frames generalizing depth with
  | zero => omega
  | succ frames ih =>
    intro fuel cursor t h hfuel
    obtain ⟨fuel, rfl⟩ := Nat.exists_eq_add_of_le' (Nat.one_le_of_lt hfuel)
    rw [skipJsonValue, skipValue]
    by_cases hdepth : jsonMaxDepth < depth
    · rw [if_pos hdepth, if_pos hdepth]
      exact .none _
    have hvalue : ScansValues s (depth + 1) (skipJsonValue s rounds frames (depth + 1)) :=
      ih (by omega) (by omega)
    obtain ⟨k, c, hk, hc, hle, hat, hcases⟩ := peek h hrounds
    have hlength := h.add_length
    rw [if_neg hdepth, if_neg hdepth, hk, pure_bind, hc, pure_bind]
    rcases hcases with ⟨hrest, rfl⟩ | ⟨rest, hrest⟩
    · obtain ⟨hx, -⟩ | ⟨j, u, -, hr, -⟩ := skipAtom_at (hrest ▸ hat) hrounds
      · rw [hrest]
        exact .inl ⟨hx, rfl⟩
      · cases hr
    rw [hrest] at hat ⊢
    dsimp only
    by_cases hquote : c = chr '"'
    · rw [if_pos hquote, if_pos hquote]
      exact (skipJsonString_at hs hat hrounds).mono (by omega)
    rw [if_neg hquote, if_neg hquote]
    obtain ⟨i, d, hi, hd, hle', hat', hcases⟩ := peek hat.next hrounds
    have hinnerLength := hat'.add_length
    by_cases hbrace : c = chr '{'
    · rw [if_pos hbrace, if_pos hbrace, hi, pure_bind, hd, pure_bind]
      have hmembers : Scans s (i + 1)
          (skipMembers s rounds (skipJsonValue s rounds frames (depth + 1)) rounds i)
          (Mipc.skipMembers fuel depth (Mipc.skipSpace rest)) :=
        skipMembers_at hs hrounds hvalue hat' (by omega) (by omega)
      rcases hcases with ⟨hinner, rfl⟩ | ⟨inner, hinner⟩
      · rw [hinner, skipMembers_nil] at hmembers
        rw [hinner, if_neg (by decide)]
        exact hmembers.mono (by omega)
      rw [hinner] at hmembers hat' ⊢
      dsimp only
      by_cases hend : d = chr '}'
      · rw [if_pos hend, if_pos hend]
        exact .some (by omega) hat'.next
      · rw [if_neg hend, if_neg hend]
        exact hmembers.mono (by omega)
    rw [if_neg hbrace, if_neg hbrace]
    by_cases hbracket : c = chr '['
    · rw [if_pos hbracket, if_pos hbracket, hi, pure_bind, hd, pure_bind]
      have hitems : Scans s (i + 1)
          (skipItems s rounds (skipJsonValue s rounds frames (depth + 1)) rounds i)
          (Mipc.skipItems fuel depth (Mipc.skipSpace rest)) :=
        skipItems_at hrounds hvalue hat' (by omega) (by omega)
      rcases hcases with ⟨hinner, rfl⟩ | ⟨inner, hinner⟩
      · rw [hinner, skipItems_nil] at hitems
        rw [hinner, if_neg (by decide)]
        exact hitems.mono (by omega)
      rw [hinner] at hitems hat' ⊢
      dsimp only
      by_cases hend : d = chr ']'
      · rw [if_pos hend, if_pos hend]
        exact .some (by omega) hat'.next
      · rw [if_neg hend, if_neg hend]
        exact hitems.mono (by omega)
    rw [if_neg hbracket, if_neg hbracket]
    exact (skipAtom_at hat hrounds).mono (by omega)

theorem skipJsonValue_at (hs : 0 ∉ s) (hrounds : s.length < rounds) {frames : Nat}
    (hpos : 0 < frames) (hframes : jsonMaxDepth + 1 < frames + depth) (h : At s cursor t) :
    Scans s (cursor + 1) (skipJsonValue s rounds frames depth cursor)
      (Mipc.skipJsonValue t depth) := by
  rw [← skipValue_of_fuel (t := t) (d := depth) (show t.length < 2 * t.length + 1 by omega)]
  exact skipValue_at hs hrounds hpos hframes _ cursor t h (by omega)

end Msys.Mipc.Cursor
