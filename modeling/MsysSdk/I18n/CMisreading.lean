import MsysSdk.I18n.CHeaderLines

/-! The literals of a string with trigraphs, read back: they hold fewer bytes than the string. -/

namespace Msys.CHeader
open Python C11
open Msys.I18n hiding Token

/-! ### The literals that come first -/

/-- The bytes of the string literals before the next word or punctuation. -/
def leading : List C11.Token → Bytes
  | .string b :: ts => b ++ leading ts
  | .newline :: ts => leading ts
  | _ => []

theorem leading_strings (bs : List Bytes) (ts : List C11.Token) :
    leading (strings bs ++ ts) = bs.flatten ++ leading ts := by
  induction bs with
  | nil => rfl
  | cons b bs ih =>
    rw [List.flatten_cons, List.append_assoc, ← ih]
    rfl

/-- If the text is read to its end, the first literals and these many bytes are no longer than
that; here and below the text is what phase 3 sees. -/
def Short (s : Lexer) (t : Str) (k n : Nat) : Prop :=
  (scan s t).mode = .code → (leading (scan s t).tokens).length + k ≤ n

/-- If the text is read to its end, no literal comes first. -/
def Silent (s : Lexer) (t : Str) : Prop := Short s t 0 0

theorem Short.mono {s : Lexer} {t : Str} {k k' n n' : Nat} (h : Short s t k n)
    (hle : n + k' ≤ n' + k) : Short s t k' n' := by
  intro hcode
  have := h hcode
  omega

theorem short_error {s : Lexer} (h : s.mode = .error) (t : Str) (k n : Nat) : Short s t k n := by
  obtain ⟨ts, mode⟩ := s
  obtain rfl : mode = .error := h
  intro hcode
  rw [scan_error] at hcode
  cases hcode

theorem scan_tokens (ts : List C11.Token) (m : Mode) (t : Str) :
    scan ⟨ts, m⟩ t = (scan ⟨[], m⟩ t).after ts := by
  have hafter := scan_after ⟨[], m⟩ ts t
  rwa [Lexer.after, List.append_nil] at hafter

/-- The literals that are there already. -/
theorem Short.after {m : Mode} {t : Str} {k n : Nat} (h : Short ⟨[], m⟩ t k n) (bs : List Bytes) :
    Short ⟨strings bs, m⟩ t k (bs.flatten.length + n) := by
  intro hcode
  rw [scan_tokens] at hcode ⊢
  have hshort := h hcode
  rw [Lexer.after, leading_strings, List.length_append]
  omega

theorem silent_punct {s : Lexer} {c : CodePoint} {ts : List C11.Token}
    (h : s.tokens = .punct c :: ts) (t : Str) : Silent s t := by
  obtain ⟨ts', mode⟩ := s
  obtain rfl : ts' = .punct c :: ts := h
  intro _
  rw [scan_tokens]
  exact Nat.le_refl 0

theorem silent_newline {s : Lexer} {c : CodePoint} {ts : List C11.Token}
    (h : s.tokens = .newline :: .punct c :: ts) (t : Str) : Silent s t := by
  obtain ⟨ts', mode⟩ := s
  obtain rfl : ts' = .newline :: .punct c :: ts := h
  intro _
  rw [scan_tokens]
  exact Nat.le_refl 0

/-- A word that has begun comes before everything else. -/
theorem silent_word (w : Str) (t : Str) : Silent ⟨[], .word w⟩ t := by
  induction t generalizing w with
  | nil =>
    intro h
    cases h
  | cons c t ih =>
    rw [Silent, Short, scan_cons, C11.step]
    simp only
    split_ifs
    · exact ih _
    · have hword := inCode_after [.word w] [] c
      intro _
      rw [List.nil_append, ← List.append_nil [C11.Token.word w], hword, scan_after]
      exact Nat.le_refl 0

/-! ### One item of a string after the other -/

/-- Along what phase 3 sees of a string. -/
theorem emission_induction {P : Str → Prop} (nil : P [])
    (single : ∀ c s, Single c → 0x20 ≤ c.val → c.val ≤ 0x7E → c ≠ ch '"' → c ≠ backslash →
      Clear c s → Python.Encodable s → P s → P (c :: s))
    (trigraph : ∀ c d s, trigraphs.lookup c = some d → Python.Encodable s → P s →
      P (question :: question :: c :: s))
    (escaped : ∀ c d s, plainForm c = some [backslash, d] → (c, d) ∈ escapedForms → Python.Encodable s →
      P s → P (c :: s))
    (hex : ∀ c s, plainForm c = none → c.isSurrogate = false → Python.Encodable s → P s →
      P (c :: s))
    {s : Str} (hs : Encodable s) : P s := by
  induction hn : s.length using Nat.strong_induction_on generalizing s with
  | h n ih =>
    subst hn
    match s, hs with
    | [], _ => exact nil
    | c :: s, hs =>
      obtain ⟨hc, htail⟩ := List.forall_mem_cons.mp hs
      by_cases hclear : Clear c s
      · have hrest : P s := ih s.length (Nat.lt_succ_self _) htail rfl
        rcases plainForm_cases c with ⟨hform, hlo, hhi, hquote, hback⟩ | ⟨d, hform, hd⟩ | hform
        · exact single c s hform hlo hhi hquote hback hclear htail hrest
        · exact escaped c d s hform hd htail hrest
        · exact hex c s hform hc htail hrest
      · simp only [Clear, not_forall] at hclear
        obtain ⟨b, x, t, rfl, htrigraph⟩ := hclear
        obtain ⟨d, hd⟩ := Option.ne_none_iff_exists'.mp htrigraph
        obtain ⟨rfl, rfl, hthird⟩ := lookup_of_trigraph hd
        have ht : Encodable t := fun y hy => htail y (by simp [hy])
        exact trigraph x d t hthird ht (ih t.length (by simp only [List.length_cons]; omega) ht rfl)

theorem source_hexText (c : CodePoint) (u : Str) :
    source (hexText c ++ u) = hexText c ++ source u := by
  rw [hexText]
  induction utf8 [c] with
  | nil => rfl
  | cons b bs ih =>
    rw [List.flatMap_cons, List.cons_append, List.cons_append, List.append_assoc,
      source_plain (by decide) (by decide), source_hexPiece, ih]
    simp

/-! ### Inside of a literal -/

/-- The bytes of the literal so far, and of what has begun. -/
def weight : Mode → Option Nat
  | .text b => some b.length
  | .escape b | .octal b _ _ | .hex b _ => some (b.length + 1)
  | .universal b digits _ => some (b.length + (4 - digits))
  | _ => none

/-- In a literal of at most this weight. -/
def Inside (s : Lexer) (w : Nat) : Prop :=
  s.tokens = [] ∧ (s.mode = .error ∨ ∃ n ≤ w, weight s.mode = some n)

theorem inside_error (w : Nat) : Inside ⟨[], .error⟩ w := ⟨rfl, .inl rfl⟩

theorem inside_of_le {m : Mode} {n w : Nat} (h : weight m = some n) (hle : n ≤ w) :
    Inside ⟨[], m⟩ w := ⟨rfl, .inr ⟨n, hle, h⟩⟩

theorem utf8_length_ascii {c : CodePoint} (h : c.val < 0x80) : (utf8 [c]).length = 1 := by
  rw [utf8_cons, utf8_nil, encodeChar, if_pos h]
  rfl

section
variable {b : Bytes} {c : CodePoint} {w : Nat} (hquote : c ≠ ch '"') (hascii : c.val < 0x80)
include hquote hascii

theorem inside_text (hw : b.length ≤ w) : Inside (inText [] b c) (w + 1) := by
  unfold inText
  rw [if_neg hquote]
  split_ifs
  · exact inside_of_le rfl (by omega)
  · exact inside_error _
  · refine inside_of_le rfl ?_
    rw [List.length_append, utf8_length_ascii hascii]
    omega

theorem inside_number (n : Nat) (hw : b.length + 1 ≤ w) : Inside (afterNumber [] b n c) (w + 1) := by
  unfold afterNumber
  split_ifs
  · exact inside_text hquote hascii (by simpa using hw)
  · exact inside_error _

omit hquote hascii in
theorem inside_escape (hw : b.length + 1 ≤ w) : Inside (inEscape [] b c) (w + 1) := by
  unfold inEscape
  split
  · exact inside_of_le rfl (by simp only [List.length_append, List.length_singleton]; omega)
  · exact inside_of_le rfl (by omega)
  · split_ifs
    · exact inside_of_le rfl (by omega)
    · exact inside_of_le rfl (by omega)
    · exact inside_of_le rfl (by omega)
    · exact inside_error _

theorem inside_octal (k n : Nat) (hw : b.length + 1 ≤ w) : Inside (inOctal [] b k n c) (w + 1) := by
  unfold inOctal
  split
  · exact inside_of_le rfl (by omega)
  · exact inside_number hquote hascii n hw

theorem inside_hex (n : Option Nat) (hw : b.length + 1 ≤ w) :
    Inside (inHex [] b n c) (w + 1) := by
  unfold inHex
  split
  · exact inside_of_le rfl (by omega)
  · exact inside_number hquote hascii _ hw
  · exact inside_error _

omit hquote hascii in
theorem universalBytes_length {n : Nat} {form : Bytes} (h : universalBytes n = some form) :
    form.length ≤ 4 := by
  unfold universalBytes encodeChar at h
  split_ifs at h <;> cases h <;> simp

omit hquote hascii in
theorem inside_universal (k n : Nat) (hw : b.length + (4 - k) ≤ w) :
    Inside (inUniversal [] b k n c) (w + 1) := by
  unfold inUniversal
  cases Ascii.hexValue c.val with
  | none => exact inside_error _
  | some d =>
    have hfinal : ∀ form, universalBytes (16 * n + d) = some form → b.length + 3 ≤ w →
        Inside ⟨[], .text (b ++ form)⟩ (w + 1) := by
      intro form hform hw
      have hlength := universalBytes_length hform
      refine inside_of_le rfl ?_
      rw [List.length_append]
      omega
    rcases k with _ | _ | k
    · dsimp only
      cases hform : universalBytes (16 * n + d) with
      | none => exact inside_error _
      | some form => exact hfinal form hform (by omega)
    · dsimp only
      cases hform : universalBytes (16 * n + d) with
      | none => exact inside_error _
      | some form => exact hfinal form hform (by omega)
    · exact inside_of_le rfl (by omega)

/-- A character of the literal adds a byte at most. -/
theorem Inside.step {s : Lexer} (h : Inside s w) : Inside (step s c) (w + 1) := by
  obtain ⟨ts, mode⟩ := s
  obtain ⟨rfl, rfl | ⟨n, hle, hn⟩⟩ := h
  · exact inside_error _
  · cases mode with
    | text b =>
      obtain rfl := Option.some.inj hn
      exact inside_text hquote hascii hle
    | escape b =>
      obtain rfl := Option.some.inj hn
      exact inside_escape hle
    | octal b k m =>
      obtain rfl := Option.some.inj hn
      exact inside_octal hquote hascii k m hle
    | hex b m =>
      obtain rfl := Option.some.inj hn
      exact inside_hex hquote hascii m hle
    | universal b k m =>
      obtain rfl := Option.some.inj hn
      exact inside_universal k m hle
    | _ => cases hn

end

/-- A backslash and the letter after it add a byte at most, unless they end the literal. -/
theorem Inside.escaped {s : Lexer} {w : Nat} (h : Inside s w) {c d : CodePoint}
    (hd : (c, d) ∈ escapedForms) : Inside (C11.step (C11.step s backslash) d) (w + 1) ∨
      ∃ b, C11.step (C11.step s backslash) d = ⟨strings [b], .code⟩ ∧ b.length ≤ w := by
  have hall : escapedForms.all (fun p => (simpleEscapes.lookup p.2).isSome) = true := by decide
  obtain ⟨x, hx⟩ := Option.isSome_iff_exists.mp (List.all_eq_true.mp hall _ hd)
  -- the letter belongs to an escape sequence of the C text
  have escapes : ∀ b : Bytes, b.length ≤ w → Inside (C11.step ⟨[], .escape b⟩ d) (w + 1) := by
    intro b hb
    have hstep : C11.step ⟨[], .escape b⟩ d = ⟨[], .text (b ++ [x])⟩ := by
      simp only [C11.step, inEscape, hx]
    rw [hstep]
    exact inside_of_le rfl (by rw [List.length_append, List.length_singleton]; omega)
  have number : ∀ (b : Bytes) (n : Nat), b.length + 1 ≤ w →
      Inside (C11.step (afterNumber [] b n backslash) d) (w + 1) := by
    intro b n hb
    unfold afterNumber
    split_ifs
    · exact escapes _ (by simpa using hb)
    · exact inside_error _
  obtain ⟨ts, mode⟩ := s
  obtain ⟨rfl, rfl | ⟨n, hle, hn⟩⟩ := h
  · exact .inl (inside_error _)
  · cases mode with
    | text b =>
      obtain rfl := Option.some.inj hn
      exact .inl (escapes b hle)
    | escape b =>
      obtain rfl := Option.some.inj hn
      have hstep : C11.step ⟨[], .escape b⟩ backslash = ⟨[], .text (b ++ [0x5C])⟩ := rfl
      have hb : (b ++ [0x5C]).length ≤ w := by
        rw [List.length_append, List.length_singleton]
        exact hle
      rw [hstep]
      by_cases hquote : d = ch '"'
      · exact .inr ⟨b ++ [0x5C], by rw [hquote]; rfl, hb⟩
      · have hascii : escapedForms.all (fun p => p.2.val < 0x80) = true := by decide
        exact .inl (inside_text hquote (by simpa using List.all_eq_true.mp hascii _ hd) hb)
    | octal b k m =>
      obtain rfl := Option.some.inj hn
      have hstep : C11.step ⟨[], .octal b k m⟩ backslash = afterNumber [] b m backslash := by
        cases k <;> rfl
      rw [hstep]
      exact .inl (number b m hle)
    | hex b m =>
      obtain rfl := Option.some.inj hn
      cases m with
      | none => exact .inl (inside_error _)
      | some m => exact .inl (number b m hle)
    | universal b k m => exact .inl (inside_error _)
    | _ => cases hn

/-- A quote ends the literal, or it is an escaped one. -/
theorem Inside.quote {s : Lexer} {w : Nat} (h : Inside s w) :
    (∃ b, C11.step s (ch '"') = ⟨strings [b], .code⟩ ∧ b.length ≤ w) ∨
      (∃ b, C11.step s (ch '"') = ⟨[], .text b⟩) ∨ C11.step s (ch '"') = ⟨[], .error⟩ := by
  have number : ∀ (b : Bytes) (n : Nat), b.length + 1 ≤ w →
      (∃ b', afterNumber [] b n (ch '"') = ⟨strings [b'], .code⟩ ∧ b'.length ≤ w) ∨
        (∃ b', afterNumber [] b n (ch '"') = ⟨[], .text b'⟩) ∨
        afterNumber [] b n (ch '"') = ⟨[], .error⟩ := by
    intro b n hb
    unfold afterNumber
    split_ifs
    · exact .inl ⟨b ++ [UInt8.ofNat n], rfl, by simpa using hb⟩
    · exact .inr (.inr rfl)
  obtain ⟨ts, mode⟩ := s
  obtain ⟨rfl, rfl | ⟨n, hle, hn⟩⟩ := h
  · exact .inr (.inr rfl)
  · cases mode with
    | text b =>
      obtain rfl := Option.some.inj hn
      exact .inl ⟨b, rfl, hle⟩
    | escape b => exact .inr (.inl ⟨b ++ [0x22], rfl⟩)
    | octal b k m =>
      obtain rfl := Option.some.inj hn
      have hstep : C11.step ⟨[], .octal b k m⟩ (ch '"') = afterNumber [] b m (ch '"') := by
        cases k <;> rfl
      rw [hstep]
      exact number b m hle
    | hex b m =>
      obtain rfl := Option.some.inj hn
      cases m with
      | none => exact .inr (.inr rfl)
      | some m => exact number b m hle
    | universal b k m => exact .inr (.inr rfl)
    | _ => cases hn

/-! ### Outside of a literal that ended early -/

theorem scan_lineComment {t : Str} (h : newline ∉ t) :
    scan ⟨[], .lineComment⟩ t = ⟨[], .lineComment⟩ := by
  induction t with
  | nil => rfl
  | cons c t ih =>
    rw [List.mem_cons, not_or] at h
    have hstep : C11.step ⟨[], .lineComment⟩ c = ⟨[], .lineComment⟩ := if_neg (Ne.symm h.1)
    rw [scan_cons, hstep, ih h.2]

theorem scan_comment {t : Str} (h : ch '*' ∉ t) : scan ⟨[], .comment⟩ t = ⟨[], .comment⟩ := by
  induction t with
  | nil => rfl
  | cons c t ih =>
    rw [List.mem_cons, not_or] at h
    have hstep : C11.step ⟨[], .comment⟩ c = ⟨[], .comment⟩ := if_neg (Ne.symm h.1)
    rw [scan_cons, hstep, ih h.2]

theorem hexText_mem {c x : CodePoint} (h : x ∈ hexText c) : x ≠ newline ∧ x ≠ ch '*' := by
  have hall : ∀ n < 256, (ch ' ' :: hexPiece (UInt8.ofNat n)).all
      (fun x => x ≠ newline && x ≠ ch '*') = true := by decide +kernel
  obtain ⟨b, -, hx⟩ := List.mem_flatMap.mp h
  have hb := hall b.toNat b.toNat_lt
  rw [UInt8.ofNat_toNat] at hb
  simpa using List.all_eq_true.mp hb x hx

/-- What comes after a message. -/
structure Remainder (t : Str) : Prop where
  code : Silent ⟨[], .code⟩ t
  text : ∀ b, (scan ⟨[], .text b⟩ t).mode = .error
  lineComment : Silent ⟨[], .lineComment⟩ t
  comment : Silent ⟨[], .comment⟩ t

/-- No literal comes first, wherever outside of literals the text is read from. -/
structure Stray (t : Str) : Prop where
  code : Silent ⟨[], .code⟩ t
  slash : Silent ⟨[], .slash⟩ t
  lineComment : Silent ⟨[], .lineComment⟩ t
  comment : Silent ⟨[], .comment⟩ t
  star : Silent ⟨[], .star⟩ t

theorem Stray.cons {x : CodePoint} {t : Str} (h : Stray t) (hquote : x ≠ ch '"')
    (hline : x ≠ newline) : Stray (x :: t) where
  code := by
    have hstep : C11.step ⟨[], .code⟩ x = inCode [] x := rfl
    have hline' : x ≠ ch '\n' := hline
    rw [Silent, Short, scan_cons, hstep, inCode, if_neg hline']
    simp only [if_neg hquote]
    split_ifs
    · exact h.code
    · exact silent_word _ t
    · exact h.slash
    · exact short_error rfl t 0 0
    · exact silent_punct rfl t
  slash := by
    rw [Silent, Short, scan_cons, C11.step]
    simp only
    split_ifs
    · exact h.lineComment
    · exact h.comment
    · have hafter := inCode_after [.punct (ch '/')] [] x
      rw [List.nil_append, ← List.append_nil [C11.Token.punct (ch '/')], hafter]
      exact silent_punct rfl t
  lineComment := by
    have hstep : C11.step ⟨[], .lineComment⟩ x = ⟨[], .lineComment⟩ := if_neg hline
    rw [Silent, Short, scan_cons, hstep]
    exact h.lineComment
  comment := by
    rw [Silent, Short, scan_cons, C11.step]
    simp only
    split_ifs
    · exact h.star
    · exact h.comment
  star := by
    rw [Silent, Short, scan_cons, C11.step]
    simp only
    split_ifs
    · exact h.code
    · exact h.star
    · exact h.comment

/-- An escape sequence is no C token. -/
theorem Stray.escaped {c d : CodePoint} {t : Str} (h : Stray t) (hd : (c, d) ∈ escapedForms) :
    Stray (backslash :: d :: t) := by
  have hall : escapedForms.all (fun p => p.2 ≠ newline && p.2 ≠ ch '*') = true := by decide
  have hne : d ≠ newline ∧ d ≠ ch '*' := by simpa using List.all_eq_true.mp hall _ hd
  have hcomment : Silent ⟨[], .comment⟩ (d :: t) := by
    have hstep : C11.step ⟨[], .comment⟩ d = ⟨[], .comment⟩ := if_neg hne.2
    rw [Silent, Short, scan_cons, hstep]
    exact h.comment
  have herror : C11.step ⟨[], .code⟩ backslash = ⟨[], .error⟩ := rfl
  have hslash : C11.step ⟨[], .slash⟩ backslash = ⟨[.punct (ch '/')], .error⟩ := rfl
  refine ⟨?_, ?_, ?_, hcomment, hcomment⟩
  · rw [Silent, Short, scan_cons, herror]
    exact short_error rfl _ 0 0
  · rw [Silent, Short, scan_cons, hslash]
    exact short_error rfl _ 0 0
  · have hstep : C11.step ⟨[], .lineComment⟩ d = ⟨[], .lineComment⟩ := if_neg hne.1
    have hback : C11.step ⟨[], .lineComment⟩ backslash = ⟨[], .lineComment⟩ := rfl
    rw [Silent, Short, scan_cons, hback, scan_cons, hstep]
    exact h.lineComment

/-- A quote opens a literal that does not end well, or it is part of a comment. -/
theorem Stray.quote {t : Str} (htext : (scan ⟨[], .text []⟩ t).mode = .error)
    (hline : Silent ⟨[], .lineComment⟩ t) (hcomment : Silent ⟨[], .comment⟩ t) :
    Stray (ch '"' :: t) := by
  refine ⟨fun hcode => ?_, ?_, hline, hcomment, hcomment⟩
  · have hopen : C11.step ⟨[], .code⟩ (ch '"') = ⟨[], .text []⟩ := rfl
    rw [scan_cons, hopen, htext] at hcode
    cases hcode
  · have hstep : C11.step ⟨[], .slash⟩ (ch '"') = ⟨[.punct (ch '/')], .text []⟩ := rfl
    rw [Silent, Short, scan_cons, hstep]
    exact silent_punct rfl t

/-- A message from any point of it. -/
structure StrayMessage (q u : Str) : Prop where
  isOpen : Stray (source (emitted true q ++ u))
  lineComment : Silent ⟨[], .lineComment⟩ (source (emitted false q ++ u))
  comment : Silent ⟨[], .comment⟩ (source (emitted false q ++ u))

/-- A literal begins with a space and a quote, which a comment takes. -/
theorem StrayMessage.of_open {c : CodePoint} {q u form : Str} (hform : plainForm c = some form)
    (h : Stray (source (emitted true (c :: q) ++ u))) : StrayMessage (c :: q) u where
  isOpen := h
  lineComment := by
    rw [emitted_closed_plain hform, List.cons_append, List.cons_append,
      source_plain (by decide) (by decide), source_plain (by decide) (by decide)]
    exact h.lineComment
  comment := by
    rw [emitted_closed_plain hform, List.cons_append, List.cons_append,
      source_plain (by decide) (by decide), source_plain (by decide) (by decide)]
    exact h.comment

theorem hexText_error {c : CodePoint} (h : c.isSurrogate = false) (b : Bytes) (t : Str) :
    (scan ⟨[], .text b⟩ (hexText c ++ t)).mode = .error := by
  obtain ⟨x, xs, hutf8⟩ := exists_utf8_cons h
  rw [hexText_eq hutf8, hexPiece]
  simp only [List.cons_append]
  rw [scan_cons, scan_cons, scan_cons]
  have hsteps : C11.step (C11.step (C11.step ⟨[], .text b⟩ (ch ' ')) (ch '"')) (ch '\\') =
      ⟨[.string (b ++ [0x20])], .error⟩ := rfl
  rw [hsteps, scan_error]

theorem strayMessage {u : Str} (hu : Remainder (source u)) {q : Str} (hq : Encodable q) :
    StrayMessage q u := by
  refine emission_induction (P := fun q => StrayMessage q u) ?_ ?_ ?_ ?_ ?_ hq
  · refine ⟨?_, hu.lineComment, hu.comment⟩
    rw [source_emitted_nil]
    exact .quote (hu.text []) hu.lineComment hu.comment
  · intro c q hform hlo _ hquote hback hclear _ ih
    refine .of_open hform ?_
    rw [source_emitted_single u hform hback hclear]
    refine ih.isOpen.cons hquote ?_
    rintro rfl
    exact absurd hlo (by decide)
  · intro c d q hd _ ih
    refine .of_open single_question ?_
    rw [source_emitted_trigraph u hd]
    have hall : trigraphs.all (fun p => p.2 ≠ ch '"' && p.2 ≠ newline) = true := by decide
    have hne : d ≠ ch '"' ∧ d ≠ newline := by
      simpa using List.all_eq_true.mp hall _ (Tables.mem_of_lookup hd)
    exact ih.isOpen.cons hne.1 hne.2
  · intro c d q hform hd _ ih
    refine .of_open hform ?_
    rw [source_emitted_escaped u hform hd]
    exact ih.isOpen.escaped hd
  · intro c q hform hc _ ih
    have hline : Silent ⟨[], .lineComment⟩ (hexText c ++ source (emitted false q ++ u)) := by
      rw [Silent, Short, scan_append, scan_lineComment fun hx => (hexText_mem hx).1 rfl]
      exact ih.lineComment
    have hcomment : Silent ⟨[], .comment⟩ (hexText c ++ source (emitted false q ++ u)) := by
      rw [Silent, Short, scan_append, scan_comment fun hx => (hexText_mem hx).2 rfl]
      exact ih.comment
    have hclosed : source (emitted false (c :: q) ++ u) =
        hexText c ++ source (emitted false q ++ u) := by
      rw [emitted_closed_hex hform, List.append_assoc, source_hexText]
    refine ⟨?_, hclosed ▸ hline, hclosed ▸ hcomment⟩
    rw [emitted_hex hform, List.cons_append, source_plain (by decide) (by decide), List.append_assoc,
      source_hexText]
    exact .quote (hexText_error hc [] _) hline hcomment

/-! ### The bytes of a message -/

theorem hasTrigraph_clear {c : CodePoint} {s : Str} (h : Clear c s) :
    hasTrigraph (c :: s) = hasTrigraph s := by
  match s, h with
  | [], _ => rfl
  | [_], _ => rfl
  | b :: d :: s, h =>
    rw [hasTrigraph, h b d s rfl]
    rfl

/-- How many bytes are missing at least. -/
def missing (q : Str) : Nat := (hasTrigraph q).toNat

theorem missing_le (q : Str) : missing q ≤ 1 := Bool.toNat_le _

theorem missing_clear {c : CodePoint} {s : Str} (h : Clear c s) : missing (c :: s) = missing s := by
  rw [missing, hasTrigraph_clear h, missing]

theorem utf8_cons_length (c : CodePoint) (s : Str) :
    (utf8 (c :: s)).length = (utf8 [c]).length + (utf8 s).length := by
  rw [← List.length_append, ← utf8_append]
  rfl

/-- The literals of a message, from inside of one of them and from outside. -/
structure Shortened (q u : Str) : Prop where
  inside : ∀ s w, Inside s w →
    Short s (source (emitted true q ++ u)) (missing q) (w + (utf8 q).length)
  closed : Short ⟨[], .code⟩ (source (emitted false q ++ u)) (missing q) (utf8 q).length

theorem Shortened.of_open {c : CodePoint} {q u form : Str} (hform : plainForm c = some form)
    (h : ∀ s w, Inside s w →
      Short s (source (emitted true (c :: q) ++ u)) (missing (c :: q)) (w + (utf8 (c :: q)).length)) :
    Shortened (c :: q) u where
  inside := h
  closed := by
    have hopen := h ⟨[], .text []⟩ 0 (inside_of_le rfl (Nat.le_refl 0))
    rw [Nat.zero_add] at hopen
    rw [emitted_closed_plain hform, List.cons_append, List.cons_append,
      source_plain (by decide) (by decide), source_plain (by decide) (by decide)]
    exact hopen

/-- A quote and what comes after it. -/
theorem Inside.short_quote {s : Lexer} {w : Nat} (h : Inside s w) {t : Str} {k n : Nat}
    (hcode : Short ⟨[], .code⟩ t k n) (htext : ∀ b, (scan ⟨[], .text b⟩ t).mode = .error) :
    Short s (ch '"' :: t) k (w + n) := by
  rw [Short, scan_cons]
  rcases h.quote with ⟨b, hb, hlength⟩ | ⟨b, hb⟩ | hb
  · rw [hb]
    refine (hcode.after [b]).mono ?_
    rw [List.flatten_singleton]
    omega
  · rw [hb, htext b]
    intro hcode
    cases hcode
  · rw [hb]
    exact short_error rfl t _ _

theorem escaped_ascii {c d : CodePoint} (h : (c, d) ∈ escapedForms) :
    c.val < 0x80 ∧ c ≠ question := by
  have hall : escapedForms.all (fun p => p.1.val < 0x80 && p.1 ≠ question) = true := by decide
  simpa using List.all_eq_true.mp hall _ h

theorem shortened {u : Str} (hu : Remainder (source u)) {q : Str} (hq : Encodable q) :
    Shortened q u := by
  refine emission_induction (P := fun q => Shortened q u) ?_ ?_ ?_ ?_ ?_ hq
  · refine ⟨fun s w hs => ?_, hu.code⟩
    rw [source_emitted_nil]
    exact hs.short_quote hu.code hu.text
  · intro c q hform hlo hhi hquote hback hclear _ ih
    refine .of_open hform fun s w hs => ?_
    have hascii : c.val < 0x80 := by omega
    rw [source_emitted_single u hform hback hclear, missing_clear hclear, utf8_cons_length,
      utf8_length_ascii hascii, ← Nat.add_assoc]
    exact ih.inside _ _ (hs.step hquote hascii)
  · intro c d q hd _ ih
    refine .of_open single_question fun s w hs => ?_
    have hall : trigraphs.all (fun p => p.2 ≠ ch '"' && p.2.val < 0x80 && p.1.val < 0x80) = true := by
      decide
    have hne : (d ≠ ch '"' ∧ d.val < 0x80) ∧ c.val < 0x80 := by
      simpa using List.all_eq_true.mp hall _ (Tables.mem_of_lookup hd)
    have hshort := ih.inside _ _ (hs.step hne.1.1 hne.1.2)
    have hquestion : (utf8 [question]).length = 1 := rfl
    have hmissing := missing_le (question :: question :: c :: q)
    have hlength : (utf8 (question :: question :: c :: q)).length = 3 + (utf8 q).length := by
      rw [utf8_cons_length, utf8_cons_length question (c :: q), utf8_cons_length c q, hquestion,
        utf8_length_ascii hne.2]
      omega
    rw [source_emitted_trigraph u hd, hlength]
    exact hshort.mono (by omega)
  · intro c d q hform hd hq ih
    obtain ⟨hascii, hne⟩ := escaped_ascii hd
    refine .of_open hform fun s w hs => ?_
    rw [source_emitted_escaped u hform hd, missing_clear (clear_of_ne hne q), utf8_cons_length,
      utf8_length_ascii hascii, ← Nat.add_assoc, Short, scan_cons, scan_cons]
    rcases hs.escaped hd with hs | ⟨b, hb, hlength⟩
    · exact ih.inside _ _ hs
    · rw [hb]
      have hmissing := missing_le q
      exact ((strayMessage hu hq).isOpen.code.after [b]).mono (by
        rw [List.flatten_singleton]
        omega)
  · intro c q hform hc _ ih
    have hne : c ≠ question := by
      rintro rfl
      cases hform.symm.trans single_question
    have hclosed : Short ⟨[], .code⟩ (hexText c ++ source (emitted false q ++ u)) (missing (c :: q))
        (utf8 (c :: q)).length := by
      have hgives := gives_hexText c (emitted false q ++ u)
      rw [source_hexText] at hgives
      rw [Short, hgives, missing_clear (clear_of_ne hne q), utf8_cons_length]
      refine (ih.closed.after ((utf8 [c]).map fun b => [b])).mono ?_
      rw [← List.flatMap_def, List.flatMap_singleton']
    refine ⟨fun s w hs => ?_, ?_⟩
    · rw [emitted_hex hform, List.cons_append, source_plain (by decide) (by decide),
        List.append_assoc, source_hexText]
      exact hs.short_quote hclosed fun b => hexText_error hc b _
    · rw [emitted_closed_hex hform, List.append_assoc, source_hexText]
      exact hclosed

/-! ### The rows after a message -/

def afterMessage (es : List HeaderEntry) (closing : Str) : Str :=
  str "\x7d,\n" ++ (es.flatMap rowText ++ closing)

theorem afterMessage_cons (e : HeaderEntry) (es : List HeaderEntry) (closing : Str) :
    afterMessage (e :: es) closing =
      str "\x7d,\n" ++ (rowStart e ++ (cString e.value ++ afterMessage es closing)) := by
  rw [afterMessage, List.flatMap_cons, rowText, afterMessage]
  simp only [List.append_assoc]

/-- A comment goes on through text without a star. -/
theorem silent_comment {t u : Str} (h : Harmless t) (hu : Silent ⟨[], .comment⟩ (source u)) :
    Silent ⟨[], .comment⟩ (source (t ++ u)) := by
  rw [Silent, Short, source_quiet h.quiet, scan_append, scan_comment fun hstar => (h _ hstar).2.2 rfl]
  exact hu

theorem remainder_of {t : Str} (hline : Silent ⟨[.newline], .code⟩ (source t))
    (hcomment : Silent ⟨[], .comment⟩ (source t)) : Remainder (source (str "\x7d,\n" ++ t)) := by
  have hquiet : Quiet (str "\x7d,\n") := quiet_of_all (by decide)
  have hcode : scan ⟨[], .code⟩ (str "\x7d,\n") =
      ⟨[.punct (ch '\x7d'), .punct (ch ','), .newline], .code⟩ := by decide
  have hskip : scan ⟨[], .lineComment⟩ (str "\x7d,\n") = ⟨[.newline], .code⟩ := by decide
  have hinside : scan ⟨[], .comment⟩ (str "\x7d,\n") = ⟨[], .comment⟩ := by decide
  rw [source_quiet hquiet]
  refine ⟨?_, fun b => ?_, ?_, ?_⟩
  · rw [Silent, Short, scan_append, hcode]
    exact silent_punct rfl _
  · have htext : scan ⟨[], .text b⟩ (str "\x7d,\n") = ⟨[], .error⟩ := rfl
    rw [scan_append, htext, scan_error]
  · rw [Silent, Short, scan_append, hskip]
    exact hline
  · rw [Silent, Short, scan_append, hinside]
    exact hcomment

/-- A comment that ends in a message leaves no literal. -/
theorem silent_cString {q u : Str} (hu : Remainder (source u)) (hq : Encodable q) :
    Silent ⟨[], .comment⟩ (source (cString q ++ u)) := by
  rcases eq_or_ne q [] with rfl | hne
  · exact silent_comment (harmless_cString fun _ h => absurd h List.not_mem_nil) hu.comment
  · have hclosed := (strayMessage hu hq).comment
    rw [← cString_eq hq hne, List.cons_append, source_plain (by decide) (by decide)] at hclosed
    exact hclosed

theorem remainder_afterMessage {closing t : Str} (hclosing : Harmless closing)
    (hhead : closing = ch '\x7d' :: t) {es : List HeaderEntry}
    (hes : ∀ e ∈ es, (Plain e.locale ∧ Plain e.key) ∧ Encodable e.value) :
    Remainder (source (afterMessage es closing)) := by
  induction es with
  | nil =>
    refine remainder_of ?_ ?_
    · rw [List.flatMap_nil, List.nil_append, hhead, source_plain (by decide) (by decide)]
      exact silent_newline (s := C11.step ⟨[.newline], .code⟩ (ch '\x7d')) rfl _
    · have hend := silent_comment hclosing (u := []) fun h => absurd h (by decide)
      rwa [List.append_nil] at hend
  | cons e es ih =>
    obtain ⟨⟨⟨hlocale, hkey⟩, hvalue⟩, hes⟩ := List.forall_mem_cons.mp hes
    have hquiet : Quiet (str "    \x7b") := quiet_of_all (by decide)
    have hbrace : scan ⟨[.newline], .code⟩ (str "    \x7b") =
        ⟨[.newline, .punct (ch '\x7b')], .code⟩ := by decide
    rw [afterMessage_cons]
    refine remainder_of ?_ (silent_comment (harmless_rowStart hlocale hkey)
      (silent_cString (ih hes) hvalue))
    rw [rowStart, List.append_assoc, List.append_assoc, source_quiet hquiet, Silent, Short,
      scan_append, hbrace]
    exact silent_newline rfl _

/-- The literals of a message with a trigraph. -/
theorem leading_message {q u : Str} (hu : Remainder (source u)) (hq : Encodable q)
    (h : hasTrigraph q = true) {ts : List C11.Token} (hts : tokens (cString q ++ u) = some ts) :
    (leading ts).length < (utf8 q).length := by
  have hne : q ≠ [] := by
    rintro rfl
    cases h
  have hclosed := (shortened hu hq).closed
  rw [← cString_eq hq hne, List.cons_append, source_plain (by decide) (by decide), missing, h]
    at hclosed
  rw [tokens] at hts
  split_ifs at hts with hcode
  cases hts
  exact hclosed hcode

end Msys.CHeader
