import MsysSdk.Mipc.Scan
import MsysSdk.Json.Grammar

/-! The scanner's tokens are those of the JSON grammar: each step over white space, a string
literal, a number or a bare word takes exactly such a text, and takes it whole. -/

namespace Msys.Mipc
open Libc Json

/-- JSON as the C SDK reads it: `isspace` between tokens, any byte from 0x20 on in a string. -/
def dialect : Dialect UInt8 where
  ch := chr
  space := isspace
  plain b := 0x20 ≤ b && b ≠ chr '"' && b ≠ chr '\\'
  words := [text "true", text "false", text "null"]

@[simp] theorem dialect_ch (c : Char) : dialect.ch c = chr c := rfl
@[simp] theorem dialect_space (b : UInt8) : dialect.space b = isspace b := rfl

/-! ### Bytes and characters -/

def ofByte (b : UInt8) : Char := Char.ofNat b.toNat

theorem toNat_ofByte (b : UInt8) : (ofByte b).toNat = b.toNat := by
  have h := b.toNat_lt
  have hv : b.toNat.isValidChar := .inl (by omega)
  rw [ofByte, Char.ofNat, dif_pos hv]
  rfl

@[simp] theorem chr_ofByte (b : UInt8) : chr (ofByte b) = b := by
  rw [chr, toNat_ofByte]
  simp

theorem lt_of_isDigit {c : Char} (h : c.isDigit = true) : c.toNat < 58 := by
  rw [← Ascii.isDigit_toNat, Ascii.isDigit, Bool.and_eq_true, decide_eq_true_eq,
    decide_eq_true_eq] at h
  omega

theorem isdigit_chr {c : Char} (h : c.isDigit = true) : isdigit (chr c) = true := by
  have hc := lt_of_isDigit h
  rwa [isdigit, toNat_chr (by omega), Ascii.isDigit_toNat]

theorem isDigit_ofByte {b : UInt8} (h : isdigit b = true) : (ofByte b).isDigit = true := by
  rwa [← Ascii.isDigit_toNat, toNat_ofByte]

theorem isDigitOf_iff {b : UInt8} : isDigitOf dialect b ↔ isdigit b = true := by
  constructor
  · rintro ⟨d, hd, rfl⟩
    exact isdigit_chr hd
  · exact fun h => ⟨ofByte b, isDigit_ofByte h, (chr_ofByte b).symm⟩

theorem isHex_ofByte {b : UInt8} : Json.isHex (ofByte b) = isHex b := by
  rw [Json.isHex, isHex, hexValue, toNat_ofByte]

theorem lt_of_isHex {c : Char} (h : Json.isHex c = true) : c.toNat < 128 := by
  by_contra hc
  simp [Json.isHex, Ascii.hexValue, Ascii.isDigit, show ¬c.toNat ≤ 57 by omega,
    show ¬c.toNat ≤ 102 by omega, show ¬c.toNat ≤ 70 by omega] at h

theorem isHex_chr {c : Char} (h : Json.isHex c = true) : isHex (chr c) = true := by
  have hc := lt_of_isHex h
  rwa [isHex, hexValue, toNat_chr (by omega)]

theorem mem_escapes {c : Char} (h : c ∈ shortEscapes) : chr c ∈ escapes ∧ chr c ≠ chr 'u' := by
  have key : shortEscapes.all (fun c => chr c ∈ escapes ∧ chr c ≠ chr 'u') = true := by decide
  simpa using List.all_eq_true.mp key c h

theorem exists_escape {b : UInt8} (h : b ∈ escapes) : ∃ c ∈ shortEscapes, chr c = b := by
  have key : escapes.all (fun b => shortEscapes.any fun c => chr c = b) = true := by decide
  simpa using List.all_eq_true.mp key b h

/-! ### White space -/

theorem startsWith_iff {p : UInt8 → Bool} {s : Bytes} :
    startsWith p s = true ↔ begins (fun b => p b = true) s := by
  cases s <;> simp [startsWith, begins]

@[simp] theorem startsWith_cons (p : UInt8 → Bool) (b : UInt8) (s : Bytes) :
    startsWith p (b :: s) = p b := rfl

@[simp] theorem startsWith_nil (p : UInt8 → Bool) : startsWith p [] = false := rfl

theorem skipSpace_append {ws : Bytes} (h : Spaces dialect ws) (s : Bytes) :
    skipSpace (ws ++ s) = skipSpace s :=
  List.dropWhile_append_of_pos h

theorem skipSpace_cons {b : UInt8} (h : isspace b = false) (s : Bytes) :
    skipSpace (b :: s) = b :: s :=
  List.dropWhile_cons_of_neg (by simp [h])

@[simp] theorem skipSpace_nil : skipSpace [] = [] := rfl

/-- White space, and then the text from which the scanner goes on. -/
theorem skipSpace_split (s : Bytes) :
    ∃ ws, Spaces dialect ws ∧ s = ws ++ skipSpace s := by
  refine ⟨s.takeWhile isspace, fun b hb => ?_, List.takeWhile_append_dropWhile.symm⟩
  exact List.all_eq_true.mp List.all_takeWhile b hb

@[simp] theorem skipSpace_skipSpace (s : Bytes) : skipSpace (skipSpace s) = skipSpace s := by
  obtain ⟨ws, hws, hs⟩ := skipSpace_split s
  conv_rhs => rw [hs]
  exact (skipSpace_append hws _).symm

/-! ### Strings -/

theorem skipStringBody_quote (s : Bytes) : skipStringBody (chr '"' :: s) = some s := by
  rw [skipStringBody.eq_def]
  simp

theorem skipStringBody_control {b : UInt8} (hq : b ≠ chr '"') (hlo : b < 0x20) (s : Bytes) :
    skipStringBody (b :: s) = none := by
  rw [skipStringBody.eq_def]
  simp [hq, hlo]

theorem skipStringBody_plain {b : UInt8} (hq : b ≠ chr '"') (hlo : ¬b < 0x20)
    (hbs : b ≠ chr '\\') (s : Bytes) : skipStringBody (b :: s) = skipStringBody s := by
  rw [skipStringBody.eq_def]
  simp [hq, hlo, hbs]

theorem backslash_ordinary : chr '\\' ≠ chr '"' ∧ ¬chr '\\' < 0x20 := by decide

theorem skipStringBody_escape {e : UInt8} (hu : e ≠ chr 'u') (s : Bytes) :
    skipStringBody (chr '\\' :: e :: s) = if e ∈ escapes then skipStringBody s else none := by
  rw [skipStringBody.eq_def]
  simp [backslash_ordinary, hu]

theorem skipStringBody_unicode (h₁ h₂ h₃ h₄ : UInt8) (s : Bytes) :
    skipStringBody (chr '\\' :: chr 'u' :: h₁ :: h₂ :: h₃ :: h₄ :: s) =
      if isHex h₁ && isHex h₂ && isHex h₃ && isHex h₄ then skipStringBody s else none := by
  rw [skipStringBody.eq_def]
  simp [backslash_ordinary]

theorem skipStringBody_complete {body : List (Piece UInt8)} (h : ∀ p ∈ body, p.Valid dialect)
    (rest : Bytes) :
    skipStringBody (bodyText dialect body ++ chr '"' :: rest) = some rest := by
  induction body with
  | nil => exact skipStringBody_quote rest
  | cons p body ih =>
    have ih := ih fun q hq => h q (List.mem_cons_of_mem _ hq)
    have hp := h p List.mem_cons_self
    simp only [bodyText, List.flatMap_cons, List.append_assoc] at ih ⊢
    cases p with
    | plain b =>
      simp only [Piece.Valid, dialect, Bool.and_eq_true, decide_eq_true_eq] at hp
      obtain ⟨⟨hlo, hq⟩, hbs⟩ := hp
      exact (skipStringBody_plain hq (UInt8.not_lt.mpr hlo) hbs _).trans ih
    | escape c =>
      obtain ⟨hc, hu⟩ := mem_escapes hp
      exact (skipStringBody_escape hu _).trans ((if_pos hc).trans ih)
    | unicode h₁ h₂ h₃ h₄ =>
      obtain ⟨v₁, v₂, v₃, v₄⟩ := hp
      refine (skipStringBody_unicode _ _ _ _ _).trans ((if_pos ?_).trans ih)
      simp [isHex_chr v₁, isHex_chr v₂, isHex_chr v₃, isHex_chr v₄]

theorem skipStringBody_sound {s rest : Bytes} (h : skipStringBody s = some rest) :
    ∃ body : List (Piece UInt8), (∀ p ∈ body, p.Valid dialect) ∧
      s = bodyText dialect body ++ chr '"' :: rest := by
  -- the pieces of the rest of the body, with one more before them
  have more : ∀ {p : Piece UInt8} {t : Bytes}, p.Valid dialect →
      (∃ body : List (Piece UInt8), (∀ q ∈ body, q.Valid dialect) ∧
        t = bodyText dialect body ++ chr '"' :: rest) →
      ∃ body : List (Piece UInt8), (∀ q ∈ body, q.Valid dialect) ∧
        p.text dialect ++ t = bodyText dialect body ++ chr '"' :: rest := by
    rintro p t hp ⟨body, hb, rfl⟩
    exact ⟨p :: body, List.forall_mem_cons.mpr ⟨hp, hb⟩, by simp [bodyText]⟩
  induction s using skipStringBody.induct with
  | case1 => cases h
  | case2 s =>
    rw [skipStringBody_quote, Option.some.injEq] at h
    exact ⟨[], by simp, by simp [bodyText, h]⟩
  | case3 b s hq hlo =>
    rw [skipStringBody_control hq hlo] at h
    cases h
  | case4 => cases h
  | case5 h₁ h₂ h₃ h₄ s hhex _ _ ih =>
    rw [skipStringBody_unicode, if_pos hhex] at h
    simp only [Bool.and_eq_true] at hhex
    obtain ⟨⟨⟨v₁, v₂⟩, v₃⟩, v₄⟩ := hhex
    have hv : (Piece.unicode (ofByte h₁) (ofByte h₂) (ofByte h₃) (ofByte h₄) :
        Piece UInt8).Valid dialect := by
      simp [Piece.Valid, isHex_ofByte, v₁, v₂, v₃, v₄]
    simpa [Piece.text] using more hv (ih h)
  | case6 h₁ h₂ h₃ h₄ s hhex =>
    rw [skipStringBody_unicode, if_neg hhex] at h
    cases h
  | case7 s hs =>
    rw [skipStringBody.eq_def] at h
    simp [backslash_ordinary] at h
  | case8 e s hu he _ _ ih =>
    rw [skipStringBody_escape hu, if_pos he] at h
    obtain ⟨c, hc, rfl⟩ := exists_escape he
    simpa [Piece.text] using more (p := .escape c) hc (ih h)
  | case9 e s hu he =>
    rw [skipStringBody_escape hu, if_neg he] at h
    cases h
  | case10 b s hq hlo hbs ih =>
    rw [skipStringBody_plain hq hlo hbs] at h
    have hv : (Piece.plain b : Piece UInt8).Valid dialect := by
      simp [Piece.Valid, dialect, hq, hbs, UInt8.not_lt.mp hlo]
    simpa [Piece.text] using more hv (ih h)

theorem skipJsonString_complete {body : List (Piece UInt8)} (h : ∀ p ∈ body, p.Valid dialect)
    (rest : Bytes) : skipJsonString (quoted dialect body ++ rest) = some rest := by
  simp [quoted, skipJsonString, skipStringBody_complete h]

theorem skipJsonString_sound {s rest : Bytes} (h : skipJsonString s = some rest) :
    ∃ body : List (Piece UInt8), (∀ p ∈ body, p.Valid dialect) ∧
      s = quoted dialect body ++ rest := by
  cases s with
  | nil => simp [skipJsonString] at h
  | cons b s =>
    simp only [skipJsonString] at h
    split_ifs at h with hq
    obtain ⟨body, hb, rfl⟩ := skipStringBody_sound h
    exact ⟨body, hb, by simp [quoted, hq]⟩

/-! ### Numbers -/

theorem Digits.mem_text {d : Json.Digits} {b : UInt8} (h : b ∈ d.text dialect) :
    isdigit b = true := by
  obtain ⟨c, hc, rfl⟩ := List.mem_map.mp h
  exact isdigit_chr (d.digits c hc)

theorem Digits.startsWith (d : Json.Digits) (s : Bytes) :
    startsWith isdigit (d.text dialect ++ s) = true := by
  obtain ⟨c, cs, hc⟩ := List.exists_cons_of_ne_nil d.nonempty
  have hd := d.digits c (by simp [hc])
  simp [Json.Digits.text, hc, isdigit_chr hd]

theorem skipDigits_text (d : Json.Digits) {rest : Bytes} (h : startsWith isdigit rest = false) :
    skipDigits (d.text dialect ++ rest) = rest := by
  rw [skipDigits, List.dropWhile_append_of_pos fun b hb => Digits.mem_text hb]
  cases rest with
  | nil => rfl
  | cons b rest => exact List.dropWhile_cons_of_neg (by simpa using h)

/-- A run of digits, and then the text from which the scanner goes on. -/
theorem skipDigits_split {s : Bytes} (h : startsWith isdigit s = true) :
    ∃ d : Json.Digits, s = d.text dialect ++ skipDigits s ∧
      startsWith isdigit (skipDigits s) = false := by
  have hall : ∀ b ∈ s.takeWhile isdigit, isdigit b = true := fun b hb =>
    List.all_eq_true.mp List.all_takeWhile b hb
  have hne : s.takeWhile isdigit ≠ [] := by
    cases s with
    | nil => simp at h
    | cons b s => simp [show isdigit b = true from h]
  refine ⟨⟨(s.takeWhile isdigit).map ofByte, by simpa using hne, fun c hc => ?_⟩, ?_, ?_⟩
  · obtain ⟨b, hb, rfl⟩ := List.mem_map.mp hc
    exact isDigit_ofByte (hall b hb)
  · simp [Json.Digits.text, Function.comp_def, skipDigits]
  · cases hs : skipDigits s with
    | nil => rfl
    | cons b r =>
      have := List.head?_dropWhile_not isdigit s
      rw [← skipDigits, hs] at this
      simpa using this

theorem not_begins {p : UInt8 → Bool} {q : UInt8 → Prop} (hpq : ∀ b, p b = true ↔ q b)
    {rest : Bytes} : ¬begins q rest ↔ startsWith p rest = false := by
  rw [← Bool.not_eq_true, startsWith_iff, funext fun b => propext (hpq b)]

theorem not_begins_digit {rest : Bytes} :
    ¬begins (isDigitOf dialect) rest ↔ startsWith isdigit rest = false :=
  not_begins fun _ => isDigitOf_iff.symm

theorem not_begins_point {rest : Bytes} :
    ¬begins (· = dialect.ch '.') rest ↔ startsWith (· = chr '.') rest = false :=
  not_begins fun b => by simp

theorem not_begins_e {rest : Bytes} :
    ¬begins (fun b => b = dialect.ch 'e' ∨ b = dialect.ch 'E') rest ↔
      startsWith (fun b => b = chr 'e' || b = chr 'E') rest = false :=
  not_begins fun b => by simp

/-- No digit is one of the other characters of a number. -/
theorem isdigit_ne {b : UInt8} (h : isdigit b = true) :
    b ≠ chr '-' ∧ b ≠ chr '+' ∧ b ≠ chr '.' ∧ b ≠ chr 'e' ∧ b ≠ chr 'E' := by
  refine ⟨?_, ?_, ?_, ?_, ?_⟩ <;> (rintro rfl; revert h; decide)

theorem skipSign_text (negative : Bool) {s : Bytes} (h : startsWith isdigit s = true) :
    skipSign (signText dialect negative ++ s) = s := by
  cases negative with
  | true => simp [signText, skipSign]
  | false =>
    have hs : startsWith (fun b => decide (b = chr '-')) s = false := by
      cases s with
      | nil => rfl
      | cons b s => simp [(isdigit_ne h).1]
    simp [signText, skipSign, hs]

theorem skipSign_split (s : Bytes) :
    ∃ negative, s = signText dialect negative ++ skipSign s := by
  by_cases h : startsWith (fun b => decide (b = chr '-')) s = true
  · cases s with
    | nil => simp at h
    | cons b s => exact ⟨true, by simp_all [signText, skipSign]⟩
  · exact ⟨false, by simp [signText, skipSign, h]⟩

theorem skipInteger_text (n : Number) {rest : Bytes}
    (h : n.int.chars ≠ ['0'] → startsWith isdigit rest = false) :
    skipInteger (n.int.text dialect ++ rest) = some rest := by
  by_cases hz : n.int.chars = ['0']
  · simp [Json.Digits.text, hz, skipInteger]
  · obtain ⟨c, cs, hc⟩ := List.exists_cons_of_ne_nil n.int.nonempty
    have hd := n.int.digits c (by simp [hc])
    have hne : c ≠ '0' := fun h0 => hz (n.noLeadingZero (by simp [hc, h0]))
    have hb : chr c ≠ chr '0' := by
      rwa [Ne, chr_inj (by have := lt_of_isDigit hd; omega) (by decide)]
    have hstart : startsWith (fun b => decide (b = chr '0')) (n.int.text dialect ++ rest) = false := by
      simp [Json.Digits.text, hc, hb]
    rw [skipInteger, if_neg (by simp [hstart]), if_pos (Digits.startsWith n.int rest),
      skipDigits_text _ (h hz)]

theorem skipInteger_split {s rest : Bytes} (h : skipInteger s = some rest) :
    ∃ d : Json.Digits, (d.chars.head? = some '0' → d.chars = ['0']) ∧
      s = d.text dialect ++ rest ∧ (d.chars ≠ ['0'] → startsWith isdigit rest = false) := by
  unfold skipInteger at h
  split_ifs at h with hz hd
  · cases s with
    | nil => simp at hz
    | cons b s =>
      obtain rfl : s = rest := by simpa using h
      have hb : b = chr '0' := by simpa using hz
      exact ⟨⟨['0'], by simp, by simp⟩, by simp, by simp [Json.Digits.text, hb], by simp⟩
  · obtain ⟨d, hs, hrest⟩ := skipDigits_split hd
    rw [Option.some.inj h] at hs hrest
    refine ⟨d, fun hhead => ?_, hs, fun _ => hrest⟩
    cases hc : d.chars with
    | nil => simp [hc] at hhead
    | cons c cs =>
      obtain rfl : c = '0' := by simpa [hc] using hhead
      simp [hs, Json.Digits.text, hc] at hz

theorem skipFraction_text (f : Option Json.Digits) {rest : Bytes}
    (hnone : f = none → startsWith (· = chr '.') rest = false)
    (hsome : f ≠ none → startsWith isdigit rest = false) :
    skipFraction (fracText dialect f ++ rest) = some rest := by
  cases f with
  | none => simp [fracText, skipFraction, hnone]
  | some d =>
    have hd := Digits.startsWith d rest
    simp [fracText, skipFraction, hd, skipDigits_text d (hsome (by simp))]

theorem skipFraction_split {s rest : Bytes} (h : skipFraction s = some rest) :
    ∃ f, s = fracText dialect f ++ rest ∧
      (f = none → startsWith (· = chr '.') rest = false) ∧
      (f ≠ none → startsWith isdigit rest = false) := by
  unfold skipFraction at h
  split_ifs at h with hp hd
  · obtain ⟨d, hs, hrest⟩ := skipDigits_split hd
    rw [Option.some.inj h] at hs hrest
    cases s with
    | nil => simp at hp
    | cons b s =>
      have hb : b = chr '.' := by simpa using hp
      exact ⟨some d, by simpa [fracText, hb] using hs, by simp, fun _ => hrest⟩
  · rw [Option.some.injEq] at h
    subst h
    exact ⟨none, rfl, fun _ => by simpa using hp, by simp⟩

theorem skipExponentSign_text (sign : Option Bool) {s : Bytes} (h : startsWith isdigit s = true) :
    skipExponentSign (expSignText dialect sign ++ s) = s := by
  match sign with
  | some true => simp [expSignText, skipExponentSign]
  | some false => simp [expSignText, skipExponentSign]
  | none =>
    have hs : startsWith (fun b => decide (b = chr '+') || decide (b = chr '-')) s = false := by
      cases s with
      | nil => rfl
      | cons b s => simp [(isdigit_ne h).1, (isdigit_ne h).2.1]
    simp [expSignText, skipExponentSign, hs]

theorem skipExponentSign_split (s : Bytes) :
    ∃ sign, s = expSignText dialect sign ++ skipExponentSign s := by
  cases s with
  | nil => exact ⟨none, rfl⟩
  | cons b s =>
    by_cases hp : b = chr '+'
    · exact ⟨some false, by simp [expSignText, skipExponentSign, hp]⟩
    · by_cases hm : b = chr '-'
      · exact ⟨some true, by simp [expSignText, skipExponentSign, hm]⟩
      · exact ⟨none, by simp [expSignText, skipExponentSign, hp, hm]⟩

theorem skipExponent_text (e : Option Exponent) {rest : Bytes}
    (hnone : e = none → startsWith (fun b => b = chr 'e' || b = chr 'E') rest = false)
    (hsome : e ≠ none → startsWith isdigit rest = false) :
    skipExponent (expText dialect e ++ rest) = some rest := by
  cases e with
  | none => simp [expText, skipExponent, hnone]
  | some e =>
    have hd := Digits.startsWith e.digits rest
    have hsign := skipExponentSign_text e.sign hd
    have he : chr (if e.upper then 'E' else 'e') = chr 'e' ∨
        chr (if e.upper then 'E' else 'e') = chr 'E' := by
      cases e.upper <;> simp
    simp only [expText, dialect_ch, List.cons_append, List.append_assoc, skipExponent,
      startsWith_cons, List.drop_succ_cons, List.drop_zero]
    rw [if_pos (by simpa using he), hsign, if_pos hd, skipDigits_text _ (hsome (by simp))]

theorem skipExponent_split {s rest : Bytes} (h : skipExponent s = some rest) :
    ∃ e, s = expText dialect e ++ rest ∧
      (e = none → startsWith (fun b => b = chr 'e' || b = chr 'E') rest = false) ∧
      (e ≠ none → startsWith isdigit rest = false) := by
  unfold skipExponent at h
  dsimp only at h
  split_ifs at h with he hd
  · obtain ⟨d, hs, hrest⟩ := skipDigits_split hd
    rw [Option.some.inj h] at hs hrest
    cases s with
    | nil => simp at he
    | cons b s =>
      obtain ⟨sign, hsign⟩ := skipExponentSign_split s
      simp only [List.drop_succ_cons, List.drop_zero] at hs
      rw [hs] at hsign
      have hb : b = chr (if decide (b = chr 'E') then 'E' else 'e') := by
        have : b = chr 'e' ∨ b = chr 'E' := by simpa using he
        rcases this with rfl | rfl <;> decide
      refine ⟨some ⟨decide (b = chr 'E'), sign, d⟩, ?_, by simp, fun _ => hrest⟩
      rw [expText, List.cons_append, List.append_assoc, dialect_ch, ← hb, hsign]
  · rw [Option.some.injEq] at h
    subst h
    exact ⟨none, rfl, fun _ => by simpa using he, by simp⟩

/-- The fraction and the exponent begin with no digit. -/
theorem tail_not_digit {f : Option Json.Digits} {e : Option Exponent} {rest : Bytes}
    (h : e = none → f = none → startsWith isdigit rest = false) :
    startsWith isdigit (fracText dialect f ++ (expText dialect e ++ rest)) = false := by
  cases f with
  | some d => simp [fracText, show isdigit (chr '.') = false by decide]
  | none =>
    cases e with
    | some e =>
      have : isdigit (chr 'E') = false ∧ isdigit (chr 'e') = false := by decide
      cases hu : e.upper <;> simp [fracText, expText, hu, this]
    | none => simpa [fracText, expText] using h

theorem skipNumber_complete {n : Number} {rest : Bytes} (h : n.Stops dialect rest) :
    skipNumber (n.text dialect ++ rest) = some rest := by
  obtain ⟨he, hp, hz, hd⟩ := h
  simp only [not_begins_digit, not_begins_point, not_begins_e] at he hp hz hd
  have hint := Digits.startsWith n.int (fracText dialect n.frac ++ (expText dialect n.exp ++ rest))
  have hexp : n.frac = none → startsWith (· = chr '.') (expText dialect n.exp ++ rest) = false := by
    intro hf
    cases hx : n.exp with
    | none => simpa [expText] using hp hx hf
    | some e =>
      have : chr 'E' ≠ chr '.' ∧ chr 'e' ≠ chr '.' := by decide
      cases hu : e.upper <;> simp [expText, hu, this]
  rw [skipNumber, Number.text]
  simp only [List.append_assoc]
  rw [skipSign_text _ hint, skipInteger_text n fun hne => tail_not_digit fun hx hf => hz hx hf hne,
    Option.bind_some, skipFraction_text _ hexp fun hf => ?_, Option.bind_some,
    skipExponent_text _ he fun hx => hd (.inl hx)]
  exact tail_not_digit (f := none) fun hx _ => hd (.inr hf)

theorem skipNumber_sound {s rest : Bytes} (h : skipNumber s = some rest) :
    ∃ n : Number, s = n.text dialect ++ rest ∧ n.Stops dialect rest := by
  obtain ⟨afterFrac, h, hexp⟩ := Option.bind_eq_some_iff.mp h
  obtain ⟨afterInt, hint, hfrac⟩ := Option.bind_eq_some_iff.mp h
  obtain ⟨negative, hs⟩ := skipSign_split s
  obtain ⟨d, hlead, hd, hdstop⟩ := skipInteger_split hint
  obtain ⟨f, hf, hfnone, hfsome⟩ := skipFraction_split hfrac
  obtain ⟨e, he, henone, hesome⟩ := skipExponent_split hexp
  refine ⟨⟨negative, d, hlead, f, e⟩, ?_, ?_⟩
  · conv_lhs => rw [hs, hd, hf, he]
    simp [Number.text]
  · simp only [Number.Stops, not_begins_digit, not_begins_point, not_begins_e]
    refine ⟨henone, fun hx hn => ?_, fun hx hn hz => ?_, fun hor => ?_⟩
    · simpa [he, show e = none from hx, expText] using hfnone hn
    · have := hdstop hz
      simpa [hf, he, show e = none from hx, show f = none from hn, fracText, expText] using this
    · by_cases hx : e = none
      · have := hfsome (hor.resolve_left (by simpa using hx))
        simpa [he, hx, expText] using this
      · exact hesome hx

end Msys.Mipc
