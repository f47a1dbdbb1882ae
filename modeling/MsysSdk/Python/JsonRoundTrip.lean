import MsysSdk.Python.JsonGrammar
import MsysSdk.Python.Ascii

/-! `json.loads` reads back what `json.dumps` wrote: the same value, unless the hook for the
constants raises at one of them. -/

namespace Python
open Json (Digits Exponent Number)

/-! ### Strings -/

theorem hexValue_hexDigit : ∀ n < 16, hexValue (hexDigit n) = some n := by decide

/-- The four digits that are written for a control character. -/
theorem hexQuad_control {c : CodePoint} (hc : c.val < 32) (rest : Str) :
    hexQuad (ch '0' :: ch '0' :: hexDigit (c.val / 16) :: hexDigit (c.val % 16) :: rest) =
      some (c.val, rest) := by
  have hzero : hexValue (ch '0') = some 0 := by decide
  have hvalue : c.val / 16 * 16 + c.val % 16 = c.val := Nat.div_add_mod' ..
  simp [hexQuad, hzero, hexValue_hexDigit _ (show c.val / 16 < 16 by omega),
    hexValue_hexDigit _ (show c.val % 16 < 16 by omega), hvalue]

theorem scanUnicode_control {c : CodePoint} (hc : c.val < 32) (rest : Str) :
    scanUnicode (ch '0' :: ch '0' :: hexDigit (c.val / 16) :: hexDigit (c.val % 16) :: rest) =
      some (c, rest) := by
  have hlow : ¬0xD800 ≤ c.val := by omega
  simp [scanUnicode, hexQuad_control hc, hlow]
  exact ofNat_eq rfl

theorem scanString_escape {e x : CodePoint} (hu : e ≠ ch 'u') (h : simpleEscape e = some x)
    (n : Nat) (rest : Str) : scanString (n + 1) (ch '\\' :: e :: rest) =
      (scanString n rest).map fun p => (x :: p.1, p.2) := by
  have hquote : ch '\\' ≠ ch '"' := by decide
  simp only [scanString, if_neg hquote, if_true, if_neg hu, h]
  cases scanString n rest <;> rfl

theorem scanString_escapeChar (c : CodePoint) (n : Nat) (rest : Str) :
    scanString (n + 1) (escapeChar c ++ rest) =
      (scanString n rest).map fun p => (c :: p.1, p.2) := by
  unfold escapeChar
  split_ifs with h1 h2 h3 h4 h5 h6 h7 h8
  · exact scanString_escape (by decide) (by rw [h1]; decide) n rest
  · exact scanString_escape (by decide) (by rw [h2]; decide) n rest
  · exact scanString_escape (by decide) (by rw [h3]; decide) n rest
  · exact scanString_escape (by decide) (by rw [h4]; decide) n rest
  · exact scanString_escape (by decide) (by rw [h5]; decide) n rest
  · exact scanString_escape (by decide) (by rw [h6]; decide) n rest
  · exact scanString_escape (by decide) (by rw [h7]; decide) n rest
  · have hquote : ch '\\' ≠ ch '"' := by decide
    simp only [List.cons_append, List.nil_append, scanString, if_neg hquote, if_true,
      scanUnicode_control h8, Option.bind_eq_bind, Option.bind_some]
    cases scanString n rest <;> rfl
  · have hcontrol : ¬c < 32 := h8
    simp only [List.singleton_append, scanString, if_neg h1, if_neg h2, if_neg hcontrol]
    cases scanString n rest <;> rfl

theorem scanString_quoted {n : Nat} {s : Str} (hn : s.length < n) (rest : Str) :
    scanString n (s.flatMap escapeChar ++ ch '"' :: rest) = some (s, rest) := by
  induction s generalizing n with
  | nil =>
    obtain ⟨n, rfl⟩ := Nat.exists_eq_succ_of_ne_zero (Nat.ne_zero_of_lt hn)
    simp [scanString]
  | cons c s ih =>
    obtain ⟨n, rfl⟩ := Nat.exists_eq_succ_of_ne_zero (Nat.ne_zero_of_lt hn)
    rw [List.flatMap_cons, List.append_assoc, scanString_escapeChar,
      ih (Nat.lt_of_succ_lt_succ hn)]
    rfl

theorem length_le_quoted (s : Str) : s.length + 2 ≤ (quoted s).length := by
  have hchar : ∀ c, 1 ≤ (escapeChar c).length := by
    intro c
    unfold escapeChar
    split_ifs <;> simp
  have h : s.length ≤ (s.flatMap escapeChar).length := by
    induction s with
    | nil => simp
    | cons c s ih =>
      have := hchar c
      simp only [List.flatMap_cons, List.length_append, List.length_cons]
      omega
  simp only [quoted, List.length_append, List.length_cons, List.length_nil]
  omega

/-! ### Numbers -/

def NoDigit (rest : Str) : Prop := ∀ c, rest.head? = some c → isDigit c = false

theorem takeDigits {ds rest : Str} (hd : ∀ c ∈ ds, isDigit c = true) (hr : NoDigit rest) :
    (ds ++ rest).takeWhile isDigit = ds ∧ (ds ++ rest).dropWhile isDigit = rest := by
  rw [List.takeWhile_append_of_pos hd, List.dropWhile_append_of_pos hd]
  cases rest with
  | nil => simp
  | cons c rest =>
    have hc := hr c rfl
    simp [hc]

theorem ascii_of_isDigit {c : Char} (h : c.isDigit = true) : c.toNat < 0x80 := by
  have hc := Char.isDigit_iff_toNat.mp h
  exact lt_of_le_of_lt hc.2 (by decide)

theorem isDigit_ch {c : Char} (h : c.isDigit = true) : isDigit (ch c) = true := by
  rw [isDigit_iff, ch_val (ascii_of_isDigit h)]
  exact Char.isDigit_iff_toNat.mp h

theorem isDigit_text (d : Digits) : ∀ c ∈ d.text dialect, isDigit c = true := by
  intro c hc
  obtain ⟨x, hx, rfl⟩ := List.mem_map.mp hc
  exact isDigit_ch (d.digits x hx)

theorem digits_cons (d : Digits) : ∃ c cs, d.text dialect = c :: cs ∧ isDigit c = true ∧
    ∀ x ∈ cs, isDigit x = true := by
  have hall := isDigit_text d
  cases ht : d.text dialect with
  | nil => exact absurd (List.map_eq_nil_iff.mp ht) d.nonempty
  | cons c cs =>
    rw [ht, List.forall_mem_cons] at hall
    exact ⟨c, cs, rfl, hall⟩

theorem scanDigits_text (n : Number) {rest : Str} (hr : NoDigit rest) :
    ∃ c cs, n.int.text dialect ++ rest = c :: cs ∧ isDigit c = true ∧
      scanDigits c cs = (n.int.text dialect, rest) := by
  obtain ⟨c, cs, ht, hc, hcs⟩ := digits_cons n.int
  obtain ⟨htake, hdrop⟩ := takeDigits hcs hr
  refine ⟨c, cs ++ rest, by rw [ht]; rfl, hc, ?_⟩
  unfold scanDigits
  split_ifs with hzero
  · -- a leading zero is the whole of the digits
    have hone : n.int.text dialect = [ch '0'] := by
      cases hchars : n.int.chars with
      | nil => exact absurd hchars n.int.nonempty
      | cons d ds =>
        have hd := n.int.digits d (by rw [hchars]; exact List.mem_cons_self)
        rw [Digits.text, hchars, List.map_cons] at ht
        have hch : ch d = ch '0' := (List.cons.inj ht).1.trans hzero
        have hd0 : d = '0' := (ch_inj (ascii_of_isDigit hd) (by decide)).mp hch
        have hall := n.noLeadingZero (by rw [hchars, hd0]; rfl)
        rw [Digits.text, hall]
        rfl
    rw [hone] at ht ⊢
    obtain ⟨rfl, rfl⟩ := List.cons.inj ht
    rfl
  · rw [htake, hdrop, ht]

theorem scanFraction_text (frac : Option Digits) {rest : Str} (hr : NoDigit rest)
    (hpoint : frac = none → ∀ c, rest.head? = some c → c ≠ ch '.') :
    scanFraction (Json.fracText dialect frac ++ rest) = (Json.fracText dialect frac, rest) := by
  cases frac with
  | none =>
    rw [Json.fracText, List.nil_append]
    unfold scanFraction
    split
    next p d rest =>
      have hp : ¬(p = ch '.' && isDigit d) = true := by
        simp [hpoint rfl p rfl]
      rw [if_neg hp]
    next => rfl
  | some ds =>
    obtain ⟨c, cs, ht, hc, hcs⟩ := digits_cons ds
    obtain ⟨htake, hdrop⟩ := takeDigits hcs hr
    have hp : (ch '.' = ch '.' && isDigit c) = true := by simp [hc]
    rw [Json.fracText, ht]
    show scanFraction (ch '.' :: c :: (cs ++ rest)) = _
    rw [scanFraction, if_pos hp, htake, hdrop]
    rfl

theorem scanExponent_text (exp : Option Exponent) {rest : Str} (hr : NoDigit rest)
    (hletter : exp = none → ∀ c, rest.head? = some c → c ≠ ch 'e' ∧ c ≠ ch 'E') :
    scanExponent (Json.expText dialect exp ++ rest) = (Json.expText dialect exp, rest) := by
  cases exp with
  | none =>
    rw [Json.expText, List.nil_append]
    unfold scanExponent
    split
    next e d rest =>
      obtain ⟨he, hE⟩ := hletter rfl e rfl
      have hp : ¬(e = ch 'e' || e = ch 'E') = true := by simp [he, hE]
      rw [if_neg hp]
    next => rfl
  | some e =>
    obtain ⟨c, cs, ht, hc, hcs⟩ := digits_cons e.digits
    obtain ⟨htake, hdrop⟩ := takeDigits hcs hr
    have hp : ∀ upper : Bool, (ch (if upper then 'E' else 'e') = ch 'e' ||
        ch (if upper then 'E' else 'e') = ch 'E') = true := by decide
    have hminus : ¬isDigit (ch '-') = true := by decide
    have hplus : ¬isDigit (ch '+') = true := by decide
    rw [Json.expText, ht]
    cases e.sign with
    | none =>
      show scanExponent (ch _ :: c :: (cs ++ rest)) = _
      unfold scanExponent
      dsimp only
      rw [if_pos (hp _), if_pos hc, htake, hdrop]
      rfl
    | some negative =>
      cases negative with
      | true =>
        show scanExponent (ch _ :: ch '-' :: c :: (cs ++ rest)) = _
        rw [scanExponent, if_pos (hp _), if_neg hminus, if_pos (by decide),
          if_pos hc, htake, hdrop]
        rfl
      | false =>
        show scanExponent (ch _ :: ch '+' :: c :: (cs ++ rest)) = _
        rw [scanExponent, if_pos (hp _), if_neg hplus, if_pos (by decide),
          if_pos hc, htake, hdrop]
        rfl

/-- What may follow a value. -/
def Closes (rest : Str) : Prop :=
  ∀ c, rest.head? = some c → c = ch ',' ∨ c = ch ']' ∨ c = ch '\x7d' ∨ c = ch '\n'

theorem Closes.noDigit {rest : Str} (h : Closes rest) : NoDigit rest := by
  intro c hc
  rcases h c hc with rfl | rfl | rfl | rfl <;> decide

theorem scanUnsigned_text (py : Interpreter) (sign : Str) (n : Number) {rest : Str}
    (h : Closes rest) :
    scanUnsigned py sign (n.int.text dialect ++ (Json.fracText dialect n.frac ++
      (Json.expText dialect n.exp ++ rest))) =
      (numberValue py sign (n.int.text dialect) (Json.fracText dialect n.frac)
        (Json.expText dialect n.exp)).map (·, rest) := by
  -- what follows the digits is a point, a letter or the end of the value
  have hstop : ∀ c, (Json.expText dialect n.exp ++ rest).head? = some c →
      isDigit c = false ∧ c ≠ ch '.' := by
    intro c hc
    cases hexp : n.exp with
    | none =>
      rw [hexp] at hc
      rcases h c hc with rfl | rfl | rfl | rfl <;> decide
    | some e =>
      rw [hexp] at hc
      obtain rfl := Option.some.inj hc
      show isDigit (ch _) = false ∧ ch _ ≠ ch '.'
      cases e.upper <;> decide
  have hfrac : NoDigit (Json.fracText dialect n.frac ++ (Json.expText dialect n.exp ++ rest)) := by
    intro c hc
    cases hf : n.frac with
    | none =>
      rw [hf] at hc
      exact (hstop c hc).1
    | some ds =>
      rw [hf] at hc
      obtain rfl := Option.some.inj hc
      decide
  obtain ⟨c, cs, ht, hc, hdigits⟩ := scanDigits_text n hfrac
  have hexponent := scanExponent_text n.exp h.noDigit fun _ c hc => by
    rcases h c hc with rfl | rfl | rfl | rfl <;> decide
  have hfraction := scanFraction_text n.frac (fun c hc => (hstop c hc).1) fun _ c hc =>
    (hstop c hc).2
  rw [ht, scanUnsigned, if_neg (by simp [hc])]
  simp only [hdigits, hfraction, hexponent]
  cases numberValue py sign (n.int.text dialect) (Json.fracText dialect n.frac)
    (Json.expText dialect n.exp) <;> rfl

theorem number_head (n : Number) (rest : Str) : ∃ c t, n.text dialect ++ rest = c :: t ∧
    (isDigit c = true ∨ c = ch '-' ∧ ∃ d u, t = d :: u ∧ isDigit d = true) := by
  obtain ⟨c, cs, ht, hc, -⟩ := digits_cons n.int
  unfold Number.text Json.signText
  rw [ht]
  cases n.negative with
  | true => exact ⟨_, _, rfl, .inr ⟨rfl, _, _, rfl, hc⟩⟩
  | false => exact ⟨_, _, rfl, .inl hc⟩

theorem scanNumber_text (py : Interpreter) (n : Number) {rest : Str} (h : Closes rest) :
    scanNumber py (n.text dialect ++ rest) =
      (numberValue py (Json.signText dialect n.negative) (n.int.text dialect)
        (Json.fracText dialect n.frac) (Json.expText dialect n.exp)).map (·, rest) := by
  have htext : n.text dialect ++ rest = Json.signText dialect n.negative ++ (n.int.text dialect ++
      (Json.fracText dialect n.frac ++ (Json.expText dialect n.exp ++ rest))) := by
    simp only [Number.text, List.append_assoc]
  rw [htext]
  cases n.negative with
  | true =>
    rw [← scanUnsigned_text py _ n h]
    show scanNumber py (ch '-' :: _) = _
    rw [scanNumber, if_pos rfl]
    rfl
  | false =>
    obtain ⟨c, cs, ht, hc, -⟩ := digits_cons n.int
    have hne : c ≠ ch '-' := by
      rintro rfl
      revert hc
      decide
    rw [← scanUnsigned_text py _ n h, ht]
    exact if_neg hne

/-- What a number is spelled with. -/
theorem forall_number_text {P : CodePoint → Prop} (hd : ∀ c, isDigit c = true → P c)
    (hs : ∀ c ∈ [ch '-', ch '+', ch '.', ch 'e', ch 'E'], P c) (n : Number) :
    ∀ c ∈ n.text dialect, P c := by
  have digits : ∀ d : Digits, ∀ c ∈ d.text dialect, P c := fun d c hc => hd c (isDigit_text d c hc)
  intro c hc
  simp only [Number.text, List.mem_append] at hc
  rcases hc with hc | hc | hc | hc
  · cases hn : n.negative with
    | true =>
      rw [hn] at hc
      rw [List.mem_singleton.mp hc]
      exact hs _ (by simp)
    | false =>
      rw [hn] at hc
      cases hc
  · exact digits _ c hc
  · cases hf : n.frac with
    | none =>
      rw [hf] at hc
      cases hc
    | some d =>
      rw [hf] at hc
      rcases List.mem_cons.mp hc with rfl | hc
      · exact hs _ (by simp)
      · exact digits d c hc
  · cases he : n.exp with
    | none =>
      rw [he] at hc
      cases hc
    | some e =>
      rw [he, Json.expText] at hc
      rcases List.mem_cons.mp hc with rfl | hc
      · cases e.upper <;> exact hs _ (by simp)
      · rcases List.mem_append.mp hc with hc | hc
        · cases hsign : e.sign with
          | none =>
            rw [hsign] at hc
            cases hc
          | some negative =>
            rw [hsign] at hc
            cases negative <;> (rw [List.mem_singleton.mp hc]; exact hs _ (by simp))
        · exact digits _ c hc

/-! ### Names -/

theorem takePrefix_head {a c : CodePoint} (name t : Str) (h : a ≠ c) :
    takePrefix (a :: name) (c :: t) = none := by
  rw [takePrefix, if_neg]
  simp [h]

theorem takePrefix_second {a b c d : CodePoint} (name t : Str) (h : b ≠ d) :
    takePrefix (a :: b :: name) (c :: d :: t) = none := by
  rw [takePrefix, if_neg]
  simp [h]

/-- No name is read at a number. -/
theorem scanName_number (n : Number) (rest : Str) :
    scanName literals (n.text dialect ++ rest) = none ∧
      scanName constants (n.text dialect ++ rest) = none := by
  obtain ⟨c, t, ht, hc⟩ := number_head n rest
  have digit_ne : ∀ {x : CodePoint} (a : CodePoint), isDigit a = false → isDigit x = true →
      a ≠ x := by
    rintro x a ha hx rfl
    cases ha.symm.trans hx
  rw [ht]
  have hhead : ∀ (a : CodePoint) (name : Str), isDigit a = false → a ≠ ch '-' →
      takePrefix (a :: name) (c :: t) = none := by
    intro a name ha hminus
    refine takePrefix_head name t ?_
    rcases hc with hc | ⟨rfl, -⟩
    · exact digit_ne a ha hc
    · exact hminus
  have hinf : takePrefix (str "-Infinity") (c :: t) = none := by
    rcases hc with hc | ⟨rfl, d, u, rfl, hd⟩
    · exact takePrefix_head _ t (digit_ne _ (by decide) hc)
    · exact takePrefix_second _ u (digit_ne _ (by decide) hd)
  have hnull : takePrefix (str "null") (c :: t) = none := hhead _ _ (by decide) (by decide)
  have htrue : takePrefix (str "true") (c :: t) = none := hhead _ _ (by decide) (by decide)
  have hfalse : takePrefix (str "false") (c :: t) = none := hhead _ _ (by decide) (by decide)
  have hnan : takePrefix (str "NaN") (c :: t) = none := hhead _ _ (by decide) (by decide)
  have hinfinity : takePrefix (str "Infinity") (c :: t) = none :=
    hhead _ _ (by decide) (by decide)
  constructor
  · simp [scanName, literals, hnull, htrue, hfalse]
  · simp [scanName, constants, hnan, hinfinity, hinf]

theorem scanAtom_number (py : Interpreter) (finiteOnly : Bool) (n : Number) (rest : Str) :
    scanAtom py finiteOnly (n.text dialect ++ rest) = scanNumber py (n.text dialect ++ rest) := by
  obtain ⟨hliteral, hconstant⟩ := scanName_number n rest
  rw [scanAtom, hliteral]
  dsimp only
  rw [hconstant]

/-! ### The values that are written -/

/-- The text of a float has a fraction or an exponent. -/
def FloatText (r : Str) : Prop :=
  ∃ n : Number, r = n.text dialect ∧ (n.frac ≠ none ∨ n.exp ≠ none)

mutual
/-- Made of the values of JSON, with the constants: keys are strings, no mapping has one twice,
and a finite float is read back from its `repr`. -/
def Value.IsJson (py : Interpreter) : Value → Prop
  | .float (.finite r) => FloatText r ∧ py.parseFloat r = .finite r
  | .list xs => ItemsJson py xs
  | .dict d => (d.map Prod.fst).Nodup ∧ EntriesJson py d
  | .cyclic | .object _ => False
  | _ => True

def ItemsJson (py : Interpreter) : List Value → Prop
  | [] => True
  | x :: xs => x.IsJson py ∧ ItemsJson py xs

def EntriesJson (py : Interpreter) : List (Value × Value) → Prop
  | [] => True
  | (k, v) :: d => (∃ s, k = .str s) ∧ v.IsJson py ∧ EntriesJson py d
end

mutual
/-- No NaN and no infinity in it. -/
def Value.finite : Value → Bool
  | .float (.finite _) => true
  | .float _ => false
  | .list xs => finiteItems xs
  | .dict d => finiteEntries d
  | _ => true

def finiteItems : List Value → Bool
  | [] => true
  | x :: xs => x.finite && finiteItems xs

def finiteEntries : List (Value × Value) → Bool
  | [] => true
  | (_, v) :: d => v.finite && finiteEntries d
end

/-- What the decoder makes of a text written for `x`: with the hook it stops at a constant. -/
def readBack {α : Type} (finiteOnly finite : Bool) (x : α) (rest : Str) :
    Except LoadsError (α × Str) :=
  if finiteOnly && !finite then .error .constant else .ok (x, rest)

section
variable {py : Interpreter} {finiteOnly allowNan : Bool} {depth fuel : Nat} {s rest : Str}

theorem scanValue_atom {c : CodePoint} {t : Str} (hq : c ≠ ch '"') (hb : c ≠ ch '\x7b')
    (hl : c ≠ ch '[') : scanValue py finiteOnly (fuel + 1) depth (c :: t) =
      scanAtom py finiteOnly (c :: t) := by
  unfold scanValue
  dsimp only
  rw [if_neg hq, if_neg hb, if_neg hl]

theorem scanValue_number (n : Number) (h : Closes rest) :
    scanValue py finiteOnly (fuel + 1) depth (n.text dialect ++ rest) =
      (numberValue py (Json.signText dialect n.negative) (n.int.text dialect)
        (Json.fracText dialect n.frac) (Json.expText dialect n.exp)).map (·, rest) := by
  rw [← scanNumber_text py n h, ← scanAtom_number py finiteOnly]
  obtain ⟨c, t, ht, hc⟩ := number_head n rest
  rw [ht]
  rcases hc with hc | ⟨rfl, -⟩
  · have hne : ∀ a, isDigit a = false → c ≠ a := by
      rintro a ha rfl
      cases ha.symm.trans hc
    exact scanValue_atom (hne _ (by decide)) (hne _ (by decide)) (hne _ (by decide))
  · exact scanValue_atom (by decide) (by decide) (by decide)

theorem digitsValue_text (d : Digits) :
    digitsValue (d.text dialect) = Nat.ofDigitChars 10 d.chars 0 := by
  rw [digitsValue, Digits.text, List.foldl_map, Nat.ofDigitChars_eq_foldl]
  refine List.foldl_ext _ _ 0 fun n c hc => ?_
  have hzero : '0'.toNat = 48 := rfl
  rw [dialect_ch, ch_val (ascii_of_isDigit (d.digits c hc)), hzero, mul_comm]

/-- An integer is written as a number and read back from it. -/
theorem intRepr_number (py : Interpreter) {i : Int} (h : intRepr i = .ok s) :
    ∃ n : Number, s = n.text dialect ∧ numberValue py (Json.signText dialect n.negative)
      (n.int.text dialect) (Json.fracText dialect n.frac) (Json.expText dialect n.exp) =
        .ok (.int i) := by
  have hdigits : (Json.wholeNumber (decide (i < 0)) i.natAbs).int.text dialect =
      natRepr i.natAbs := rfl
  have hvalue : digitsValue (natRepr i.natAbs) = i.natAbs := by
    rw [← hdigits, digitsValue_text]
    exact Nat.ofDigitChars_ten_toDigits
  unfold intRepr at h
  dsimp only at h
  split_ifs at h with hlong hneg
  · refine ⟨Json.wholeNumber true i.natAbs, ?_, ?_⟩
    · rw [← Except.ok.inj h]
      simp [Number.text, Json.wholeNumber, Json.signText, Json.fracText, Json.expText, Digits.text,
        natRepr]
    · show (if intMaxStrDigits < (natRepr i.natAbs).length then Except.error LoadsError.digits
        else .ok (Value.int (-digitsValue (natRepr i.natAbs)))) = _
      rw [if_neg hlong, hvalue]
      congr 2
      omega
  · refine ⟨Json.wholeNumber false i.natAbs, ?_, ?_⟩
    · rw [← Except.ok.inj h]
      simp [Number.text, Json.wholeNumber, Json.signText, Json.fracText, Json.expText, Digits.text,
        natRepr]
    · show (if intMaxStrDigits < (natRepr i.natAbs).length then Except.error LoadsError.digits
        else .ok (Value.int (digitsValue (natRepr i.natAbs)))) = _
      rw [if_neg hlong, hvalue]
      congr 2
      omega

theorem numberValue_float {n : Number} (h : n.frac ≠ none ∨ n.exp ≠ none) :
    numberValue py (Json.signText dialect n.negative) (n.int.text dialect)
      (Json.fracText dialect n.frac) (Json.expText dialect n.exp) =
        .ok (.float (py.parseFloat (n.text dialect))) := by
  have hne : ¬(Json.fracText dialect n.frac = [] && Json.expText dialect n.exp = []) = true := by
    cases hf : n.frac <;> cases he : n.exp <;> simp_all [Json.fracText, Json.expText]
  rw [numberValue, if_neg hne]
  simp only [Number.text, List.append_assoc]

/-! ### One step of a container -/

def Opens (s : Str) : Prop :=
  ∃ c t, s = c :: t ∧ isSpace c = false ∧ c ≠ ch ']' ∧ c.val < 0x80

theorem Opens.append (h : Opens s) (t : Str) : Opens (s ++ t) := by
  obtain ⟨c, u, rfl, hc⟩ := h
  exact ⟨c, u ++ t, rfl, hc⟩

theorem Opens.skipSpace (h : Opens s) : skipSpace s = s := by
  obtain ⟨c, t, rfl, hc, -⟩ := h
  exact List.dropWhile_cons_of_neg (by simp [hc])

theorem skipSpace_cons {c : CodePoint} (t : Str) (h : isSpace c = false) :
    Python.skipSpace (c :: t) = c :: t :=
  List.dropWhile_cons_of_neg (by simp [h])

/-- White space between two tokens. -/
def Blank (w : Str) : Prop := ∀ c ∈ w, isSpace c = true

theorem Blank.nil : Blank [] := fun _ hc => absurd hc List.not_mem_nil

theorem Blank.skip {w : Str} (h : Blank w) (t : Str) :
    Python.skipSpace (w ++ t) = Python.skipSpace t := by
  rw [Python.skipSpace, List.dropWhile_append_of_pos h]
  rfl

theorem readBack_finite {α : Type} (x : α) :
    readBack finiteOnly true x rest = .ok (x, rest) := by
  rw [readBack, Bool.not_true, Bool.and_false, if_neg (by decide)]

theorem readBack_map {α β : Type} (g : α → β) (finite : Bool) (x : α) :
    (readBack finiteOnly finite x rest).map (fun p => (g p.1, p.2)) =
      readBack finiteOnly finite (g x) rest := by
  unfold readBack
  split_ifs <;> rfl

/-- Two parts, of which the first is read first. -/
theorem readBack_and {α : Type} (finite finites : Bool) (x : α) :
    readBack finiteOnly (finite && finites) x rest =
      if finiteOnly && !finite then .error .constant
      else readBack finiteOnly finites x rest := by
  unfold readBack
  cases finiteOnly <;> cases finite <;> cases finites <;> rfl

theorem scanValue_list (h : Opens s) : scanValue py finiteOnly (fuel + 1) (depth + 1) (ch '[' :: s) =
    (scanItems py finiteOnly fuel depth s).map fun p => (.list p.1, p.2) := by
  have hq : ch '[' ≠ ch '"' := by decide
  have hb : ch '[' ≠ ch '\x7b' := by decide
  unfold scanValue
  dsimp only
  rw [if_neg hq, if_neg hb, if_pos rfl, h.skipSpace]
  obtain ⟨c, t, rfl, -, hc, -⟩ := h
  dsimp only
  rw [if_neg hc]
  cases scanItems py finiteOnly fuel depth (c :: t) <;> rfl

theorem scanValue_object (t : Str) :
    scanValue py finiteOnly (fuel + 1) (depth + 1) (ch '\x7b' :: ch '"' :: t) =
      (scanMembers py finiteOnly fuel depth [] (ch '"' :: t)).map fun p => (.dict p.1, p.2) := by
  have hq : ch '\x7b' ≠ ch '"' := by decide
  have hc : ch '"' ≠ ch '\x7d' := by decide
  unfold scanValue
  dsimp only
  rw [if_neg hq, if_pos rfl, skipSpace_cons t (by decide)]
  dsimp only
  rw [if_neg hc]
  cases scanMembers py finiteOnly fuel depth [] (ch '"' :: t) <;> rfl

section
variable {finite finites : Bool} {x : Value} {t w g : Str}

theorem scanItems_last (hw : Blank w)
    (h : scanValue py finiteOnly fuel depth (s ++ (w ++ ch ']' :: rest)) =
      readBack finiteOnly finite x (w ++ ch ']' :: rest)) :
    scanItems py finiteOnly (fuel + 1) depth (s ++ (w ++ ch ']' :: rest)) =
      readBack finiteOnly finite [x] rest := by
  unfold scanItems
  rw [h]
  unfold readBack
  split_ifs
  · rfl
  · dsimp only [bind, Except.bind]
    rw [hw.skip, skipSpace_cons rest (by decide)]
    exact if_pos rfl

theorem scanItems_next {xs : List Value} (hw : Blank w) (ht : Opens t)
    (h : scanValue py finiteOnly fuel depth (s ++ ch ',' :: (w ++ t)) =
      readBack finiteOnly finite x (ch ',' :: (w ++ t)))
    (hs : scanItems py finiteOnly fuel depth t = readBack finiteOnly finites xs rest) :
    scanItems py finiteOnly (fuel + 1) depth (s ++ ch ',' :: (w ++ t)) =
      readBack finiteOnly (finite && finites) (x :: xs) rest := by
  have hclose : ch ',' ≠ ch ']' := by decide
  unfold scanItems
  rw [h, readBack_and, readBack]
  split_ifs
  · rfl
  · dsimp only [bind, Except.bind]
    rw [skipSpace_cons _ (by decide)]
    dsimp only
    rw [if_neg hclose, if_pos rfl, hw.skip, ht.skipSpace, hs]
    unfold readBack
    split_ifs <;> rfl

/-- A member up to its value. -/
theorem scanMembers_name {k : Str} {before : Dict} (hg : Blank g) (hk : k.length < fuel + 1)
    (hs : Opens s) :
    scanMembers py finiteOnly (fuel + 1) depth before (quoted k ++ ch ':' :: (g ++ s)) =
      (scanValue py finiteOnly fuel depth s).bind fun p =>
        match Python.skipSpace p.2 with
        | [] => .error .malformed
        | c :: rest =>
          if c = ch '\x7d' then .ok (before.set k p.1, rest)
          else if c = ch ',' then
            scanMembers py finiteOnly fuel depth (before.set k p.1) (Python.skipSpace rest)
          else .error .malformed := by
  have hquoted : quoted k ++ ch ':' :: (g ++ s) =
      ch '"' :: (k.flatMap escapeChar ++ ch '"' :: ch ':' :: (g ++ s)) := by
    simp [quoted]
  rw [hquoted]
  conv_lhs => unfold scanMembers
  dsimp only
  rw [if_neg (not_not.mpr rfl), scanString_quoted hk]
  dsimp only
  rw [skipSpace_cons (g ++ s) (by decide)]
  dsimp only
  rw [if_neg (not_not.mpr rfl), hg.skip, hs.skipSpace]
  cases scanValue py finiteOnly fuel depth s <;> rfl

theorem scanMembers_last {k : Str} {before : Dict} (hg : Blank g) (hw : Blank w)
    (hk : k.length < fuel + 1) (hs : Opens s)
    (h : scanValue py finiteOnly fuel depth (s ++ (w ++ ch '\x7d' :: rest)) =
      readBack finiteOnly finite x (w ++ ch '\x7d' :: rest)) :
    scanMembers py finiteOnly (fuel + 1) depth before
      (quoted k ++ ch ':' :: (g ++ (s ++ (w ++ ch '\x7d' :: rest)))) =
      readBack finiteOnly finite (before.set k x) rest := by
  rw [scanMembers_name hg hk (hs.append _), h]
  unfold readBack
  split_ifs
  · rfl
  · dsimp only [Except.bind]
    rw [hw.skip, skipSpace_cons rest (by decide)]
    exact if_pos rfl

theorem scanMembers_next {k : Str} {before d : Dict} (hg : Blank g) (hw : Blank w)
    (hk : k.length < fuel + 1) (hs : Opens s) (ht : Opens t)
    (h : scanValue py finiteOnly fuel depth (s ++ ch ',' :: (w ++ t)) =
      readBack finiteOnly finite x (ch ',' :: (w ++ t)))
    (hrest : scanMembers py finiteOnly fuel depth (before.set k x) t =
      readBack finiteOnly finites d rest) :
    scanMembers py finiteOnly (fuel + 1) depth before
      (quoted k ++ ch ':' :: (g ++ (s ++ ch ',' :: (w ++ t)))) =
      readBack finiteOnly (finite && finites) d rest := by
  have hclose : ch ',' ≠ ch '\x7d' := by decide
  rw [scanMembers_name hg hk (hs.append _), h, readBack_and, readBack]
  split_ifs
  · rfl
  · dsimp only [Except.bind]
    rw [skipSpace_cons _ (by decide)]
    dsimp only
    rw [if_neg hclose, if_pos rfl, hw.skip, ht.skipSpace, hrest]

end

/-! ### Heads of written texts -/

theorem number_opens (n : Number) : Opens (n.text dialect) := by
  obtain ⟨c, t, ht, hc⟩ := number_head n []
  rw [List.append_nil] at ht
  refine ⟨c, t, ht, ?_⟩
  rcases hc with hc | ⟨rfl, -⟩
  · have hval := isDigit_iff.mp hc
    have hne : ∀ a, isDigit a = false → c ≠ a := by
      rintro a ha rfl
      cases ha.symm.trans hc
    refine ⟨?_, hne _ (by decide), by omega⟩
    simp [isSpace, hne (ch ' ') (by decide), hne (ch '\t') (by decide), hne (ch '\n') (by decide),
      hne (ch '\r') (by decide)]
  · exact ⟨by decide, by decide, by decide⟩

theorem quoted_opens (k : Str) : Opens (quoted k) := ⟨_, _, rfl, by decide, by decide, by decide⟩

theorem dumpValue_opens {v : Value} (h : dumpValue allowNan depth v = .ok s) (hv : v.IsJson py) :
    Opens s := by
  have named : ∀ name : String, Opens (str name) → Except.ok (str name) = Except.ok (ε := DumpsError) s →
      Opens s := fun _ hopens heq => Except.ok.inj heq ▸ hopens
  cases v with
  | none =>
    unfold dumpValue at h
    exact named _ ⟨_, _, rfl, by decide, by decide, by decide⟩ h
  | bool b =>
    unfold dumpValue at h
    cases b
    · exact named _ ⟨_, _, rfl, by decide, by decide, by decide⟩ h
    · exact named _ ⟨_, _, rfl, by decide, by decide, by decide⟩ h
  | int i =>
    unfold dumpValue at h
    obtain ⟨n, rfl, -⟩ := intRepr_number py h
    exact number_opens n
  | float f =>
    unfold dumpValue floatRepr at h
    cases f with
    | finite r =>
      unfold Value.IsJson at hv
      obtain ⟨⟨n, hr, -⟩, -⟩ := hv
      rw [← Except.ok.inj h, hr]
      exact number_opens n
    | nan =>
      dsimp only at h
      split_ifs at h
      exact named _ ⟨_, _, rfl, by decide, by decide, by decide⟩ h
    | infinity negative =>
      dsimp only at h
      split_ifs at h
      · exact named _ ⟨_, _, rfl, by decide, by decide, by decide⟩ h
      · exact named _ ⟨_, _, rfl, by decide, by decide, by decide⟩ h
  | str x =>
    unfold dumpValue at h
    rw [← Except.ok.inj h]
    exact quoted_opens x
  | list xs =>
    cases depth with
    | zero => cases h
    | succ depth =>
      unfold dumpValue at h
      obtain ⟨body, -, h⟩ := bind_ok h
      rw [← Except.ok.inj h]
      exact ⟨_, _, rfl, by decide, by decide, by decide⟩
  | dict d =>
    cases depth with
    | zero => cases h
    | succ depth =>
      unfold dumpValue at h
      obtain ⟨body, -, h⟩ := bind_ok h
      rw [← Except.ok.inj h]
      exact ⟨_, _, rfl, by decide, by decide, by decide⟩
  | cyclic => exact hv.elim
  | object t => exact hv.elim

theorem dumpItems_opens {x : Value} {xs : List Value}
    (h : dumpItems allowNan depth (x :: xs) = .ok s) (hx : x.IsJson py) : Opens s := by
  cases xs with
  | nil =>
    unfold dumpItems at h
    exact dumpValue_opens h hx
  | cons y ys =>
    unfold dumpItems at h
    obtain ⟨a, ha, h⟩ := bind_ok h
    obtain ⟨b, -, h⟩ := bind_ok h
    rw [← Except.ok.inj h]
    exact (dumpValue_opens ha hx).append _

theorem dumpEntries_opens {k : Str} {v : Value} {d : Dict}
    (h : dumpEntries allowNan depth ((.str k, v) :: d) = .ok s) : ∃ t, s = ch '"' :: t := by
  cases d with
  | nil =>
    unfold dumpEntries at h
    obtain ⟨a, -, h⟩ := bind_ok h
    obtain ⟨b, -, h⟩ := bind_ok h
    exact ⟨_, (Except.ok.inj h).symm⟩
  | cons e d =>
    unfold dumpEntries at h
    obtain ⟨a, -, h⟩ := bind_ok h
    obtain ⟨b, -, h⟩ := bind_ok h
    obtain ⟨c, -, h⟩ := bind_ok h
    exact ⟨_, (Except.ok.inj h).symm⟩

/-- A new key goes to the end. -/
theorem set_new {d : Dict} {k : Str} {v : Value} (h : .str k ∉ d.map Prod.fst) :
    d.set k v = d ++ [(.str k, v)] := by
  induction d with
  | nil => rfl
  | cons e d ih =>
    rw [List.map_cons, List.mem_cons, not_or] at h
    have hkey : ¬e.1.isKey k = true := fun hk => h.1 (Value.isKey_iff.mp hk).symm
    rw [Dict.set, if_neg hkey, ih h.2]
    rfl

theorem not_mem_before {before d : Dict} {k : Str} {v : Value}
    (h : ((before ++ (.str k, v) :: d).map Prod.fst).Nodup) : .str k ∉ before.map Prod.fst := by
  rw [List.map_append, List.nodup_append] at h
  exact fun hmem => h.2.2 _ hmem _ List.mem_cons_self rfl

theorem scanValue_nil (rest : Str) : scanValue py finiteOnly (fuel + 1) (depth + 1)
    (ch '[' :: ch ']' :: rest) = .ok (.list [], rest) := by
  have hq : ch '[' ≠ ch '"' := by decide
  have hb : ch '[' ≠ ch '\x7b' := by decide
  unfold scanValue
  dsimp only
  rw [if_neg hq, if_neg hb, if_pos rfl, skipSpace_cons rest (by decide)]
  exact if_pos rfl

theorem scanValue_empty (rest : Str) : scanValue py finiteOnly (fuel + 1) (depth + 1)
    (ch '\x7b' :: ch '\x7d' :: rest) = .ok (.dict [], rest) := by
  have hq : ch '\x7b' ≠ ch '"' := by decide
  unfold scanValue
  dsimp only
  rw [if_neg hq, if_pos rfl, skipSpace_cons rest (by decide)]
  exact if_pos rfl

theorem scanAtom_constant (name : Str) (v : Value) (h : (name, v) ∈ constants) :
    scanAtom py finiteOnly (name ++ rest) = readBack finiteOnly false v rest := by
  simp only [constants, List.mem_cons, Prod.mk.injEq, List.not_mem_nil, or_false] at h
  rcases h with ⟨rfl, rfl⟩ | ⟨rfl, rfl⟩ | ⟨rfl, rfl⟩ <;> cases finiteOnly <;> rfl

end

section
variable {py : Interpreter} {finiteOnly allowNan : Bool}

mutual
theorem scanValue_dump : ∀ {depth fuel : Nat} {v : Value} {s rest : Str},
    dumpValue allowNan depth v = .ok s → v.IsJson py → s.length < fuel → Closes rest →
      scanValue py finiteOnly fuel depth (s ++ rest) = readBack finiteOnly v.finite v rest
  | _, 0, _, _, _, _, _, hn, _ => absurd hn (Nat.not_lt_zero _)
  | _, fuel + 1, .none, s, rest, h, _, _, _ => by
    unfold dumpValue at h
    cases h
    exact (scanValue_atom (by decide) (by decide) (by decide)).trans (by
      cases finiteOnly <;> rfl)
  | _, fuel + 1, .bool b, s, rest, h, _, _, _ => by
    unfold dumpValue at h
    cases h
    cases b
    · exact (scanValue_atom (by decide) (by decide) (by decide)).trans (by
        cases finiteOnly <;> rfl)
    · exact (scanValue_atom (by decide) (by decide) (by decide)).trans (by
        cases finiteOnly <;> rfl)
  | depth, fuel + 1, .int i, s, rest, h, _, _, hrest => by
    unfold dumpValue at h
    obtain ⟨n, rfl, hvalue⟩ := intRepr_number py h
    rw [scanValue_number n hrest, hvalue]
    exact (readBack_finite _).symm
  | depth, fuel + 1, .float (.finite r), s, rest, h, hv, _, hrest => by
    unfold dumpValue floatRepr at h
    unfold Value.IsJson at hv
    obtain ⟨⟨n, hr, hfloat⟩, hparse⟩ := hv
    rw [← Except.ok.inj h, hr, scanValue_number n hrest, numberValue_float hfloat, ← hr, hparse]
    exact (readBack_finite _).symm
  | depth, fuel + 1, .float .nan, s, rest, h, _, _, _ => by
    unfold dumpValue floatRepr at h
    dsimp only at h
    split_ifs at h
    cases h
    exact (scanValue_atom (by decide) (by decide) (by decide)).trans
      (scanAtom_constant (str "NaN") _ (by simp [constants]))
  | depth, fuel + 1, .float (.infinity negative), s, rest, h, _, _, _ => by
    unfold dumpValue floatRepr at h
    dsimp only at h
    split_ifs at h with ha hneg
    · cases h
      rw [hneg]
      exact (scanValue_atom (by decide) (by decide) (by decide)).trans
        (scanAtom_constant (str "-Infinity") _ (by simp [constants]))
    · cases h
      rw [Bool.eq_false_iff.mpr hneg]
      exact (scanValue_atom (by decide) (by decide) (by decide)).trans
        (scanAtom_constant (str "Infinity") _ (by simp [constants]))
  | depth, fuel + 1, .str x, s, rest, h, _, hn, _ => by
    unfold dumpValue at h
    have hlen := length_le_quoted x
    rw [← Except.ok.inj h] at hn ⊢
    have hquoted : quoted x ++ rest = ch '"' :: (x.flatMap escapeChar ++ ch '"' :: rest) := by
      simp [quoted]
    rw [hquoted]
    unfold scanValue
    dsimp only
    rw [if_pos rfl, scanString_quoted (by omega)]
    exact (readBack_finite _).symm
  | 0, fuel + 1, .list _, _, _, h, _, _, _ => by
    unfold dumpValue at h
    cases h
  | 0, fuel + 1, .dict _, _, _, h, _, _, _ => by
    unfold dumpValue at h
    cases h
  | depth + 1, fuel + 1, .list [], s, rest, h, _, _, _ => by
    unfold dumpValue dumpItems at h
    cases h
    exact (scanValue_nil rest).trans (readBack_finite _).symm
  | depth + 1, fuel + 1, .list (x :: xs), s, rest, h, hv, hn, _ => by
    unfold dumpValue at h
    unfold Value.IsJson at hv
    obtain ⟨body, hbody, h⟩ := bind_ok h
    have hopens := dumpItems_opens hbody hv.1
    rw [← Except.ok.inj h] at hn ⊢
    simp only [List.length_append, List.length_cons, List.length_nil] at hn
    have hitems : scanItems py finiteOnly fuel depth (body ++ ch ']' :: rest) =
        readBack finiteOnly (finiteItems (x :: xs)) (x :: xs) rest :=
      scanItems_dump hbody hv (by omega)
    rw [Value.finite, ← readBack_map Value.list, ← hitems]
    simpa using scanValue_list (hopens.append (ch ']' :: rest))
  | depth + 1, fuel + 1, .dict [], s, rest, h, _, _, _ => by
    unfold dumpValue dumpEntries at h
    cases h
    exact (scanValue_empty rest).trans (readBack_finite _).symm
  | depth + 1, fuel + 1, .dict ((k, v) :: d), s, rest, h, hv, hn, _ => by
    unfold dumpValue at h
    unfold Value.IsJson at hv
    obtain ⟨body, hbody, h⟩ := bind_ok h
    rw [← Except.ok.inj h] at hn ⊢
    simp only [List.length_append, List.length_cons, List.length_nil] at hn
    have hmembers : scanMembers py finiteOnly fuel depth [] (body ++ ch '\x7d' :: rest) =
        readBack finiteOnly (finiteEntries ((k, v) :: d)) ((k, v) :: d) rest :=
      scanMembers_dump hbody hv.2 hv.1 (by omega)
    obtain ⟨hkeys, ⟨key, rfl⟩, -⟩ := hv
    obtain ⟨t, rfl⟩ := dumpEntries_opens hbody
    rw [Value.finite, ← readBack_map Value.dict, ← hmembers]
    simpa using scanValue_object (t ++ ch '\x7d' :: rest)
  | _, _ + 1, .cyclic, _, _, _, hv, _, _ => hv.elim
  | _, _ + 1, .object _, _, _, _, hv, _, _ => hv.elim

theorem scanItems_dump : ∀ {depth fuel : Nat} {x : Value} {xs : List Value} {s rest : Str},
    dumpItems allowNan depth (x :: xs) = .ok s → ItemsJson py (x :: xs) → s.length + 1 < fuel →
      scanItems py finiteOnly fuel depth (s ++ ch ']' :: rest) =
        readBack finiteOnly (finiteItems (x :: xs)) (x :: xs) rest
  | _, 0, _, _, _, _, _, _, hn => absurd hn (Nat.not_lt_zero _)
  | depth, fuel + 1, x, [], s, rest, h, hv, hn => by
    unfold dumpItems at h
    have hx : scanValue py finiteOnly fuel depth (s ++ ch ']' :: rest) =
        readBack finiteOnly x.finite x (ch ']' :: rest) :=
      scanValue_dump h hv.1 (by omega) (by simp [Closes])
    rw [finiteItems, finiteItems, Bool.and_true]
    exact scanItems_last Blank.nil hx
  | depth, fuel + 1, x, y :: ys, s, rest, h, hv, hn => by
    unfold dumpItems at h
    obtain ⟨a, ha, h⟩ := bind_ok h
    obtain ⟨b, hb, h⟩ := bind_ok h
    rw [← Except.ok.inj h] at hn ⊢
    simp only [List.length_append, List.length_cons] at hn
    have hopens := (dumpItems_opens hb hv.2.1).append (ch ']' :: rest)
    have hx : scanValue py finiteOnly fuel depth (a ++ ch ',' :: (b ++ ch ']' :: rest)) =
        readBack finiteOnly x.finite x (ch ',' :: (b ++ ch ']' :: rest)) :=
      scanValue_dump ha hv.1 (by omega) (by simp [Closes])
    have hys : scanItems py finiteOnly fuel depth (b ++ ch ']' :: rest) =
        readBack finiteOnly (finiteItems (y :: ys)) (y :: ys) rest :=
      scanItems_dump hb hv.2 (by omega)
    rw [finiteItems, List.append_assoc, List.cons_append]
    exact scanItems_next (w := []) Blank.nil hopens hx hys

theorem scanMembers_dump : ∀ {depth fuel : Nat} {e : Value × Value} {d before : Dict}
    {s rest : Str}, dumpEntries allowNan depth (e :: d) = .ok s → EntriesJson py (e :: d) →
      ((before ++ e :: d).map Prod.fst).Nodup → s.length + 1 < fuel →
      scanMembers py finiteOnly fuel depth before (s ++ ch '\x7d' :: rest) =
        readBack finiteOnly (finiteEntries (e :: d)) (before ++ e :: d) rest
  | _, 0, _, _, _, _, _, _, _, _, hn => absurd hn (Nat.not_lt_zero _)
  | depth, fuel + 1, (k, v), [], before, s, rest, h, hv, hkeys, hn => by
    unfold dumpEntries at h
    obtain ⟨⟨key, rfl⟩, hv, -⟩ := hv
    obtain ⟨a, ha, h⟩ := bind_ok h
    obtain ⟨b, hb, h⟩ := bind_ok h
    obtain rfl : key = a := Except.ok.inj ha
    rw [← Except.ok.inj h] at hn ⊢
    have hlen := length_le_quoted key
    simp only [List.length_append, List.length_cons] at hn
    have hx : scanValue py finiteOnly fuel depth (b ++ ch '\x7d' :: rest) =
        readBack finiteOnly v.finite v (ch '\x7d' :: rest) :=
      scanValue_dump hb hv (by omega) (by simp [Closes])
    rw [finiteEntries, finiteEntries, Bool.and_true, List.append_assoc, List.cons_append,
      ← set_new (not_mem_before hkeys)]
    exact scanMembers_last Blank.nil Blank.nil (by omega) (dumpValue_opens hb hv) hx
  | depth, fuel + 1, (k, v), e :: d, before, s, rest, h, hv, hkeys, hn => by
    unfold dumpEntries at h
    obtain ⟨⟨key, rfl⟩, hv, hd⟩ := hv
    obtain ⟨a, ha, h⟩ := bind_ok h
    obtain ⟨b, hb, h⟩ := bind_ok h
    obtain ⟨c, hc, h⟩ := bind_ok h
    obtain rfl : key = a := Except.ok.inj ha
    rw [← Except.ok.inj h] at hn ⊢
    have hlen := length_le_quoted key
    simp only [List.length_append, List.length_cons] at hn
    have hset := set_new (v := v) (not_mem_before hkeys)
    have hx : scanValue py finiteOnly fuel depth (b ++ ch ',' :: (c ++ ch '\x7d' :: rest)) =
        readBack finiteOnly v.finite v (ch ',' :: (c ++ ch '\x7d' :: rest)) :=
      scanValue_dump hb hv (by omega) (by simp [Closes])
    have hnext : scanMembers py finiteOnly fuel depth (before ++ [(.str key, v)])
        (c ++ ch '\x7d' :: rest) = readBack finiteOnly (finiteEntries (e :: d))
          (before ++ [(.str key, v)] ++ e :: d) rest :=
      scanMembers_dump hc hd (by simpa using hkeys) (by omega)
    rw [List.append_assoc, List.singleton_append, ← hset] at hnext
    have hopens : Opens (c ++ ch '\x7d' :: rest) := by
      obtain ⟨k', w⟩ := e
      obtain ⟨⟨name, rfl⟩, -⟩ := hd
      obtain ⟨t, rfl⟩ := dumpEntries_opens hc
      exact ⟨_, _, rfl, by decide, by decide, by decide⟩
    rw [finiteEntries]
    simpa only [List.append_assoc, List.cons_append, List.nil_append] using
      scanMembers_next Blank.nil Blank.nil (by omega) (dumpValue_opens hb hv) hopens hx hnext
end

/-! ### Control characters -/

theorem printable_of_all {s : Str} (h : s.all (fun c => 32 ≤ c.val) = true) :
    ∀ x ∈ s, 32 ≤ x.val := by simpa using h

theorem printable_escapeChar (c : CodePoint) : ∀ x ∈ escapeChar c, 32 ≤ x.val := by
  have hhex : ∀ n < 16, 32 ≤ (hexDigit n).val := by decide
  unfold escapeChar
  split_ifs with h1 h2 h3 h4 h5 h6 h7 h8
  iterate 7 exact printable_of_all (by decide)
  · intro x hx
    simp only [List.mem_cons, List.not_mem_nil, or_false] at hx
    rcases hx with rfl | rfl | rfl | rfl | rfl | rfl
    iterate 4 decide
    · exact hhex _ (by omega)
    · exact hhex _ (by omega)
  · intro x hx
    rw [List.mem_singleton.mp hx]
    exact Nat.le_of_not_lt h8

theorem printable_quoted (k : Str) : ∀ x ∈ quoted k, 32 ≤ x.val := by
  intro x hx
  rw [quoted, List.mem_append, List.mem_cons, List.mem_flatMap, List.mem_singleton] at hx
  rcases hx with (rfl | ⟨c, -, hc⟩) | rfl
  · decide
  · exact printable_escapeChar c x hc
  · decide

theorem printable_number (n : Number) : ∀ x ∈ n.text dialect, 32 ≤ x.val :=
  forall_number_text (fun c hc => by have := isDigit_iff.mp hc; omega) (printable_of_all (by decide)) n

theorem printable_append {a b : Str} (ha : ∀ x ∈ a, 32 ≤ x.val) (hb : ∀ x ∈ b, 32 ≤ x.val) :
    ∀ x ∈ a ++ b, 32 ≤ x.val := List.forall_mem_append.mpr ⟨ha, hb⟩

theorem printable_cons {c : CodePoint} {a : Str} (hc : 32 ≤ c.val) (ha : ∀ x ∈ a, 32 ≤ x.val) :
    ∀ x ∈ c :: a, 32 ≤ x.val := List.forall_mem_cons.mpr ⟨hc, ha⟩

mutual
theorem dumpValue_printable : ∀ {depth : Nat} {v : Value} {s : Str},
    dumpValue allowNan depth v = .ok s → v.IsJson py → ∀ x ∈ s, 32 ≤ x.val
  | _, .none, s, h, _ => by
    unfold dumpValue at h
    exact Except.ok.inj h ▸ printable_of_all (by decide)
  | _, .bool b, s, h, _ => by
    unfold dumpValue at h
    cases b <;> exact Except.ok.inj h ▸ printable_of_all (by decide)
  | _, .int i, s, h, _ => by
    unfold dumpValue at h
    obtain ⟨n, rfl, -⟩ := intRepr_number py h
    exact printable_number n
  | _, .float (.finite r), s, h, hv => by
    unfold dumpValue floatRepr at h
    unfold Value.IsJson at hv
    obtain ⟨⟨n, hr, -⟩, -⟩ := hv
    rw [← Except.ok.inj h, hr]
    exact printable_number n
  | _, .float .nan, s, h, _ => by
    unfold dumpValue floatRepr at h
    dsimp only at h
    split_ifs at h
    exact Except.ok.inj h ▸ printable_of_all (by decide)
  | _, .float (.infinity negative), s, h, _ => by
    unfold dumpValue floatRepr at h
    dsimp only at h
    split_ifs at h
    · exact Except.ok.inj h ▸ printable_of_all (by decide)
    · exact Except.ok.inj h ▸ printable_of_all (by decide)
  | _, .str x, s, h, _ => by
    unfold dumpValue at h
    exact Except.ok.inj h ▸ printable_quoted x
  | 0, .list _, _, h, _ => by
    unfold dumpValue at h
    cases h
  | 0, .dict _, _, h, _ => by
    unfold dumpValue at h
    cases h
  | depth + 1, .list xs, s, h, hv => by
    unfold dumpValue at h
    obtain ⟨body, hbody, h⟩ := bind_ok h
    rw [← Except.ok.inj h]
    exact printable_append (printable_cons (by decide) (dumpItems_printable hbody hv))
      (printable_of_all (by decide))
  | depth + 1, .dict d, s, h, hv => by
    unfold dumpValue at h
    unfold Value.IsJson at hv
    obtain ⟨body, hbody, h⟩ := bind_ok h
    rw [← Except.ok.inj h]
    exact printable_append (printable_cons (by decide) (dumpEntries_printable hbody hv.2))
      (printable_of_all (by decide))
  | _, .cyclic, _, _, hv => hv.elim
  | _, .object _, _, _, hv => hv.elim

theorem dumpItems_printable : ∀ {depth : Nat} {xs : List Value} {s : Str},
    dumpItems allowNan depth xs = .ok s → ItemsJson py xs → ∀ x ∈ s, 32 ≤ x.val
  | _, [], s, h, _ => by
    unfold dumpItems at h
    exact Except.ok.inj h ▸ by simp
  | depth, [x], s, h, hv => by
    unfold dumpItems at h
    exact dumpValue_printable h hv.1
  | depth, x :: y :: ys, s, h, hv => by
    unfold dumpItems at h
    obtain ⟨a, ha, h⟩ := bind_ok h
    obtain ⟨b, hb, h⟩ := bind_ok h
    rw [← Except.ok.inj h]
    exact printable_append (dumpValue_printable ha hv.1)
      (printable_cons (by decide) (dumpItems_printable hb hv.2))

theorem dumpEntries_printable : ∀ {depth : Nat} {d : Dict} {s : Str},
    dumpEntries allowNan depth d = .ok s → EntriesJson py d → ∀ x ∈ s, 32 ≤ x.val
  | _, [], s, h, _ => by
    unfold dumpEntries at h
    exact Except.ok.inj h ▸ by simp
  | depth, [(k, v)], s, h, hv => by
    unfold dumpEntries at h
    obtain ⟨a, -, h⟩ := bind_ok h
    obtain ⟨b, hb, h⟩ := bind_ok h
    rw [← Except.ok.inj h]
    exact printable_append (printable_quoted a)
      (printable_cons (by decide) (dumpValue_printable hb hv.2.1))
  | depth, (k, v) :: e :: d, s, h, hv => by
    unfold dumpEntries at h
    obtain ⟨a, -, h⟩ := bind_ok h
    obtain ⟨b, hb, h⟩ := bind_ok h
    obtain ⟨c, hc, h⟩ := bind_ok h
    rw [← Except.ok.inj h]
    exact printable_append (printable_append (printable_quoted a)
      (printable_cons (by decide) (dumpValue_printable hb hv.2.1)))
      (printable_cons (by decide) (dumpEntries_printable hc hv.2.2))
end

mutual
/-- With `allow_nan=False` there is no NaN and no infinity in what has been written. -/
theorem dumpValue_finite : ∀ {depth : Nat} {v : Value} {s : Str},
    dumpValue false depth v = .ok s → v.finite = true
  | _, .none, _, _ | _, .bool _, _, _ | _, .int _, _, _ | _, .str _, _, _ | _, .cyclic, _, _
  | _, .object _, _, _ | _, .float (.finite _), _, _ => by
    unfold Value.finite
    rfl
  | _, .float .nan, _, h | _, .float (.infinity _), _, h => by
    unfold dumpValue floatRepr at h
    cases h
  | 0, .list _, _, h | 0, .dict _, _, h => by
    unfold dumpValue at h
    cases h
  | depth + 1, .list xs, s, h => by
    unfold dumpValue at h
    obtain ⟨body, hbody, -⟩ := bind_ok h
    unfold Value.finite
    exact dumpItems_finite hbody
  | depth + 1, .dict d, s, h => by
    unfold dumpValue at h
    obtain ⟨body, hbody, -⟩ := bind_ok h
    unfold Value.finite
    exact dumpEntries_finite hbody

theorem dumpItems_finite : ∀ {depth : Nat} {xs : List Value} {s : Str},
    dumpItems false depth xs = .ok s → finiteItems xs = true
  | _, [], _, _ => rfl
  | depth, [x], s, h => by
    unfold dumpItems at h
    rw [finiteItems, dumpValue_finite h]
    rfl
  | depth, x :: y :: ys, s, h => by
    unfold dumpItems at h
    obtain ⟨a, ha, h⟩ := bind_ok h
    obtain ⟨b, hb, -⟩ := bind_ok h
    rw [finiteItems, dumpValue_finite ha, dumpItems_finite hb]
    rfl

theorem dumpEntries_finite : ∀ {depth : Nat} {d : Dict} {s : Str},
    dumpEntries false depth d = .ok s → finiteEntries d = true
  | _, [], _, _ => rfl
  | depth, [(k, v)], s, h => by
    unfold dumpEntries at h
    obtain ⟨a, -, h⟩ := bind_ok h
    obtain ⟨b, hb, -⟩ := bind_ok h
    rw [finiteEntries, dumpValue_finite hb]
    rfl
  | depth, (k, v) :: e :: d, s, h => by
    unfold dumpEntries at h
    obtain ⟨a, -, h⟩ := bind_ok h
    obtain ⟨b, hb, h⟩ := bind_ok h
    obtain ⟨c, hc, -⟩ := bind_ok h
    rw [finiteEntries, dumpValue_finite hb, dumpEntries_finite hc]
    rfl
end

/-! ### The bytes -/

theorem dumps_text {v : Value} {data : Bytes} (h : dumps py allowNan v = .ok data) :
    ∃ s, dumpValue allowNan py.recursionLimit v = .ok s ∧ encodeUtf8 s = some data := by
  obtain ⟨s, hs, h⟩ := bind_ok h
  refine ⟨s, hs, ?_⟩
  split at h
  next b hb => exact Except.ok.inj h ▸ hb
  next => cases h

/-- No control character is written, a newline least of all. -/
theorem dumps_printable {v : Value} {data : Bytes} (hv : v.IsJson py)
    (h : dumps py allowNan v = .ok data) : ∀ b ∈ data, 32 ≤ b.toNat := by
  obtain ⟨s, hs, hencode⟩ := dumps_text h
  intro b hb
  rw [← utf8_of_encode hencode] at hb
  rcases mem_utf8 hb with ⟨c, hc, hascii, rfl⟩ | hhigh
  · rw [byte_val (by omega)]
    exact dumpValue_printable hs hv c hc
  · omega

theorem dumps_ne_nil {v : Value} {data : Bytes} (hv : v.IsJson py)
    (h : dumps py allowNan v = .ok data) : data ≠ [] := by
  obtain ⟨s, hs, hencode⟩ := dumps_text h
  rintro rfl
  obtain ⟨c, t, rfl, -⟩ := dumpValue_opens hs hv
  cases encodeUtf8_inj hencode (by decide : encodeUtf8 [] = some [])

theorem loadsText_dump {v : Value} {s ws : Str} (hv : v.IsJson py)
    (hs : dumpValue allowNan py.recursionLimit v = .ok s) (hws : ws = [] ∨ ws = [ch '\n']) :
    loadsText py finiteOnly (s ++ ws) =
      if finiteOnly && !v.finite then .error .constant else .ok v := by
  have hopens : Opens (s ++ ws) := (dumpValue_opens hs hv).append ws
  have hcloses : Closes ws := by rcases hws with rfl | rfl <;> simp [Closes]
  have hspace : skipSpace ws = [] := by rcases hws with rfl | rfl <;> decide
  have hscan : scanValue py finiteOnly ((s ++ ws).length + 1) py.recursionLimit (s ++ ws) =
      readBack finiteOnly v.finite v ws :=
    scanValue_dump hs hv (by rw [List.length_append]; omega) hcloses
  have hbom : (s ++ ws).head? ≠ some (.ofNat 0xFEFF) := by
    obtain ⟨c, t, ht, -, -, hc⟩ := hopens
    rw [ht, List.head?_cons, ne_eq, Option.some.injEq]
    rintro rfl
    revert hc
    decide
  rw [loadsText, if_neg hbom, hopens.skipSpace, hscan, readBack]
  split_ifs
  · rfl
  · exact if_pos hspace

/-- `json.loads(json.dumps(v))` is `v`; the hook raises if a NaN or an infinity is in it. -/
theorem loads_dumps {v : Value} {data : Bytes} (hv : v.IsJson py)
    (h : dumps py allowNan v = .ok data) :
    loads py finiteOnly data = if finiteOnly && !v.finite then .error .constant else .ok v := by
  obtain ⟨s, hs, hencode⟩ := dumps_text h
  rw [loads, decode_of_encode hencode, ← loadsText_dump hv hs (.inl rfl), List.append_nil]

/-- A newline after the text changes nothing. -/
theorem loads_dumps_line {v : Value} {data : Bytes} (hv : v.IsJson py)
    (h : dumps py allowNan v = .ok data) : loads py finiteOnly (data ++ [10]) =
      if finiteOnly && !v.finite then .error .constant else .ok v := by
  obtain ⟨s, hs, hencode⟩ := dumps_text h
  have hline : encodeUtf8 (s ++ [ch '\n']) = some (data ++ [10]) :=
    encodeUtf8_append hencode (by decide)
  rw [loads, decode_of_encode hline, ← loadsText_dump hv hs (.inr rfl)]

end

end Python
