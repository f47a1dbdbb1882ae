import MsysSdk.I18n.Locale
import MsysSdk.Text.Bytes

/-! `msys_i18n_normalize_locale`. What it reads of the input ends at the first white space; from
there on it takes the same locale tags to the same canonical texts as Python does. -/

namespace Msys.I18n.C
open Libc LocaleTag

inductive Result
  | ok
  | notFound
  | bufferTooSmall
  | invalidArgument
  | invalidLocale
  | invalidTemplate
deriving DecidableEq

def localeCapacity : Nat := 64

def asciiEqualFold : Bytes → Bytes → Bool
  | l :: left, r :: right => tolower l = tolower r && asciiEqualFold left right
  | left, right => left.isEmpty && right.isEmpty

/-- The loop that fills `raw`; `none` when it would overflow. -/
def fillRaw (length : Nat) : Bytes → Option Bytes
  | [] => some []
  | b :: input =>
    if b = chr '.' || b = chr '@' || isspace b then some []
    else if localeCapacity ≤ length + 1 then none
    else (fillRaw (length + 1) input).map ((if b = chr '_' then chr '-' else b) :: ·)

/-- One part of `raw`, rewritten in place, and `saw_script` after it. -/
def normalizePart (part : Nat) (sawScript : Bool) (s : Bytes) : Option (Bool × Bytes) :=
  if s = [] then none
  else if part = 0 then
    if s.length < 2 || 8 < s.length then none
    else if s.all isalpha then some (sawScript, s.map tolower)
    else none
  else if part = 1 && s.length = 4 then
    if s.all isalpha then some (true, (s.take 1).map toupper ++ (s.drop 1).map tolower)
    else if (s.take 1).all isdigit && s.all isalnum then some (sawScript, s.map tolower)
    else none
  else if part = 1 + sawScript.toNat && s.length = 2 then
    if s.all isalpha then some (sawScript, s.map toupper) else none
  else if part = 1 + sawScript.toNat && s.length = 3 then
    if s.all isdigit then some (sawScript, s) else none
  else if !((5 ≤ s.length && s.length ≤ 8) || (s.length = 4 && (s.take 1).all isdigit)) then none
  else if s.all isalnum then some (sawScript, s.map tolower)
  else none

/-- The loop over the parts of `raw`. -/
def normalizeParts : Nat → Bool → List Bytes → Option (List Bytes)
  | _, _, [] => some []
  | part, sawScript, s :: rest => do
    let (sawScript, s) ← normalizePart part sawScript s
    return s :: (← normalizeParts (part + 1) sawScript rest)

/-- The result, and the memory at `output` afterwards. -/
def normalizeLocale (input : Bytes) (output : Buffer) (capacity : Nat) : Result × Buffer :=
  if capacity = 0 then (.invalidArgument, output)
  else
    match fillRaw 0 (input.dropWhile isspace) with
    | none => (.invalidLocale, output)
    | some raw =>
      if raw = [] || asciiEqualFold raw (text "C") || asciiEqualFold raw (text "POSIX") then
        (.invalidLocale, output)
      else if capacity < raw.length + 1 then (.bufferTooSmall, output)
      else
        match normalizeParts 0 false (raw.splitOn (chr '-')) with
        | none => (.invalidLocale, output)
        | some parts => (.ok, output.copy 0 ([chr '-'].intercalate parts ++ [0]))

/-- What the callers' buffer of `MSYS_I18N_LOCALE_CAPACITY` bytes then holds. -/
def normalized (canonical : Buffer) (locale : Bytes) : Option Bytes :=
  let (result, canonical) := normalizeLocale locale canonical localeCapacity
  if result = .ok then some (canonical.string localeCapacity) else none

/-! ### Bytes of ASCII characters -/

theorem isalpha_chr {c : Char} (h : c.toNat < 0x80) : isalpha (chr c) = c.isAlpha := by
  rw [isalpha, toNat_chr (by omega), Ascii.isAlpha_toNat]

theorem isdigit_chr {c : Char} (h : c.toNat < 0x80) : isdigit (chr c) = c.isDigit := by
  rw [isdigit, toNat_chr (by omega), Ascii.isDigit_toNat]

theorem isalnum_chr {c : Char} (h : c.toNat < 0x80) : isalnum (chr c) = c.isAlphanum := by
  rw [isalnum, toNat_chr (by omega), Ascii.isAlnum_toNat]

theorem tolower_chr {c : Char} (h : c.toNat < 0x80) : tolower (chr c) = chr c.toLower := by
  rw [tolower, toNat_chr (by omega), Ascii.toLower, Ascii.isUpper_toNat, chr]
  by_cases hu : c.isUpper = true
  · have hbound : c.toNat ≤ 90 := by
      rw [← Ascii.isUpper_toNat] at hu
      simp [Ascii.isUpper] at hu
      omega
    have hvalid : (c.toNat + 32).isValidChar := .inl (by omega)
    rw [if_pos hu, Char.toLower_eq_of_isUpper hu, Char.toNat_ofNat, if_pos hvalid]
  · rw [if_neg hu, Char.toLower_eq_of_not_isUpper hu]

theorem toupper_chr {c : Char} (h : c.toNat < 0x80) : toupper (chr c) = chr c.toUpper := by
  rw [toupper, toNat_chr (by omega), Ascii.toUpper, Ascii.isLower_toNat, chr]
  by_cases hl : c.isLower = true
  · have hvalid : (c.toNat - 32).isValidChar := .inl (by omega)
    rw [if_pos hl, Char.toUpper_eq_of_isLower hl, Char.toNat_ofNat, if_pos hvalid]
  · rw [if_neg hl, Char.toUpper_eq_of_not_isLower hl]

/-! ### Parts -/

theorem all_isalpha {s : Chars} (hs : IsAscii s) :
    (s.map chr).all isalpha = true ↔ ∀ c ∈ s, c.isAlpha = true := by
  rw [Encoded.all fun c hc => isalpha_chr (hs c hc), List.all_eq_true]

theorem all_isdigit {s : Chars} (hs : IsAscii s) :
    (s.map chr).all isdigit = true ↔ ∀ c ∈ s, c.isDigit = true := by
  rw [Encoded.all fun c hc => isdigit_chr (hs c hc), List.all_eq_true]

theorem all_isalnum {s : Chars} (hs : IsAscii s) :
    (s.map chr).all isalnum = true ↔ ∀ c ∈ s, c.isAlphanum = true := by
  rw [Encoded.all fun c hc => isalnum_chr (hs c hc), List.all_eq_true]

theorem map_tolower {s : Chars} (hs : IsAscii s) :
    (s.map chr).map tolower = (s.map Char.toLower).map chr := by
  rw [List.map_map, List.map_map]
  exact List.map_congr_left fun c hc => tolower_chr (hs c hc)

theorem map_toupper {s : Chars} (hs : IsAscii s) :
    (s.map chr).map toupper = (s.map Char.toUpper).map chr := by
  rw [List.map_map, List.map_map]
  exact List.map_congr_left fun c hc => toupper_chr (hs c hc)

theorem first_isdigit {s : Chars} (hs : IsAscii s) (hne : s ≠ []) :
    ((s.map chr).take 1).all isdigit = true ↔ startsWithDigit s := by
  rw [← List.map_take, all_isdigit fun c hc => hs c (List.mem_of_mem_take hc), startsWithDigit]
  cases s with
  | nil => exact absurd rfl hne
  | cons c s => simp

theorem ite_some_iff {α : Type} {b : Bool} {p : Prop} (h : b = true ↔ p) (v x : α) :
    (if b then some v else none) = some x ↔ p ∧ x = v := by
  by_cases hb : b = true
  · rw [if_pos hb, Option.some.injEq, and_iff_right (h.mp hb), eq_comm]
  · rw [if_neg hb, ← h]
    simp [hb]

theorem normalizePart_language {s : Chars} (hs : IsAscii s) (saw : Bool) (x : Bool × Bytes) :
    normalizePart 0 saw (s.map chr) = some x ↔
      IsLanguage s ∧ x = (saw, (s.map Char.toLower).map chr) := by
  by_cases hnil : s = []
  · subst hnil
    simp [normalizePart, IsLanguage]
  rw [normalizePart, if_neg (by simpa using hnil), if_pos rfl, List.length_map, map_tolower hs]
  by_cases hlen : 2 ≤ s.length ∧ s.length ≤ 8
  · rw [if_neg (by simp; omega), ite_some_iff (all_isalpha hs), IsLanguage, and_iff_right hlen.1,
      and_iff_right hlen.2]
  · rw [if_pos (by simp; omega)]
    refine iff_of_false (by simp) fun h => hlen ⟨h.1.1, h.1.2.1⟩

theorem normalizePart_script {s : Chars} (hs : IsScript s) (hascii : IsAscii s) (saw : Bool) :
    normalizePart 1 saw (s.map chr) = some (true, (titled s).map chr) := by
  obtain ⟨hlen, halpha⟩ := hs
  obtain ⟨d, s, rfl⟩ := List.exists_cons_of_length_pos (show 0 < s.length by omega)
  obtain ⟨hd, hs⟩ := List.forall_mem_cons.mp hascii
  rw [normalizePart, if_neg (by simp), if_neg (by decide), List.length_map, hlen,
    if_pos (by decide), if_pos ((all_isalpha hascii).mpr halpha)]
  simp only [List.map_cons, List.take_succ_cons, List.take_zero, List.drop_succ_cons,
    List.drop_zero, titled, map_tolower hs, toupper_chr hd]
  rfl

theorem normalizePart_region {s : Chars} (h : IsRegion s) (hs : IsAscii s) (saw : Bool) :
    normalizePart (1 + saw.toNat) saw (s.map chr) = some (saw, (s.map Char.toUpper).map chr) := by
  have hne : ¬s.map chr = [] := by
    rw [List.map_eq_nil_iff]
    rintro rfl
    rcases h with ⟨h, -⟩ | ⟨h, -⟩ <;> cases h
  rw [normalizePart, if_neg hne, if_neg (by omega), List.length_map]
  rcases h with ⟨hlen, halpha⟩ | ⟨hlen, hdigit⟩
  · rw [hlen, if_neg (by simp), if_pos (by simp), if_pos ((all_isalpha hs).mpr halpha),
      map_toupper hs]
  · rw [hlen, if_neg (by simp), if_neg (by simp), if_pos (by simp),
      if_pos ((all_isdigit hs).mpr hdigit), List.map_congr_left fun c hc =>
        isDigit_toUpper (hdigit c hc), List.map_id']

theorem normalizePart_variant {s : Chars} (hs : IsAscii s) {part : Nat} {saw : Bool}
    (hpart : part ≠ 0) (hscript : part = 1 → ¬IsScript s)
    (hregion : part = 1 + saw.toNat → ¬IsRegion s) (x : Bool × Bytes) :
    normalizePart part saw (s.map chr) = some x ↔
      IsVariant s ∧ x = (saw, (s.map Char.toLower).map chr) := by
  by_cases hnil : s = []
  · subst hnil
    simp [normalizePart, IsVariant]
  have hfirst := first_isdigit hs hnil
  rw [normalizePart, if_neg (by simpa using hnil), if_neg hpart, List.length_map, map_tolower hs]
  by_cases h4 : part = 1 ∧ s.length = 4
  · have hnot : ¬(s.map chr).all isalpha = true := fun h =>
      hscript h4.1 ⟨h4.2, (all_isalpha hs).mp h⟩
    rw [if_pos (by simpa using h4), if_neg hnot, ite_some_iff (p := IsVariant s)]
    rw [Bool.and_eq_true, hfirst, all_isalnum hs, IsVariant]
    have := h4.2
    constructor
    · exact fun h => ⟨h.2, .inr ⟨this, h.1⟩⟩
    · rintro ⟨halnum, hlen | ⟨-, hdigit⟩⟩
      · omega
      · exact ⟨hdigit, halnum⟩
  rw [if_neg (by simpa using h4)]
  have hshort : s.length = 2 ∨ s.length = 3 → ¬IsVariant s := by
    rintro hlen ⟨-, h | ⟨h, -⟩⟩ <;> omega
  by_cases h2 : part = 1 + saw.toNat ∧ s.length = 2
  · have hnot : ¬(s.map chr).all isalpha = true := fun h =>
      hregion h2.1 (.inl ⟨h2.2, (all_isalpha hs).mp h⟩)
    rw [if_pos (by simpa using h2), if_neg hnot]
    exact iff_of_false (by simp) fun h => hshort (.inl h2.2) h.1
  rw [if_neg (by simpa using h2)]
  by_cases h3 : part = 1 + saw.toNat ∧ s.length = 3
  · have hnot : ¬(s.map chr).all isdigit = true := fun h =>
      hregion h3.1 (.inr ⟨h3.2, (all_isdigit hs).mp h⟩)
    rw [if_pos (by simpa using h3), if_neg hnot]
    exact iff_of_false (by simp) fun h => hshort (.inr h3.2) h.1
  rw [if_neg (by simpa using h3)]
  have hshape : (!((5 ≤ s.length && s.length ≤ 8) ||
      (s.length = 4 && ((s.map chr).take 1).all isdigit))) = false ↔
      (5 ≤ s.length ∧ s.length ≤ 8) ∨ (s.length = 4 ∧ startsWithDigit s) := by
    rw [Bool.not_eq_false', Bool.or_eq_true, Bool.and_eq_true, Bool.and_eq_true,
      decide_eq_true_eq, decide_eq_true_eq, decide_eq_true_eq, hfirst]
  by_cases h : (5 ≤ s.length ∧ s.length ≤ 8) ∨ (s.length = 4 ∧ startsWithDigit s)
  · rw [hshape.mpr h, if_neg Bool.false_ne_true, ite_some_iff (all_isalnum hs), IsVariant,
      and_iff_left h]
  · rw [if_pos (Bool.of_not_eq_false (mt hshape.mp h))]
    exact iff_of_false (by simp) fun hv => h hv.1.2

theorem normalizeParts_cons {part : Nat} {saw : Bool} {s : Bytes} {rest : List Bytes}
    {out : List Bytes} : normalizeParts part saw (s :: rest) = some out ↔
      ∃ x more, normalizePart part saw s = some x ∧
        normalizeParts (part + 1) x.1 rest = some more ∧ out = x.2 :: more := by
  rw [normalizeParts]
  constructor
  · intro h
    obtain ⟨x, hx, h⟩ := Option.bind_eq_some_iff.mp h
    obtain ⟨more, hmore, h⟩ := Option.bind_eq_some_iff.mp h
    cases h
    exact ⟨x, more, hx, hmore, rfl⟩
  · rintro ⟨x, more, hx, hmore, rfl⟩
    simp only [hx, hmore, Option.bind_eq_bind, Option.bind_some]
    rfl

/-- Behind the place of a region there are only variants. -/
theorem normalizeParts_variants {vs : List Chars} (h : ∀ s ∈ vs, IsAscii s) {part : Nat}
    {saw : Bool} (hpart : 2 + saw.toNat ≤ part) (out : List Bytes) :
    normalizeParts part saw (vs.map (List.map chr)) = some out ↔
      (∀ s ∈ vs, IsVariant s) ∧ out = (vs.map (List.map Char.toLower)).map (List.map chr) := by
  induction vs generalizing part out with
  | nil => simp [normalizeParts, eq_comm]
  | cons s vs ih =>
    obtain ⟨hs, hvs⟩ := List.forall_mem_cons.mp h
    rw [List.map_cons, normalizeParts_cons, List.forall_mem_cons]
    have hstep : ∀ x, normalizePart part saw (s.map chr) = some x ↔ _ :=
      normalizePart_variant hs (by omega) (fun _ => by omega) fun _ => by omega
    simp only [hstep]
    constructor
    · rintro ⟨x, more, ⟨hv, rfl⟩, hmore, rfl⟩
      obtain ⟨hall, rfl⟩ := (ih hvs (by omega) more).mp hmore
      exact ⟨⟨hv, hall⟩, rfl⟩
    · rintro ⟨⟨hv, hall⟩, rfl⟩
      exact ⟨_, _, ⟨hv, rfl⟩, (ih hvs (by omega) _).mpr ⟨hall, rfl⟩, rfl⟩

/-- From the place of a region on. -/
theorem normalizeParts_region {ps : List Chars} (h : ∀ s ∈ ps, IsAscii s) {saw : Bool}
    (hscript : saw = false → ∀ s ∈ ps.head?, ¬IsScript s) (out : List Bytes) :
    normalizeParts (1 + saw.toNat) saw (ps.map (List.map chr)) = some out ↔
      ∃ (r : Option Chars) (vs : List Chars), ps = r.toList ++ vs ∧ (∀ s ∈ r, IsRegion s) ∧
        (∀ s ∈ vs, IsVariant s) ∧
        out = ((r.map (List.map Char.toUpper)).toList ++
          vs.map (List.map Char.toLower)).map (List.map chr) := by
  cases ps with
  | nil =>
    constructor
    · rintro ⟨rfl⟩
      exact ⟨none, [], rfl, by simp, by simp, rfl⟩
    · rintro ⟨r, vs, hps, -, -, rfl⟩
      obtain ⟨hr, rfl⟩ := List.append_eq_nil_iff.mp hps.symm
      obtain rfl : r = none := by simpa using hr
      rfl
  | cons s ps =>
    obtain ⟨hs, hps⟩ := List.forall_mem_cons.mp h
    rw [List.map_cons, normalizeParts_cons]
    by_cases hregion : IsRegion s
    · simp only [normalizePart_region hregion hs]
      constructor
      · rintro ⟨x, more, ⟨rfl⟩, hmore, rfl⟩
        obtain ⟨hall, rfl⟩ := (normalizeParts_variants hps (by dsimp only; omega) more).mp hmore
        exact ⟨some s, ps, rfl, by simpa using hregion, hall, rfl⟩
      · rintro ⟨r, vs, hsplit, hr, hvs, rfl⟩
        obtain ⟨rfl, rfl⟩ := optional_inj (a := some s) (p := IsRegion) (by simpa using hregion) hr
          (by simp) (fun _ => not_region_of_head hvs) (show [s] ++ ps = _ from hsplit)
        exact ⟨_, _, rfl, (normalizeParts_variants hps (by dsimp only; omega) _).mpr ⟨hvs, rfl⟩, rfl⟩
    · have hstep : ∀ x, normalizePart (1 + saw.toNat) saw (s.map chr) = some x ↔ _ :=
        normalizePart_variant hs (by omega) (fun hpart => hscript (by cases saw <;> simp_all) s rfl)
          fun _ => hregion
      simp only [hstep]
      constructor
      · rintro ⟨x, more, ⟨hv, rfl⟩, hmore, rfl⟩
        obtain ⟨hall, rfl⟩ := (normalizeParts_variants hps (by dsimp only; omega) more).mp hmore
        exact ⟨none, s :: ps, rfl, by simp, List.forall_mem_cons.mpr ⟨hv, hall⟩, rfl⟩
      · rintro ⟨r, vs, hsplit, hr, hvs, rfl⟩
        obtain ⟨rfl, rfl⟩ := optional_inj (a := none) (p := IsRegion) (by simp) hr
          (fun _ x hx => by
            obtain rfl : s = x := by simpa using hx
            exact hregion)
          (fun _ => not_region_of_head hvs) (show [] ++ s :: ps = _ from hsplit)
        obtain ⟨hv, hall⟩ := List.forall_mem_cons.mp hvs
        exact ⟨_, _, ⟨hv, rfl⟩, (normalizeParts_variants hps (by dsimp only; omega) _).mpr ⟨hall, rfl⟩, rfl⟩

theorem normalizeParts_ascii {ps : List Chars} (h : ∀ s ∈ ps, IsAscii s) (hne : ps ≠ [])
    (out : List Bytes) : normalizeParts 0 false (ps.map (List.map chr)) = some out ↔
      ∃ t : LocaleTag, ps = t.parts ∧ out = t.canonical.parts.map (List.map chr) := by
  obtain ⟨l, ps, rfl⟩ := List.exists_cons_of_ne_nil hne
  obtain ⟨hl, hps⟩ := List.forall_mem_cons.mp h
  rw [List.map_cons, normalizeParts_cons]
  simp only [normalizePart_language hl]
  -- the script, if there is one, moves the place of the region
  by_cases hscript : ∃ s rest, ps = s :: rest ∧ IsScript s
  · obtain ⟨s, rest, rfl, hs⟩ := hscript
    obtain ⟨hsascii, hrest⟩ := List.forall_mem_cons.mp hps
    have hregion := fun more => @normalizeParts_region rest hrest true (by simp) more
    have hstep := normalizePart_script hs hsascii false
    constructor
    · rintro ⟨x, more, ⟨hlanguage, rfl⟩, hmore, rfl⟩
      obtain ⟨y, tail, hy, htail, rfl⟩ := normalizeParts_cons.mp hmore
      obtain rfl := Option.some.inj (hstep.symm.trans hy)
      obtain ⟨r, vs, rfl, hr, hvs, rfl⟩ := (hregion tail).mp htail
      exact ⟨⟨l, some s, r, vs, hlanguage, by simpa using hs, hr, hvs⟩, rfl,
        by simp [LocaleTag.parts, canonical]⟩
    · rintro ⟨t, ht, rfl⟩
      obtain ⟨rfl, hparts⟩ := List.cons.inj ht
      obtain ⟨hsome, rfl⟩ := optional_inj (a := some s) (by simpa using hs) t.isScript (by simp)
        (fun _ => not_script_of_head t.isRegion t.isVariant) (show [s] ++ rest = _ from hparts)
      refine ⟨_, _, ⟨t.isLanguage, rfl⟩, normalizeParts_cons.mpr ⟨_, _, hstep, (hregion _).mpr
        ⟨t.region, t.variants, rfl, t.isRegion, t.isVariant, rfl⟩, rfl⟩, ?_⟩
      simp [LocaleTag.parts, canonical, ← hsome]
  · have hregion := fun more => @normalizeParts_region ps hps false (fun _ s hs hscr =>
      hscript ⟨s, ps.tail, (List.cons_head?_tail hs).symm, hscr⟩) more
    constructor
    · rintro ⟨x, more, ⟨hlanguage, rfl⟩, hmore, rfl⟩
      obtain ⟨r, vs, rfl, hr, hvs, rfl⟩ := (hregion more).mp hmore
      exact ⟨⟨l, none, r, vs, hlanguage, by simp, hr, hvs⟩, rfl,
        by simp [LocaleTag.parts, canonical]⟩
    · rintro ⟨t, ht, rfl⟩
      obtain ⟨rfl, hparts⟩ := List.cons.inj ht
      have hnone : t.script = none := by
        by_contra hsome
        obtain ⟨s, hs⟩ := Option.ne_none_iff_exists'.mp hsome
        exact hscript ⟨s, _, by rw [hparts, hs]; rfl, t.isScript s hs⟩
      rw [hnone] at hparts
      refine ⟨_, _, ⟨t.isLanguage, rfl⟩, (hregion _).mpr
        ⟨t.region, t.variants, hparts, t.isRegion, t.isVariant, rfl⟩, ?_⟩
      simp [LocaleTag.parts, canonical, hnone]

/-! ### The whole function -/

def isSpace (c : Char) : Bool := Ascii.isSpace c.toNat

theorem isspace_chr {c : Char} (h : c.toNat < 0x80) : isspace (chr c) = isSpace c := by
  rw [isspace, toNat_chr (by omega), isSpace]

/-- The characters on which the reading of the input goes on. -/
def readOn (c : Char) : Bool := c ≠ '.' && c ≠ '@' && !isSpace c

/-- The part of an ASCII string that `raw` receives. -/
def cReads (s : Chars) : Chars := (s.dropWhile isSpace).takeWhile readOn

theorem isAscii_cReads {s : Chars} (hs : IsAscii s) : IsAscii (cReads s) :=
  hs.of_sublist ((List.takeWhile_prefix _).sublist.trans (List.dropWhile_suffix _).sublist)

theorem fillRaw_ascii {s : Chars} (hs : IsAscii s) (length : Nat)
    (h : length + (s.takeWhile readOn).length < localeCapacity) :
    fillRaw length (s.map chr) = some ((dashed (s.takeWhile readOn)).map chr) := by
  induction s generalizing length with
  | nil => rfl
  | cons c s ih =>
    obtain ⟨hc, hrest⟩ := List.forall_mem_cons.mp hs
    have hlt : c.toNat < 256 := by omega
    have hread : (chr c = chr '.' || chr c = chr '@' || isspace (chr c)) = !readOn c := by
      rw [isspace_chr hc, readOn, Bool.not_and, Bool.not_and, Bool.not_not]
      simp only [chr_inj hlt (show '.'.toNat < 256 by decide),
        chr_inj hlt (show '@'.toNat < 256 by decide), decide_not, Bool.not_not]
    rw [List.map_cons, fillRaw, hread]
    by_cases hon : readOn c = true
    · rw [List.takeWhile_cons_of_pos hon, List.length_cons] at h
      rw [hon, if_neg (by decide), if_neg (by omega), ih hrest _ (by omega),
        List.takeWhile_cons_of_pos hon, dashed, dashed, List.map_cons, List.map_cons,
        Option.map_some, Option.some.injEq]
      refine congrArg (· :: _) ?_
      simp only [chr_inj hlt (show '_'.toNat < 256 by decide)]
      split_ifs <;> rfl
    · rw [if_pos (by simpa using hon), List.takeWhile_cons_of_neg hon]
      rfl

theorem asciiEqualFold_chr {s t : Chars} (hs : IsAscii s) (ht : IsAscii t) :
    asciiEqualFold (s.map chr) (t.map chr) = true ↔ s.map Char.toLower = t.map Char.toLower := by
  induction s generalizing t with
  | nil => cases t <;> simp [asciiEqualFold]
  | cons c s ih =>
    cases t with
    | nil => simp [asciiEqualFold]
    | cons d t =>
      obtain ⟨hc, hs⟩ := List.forall_mem_cons.mp hs
      obtain ⟨hd, ht⟩ := List.forall_mem_cons.mp ht
      rw [List.map_cons, List.map_cons, asciiEqualFold, Bool.and_eq_true, decide_eq_true_eq,
        ih hs ht, tolower_chr hc, tolower_chr hd,
        chr_inj ((toLower_lt hc).trans (by decide)) ((toLower_lt hd).trans (by decide))]
      simp

/-- The comparison after the replacement of `_` is one before it, for a name of letters. -/
theorem dashed_toLower {name : Chars} (hname : ∀ d ∈ name, d.isUpper = true) (s : Chars) :
    (dashed s).map Char.toLower = name.map Char.toLower ↔ s.map Char.toUpper = name := by
  have hchar : ∀ c d : Char, d.isUpper = true →
      ((if c = '_' then '-' else c).toLower = d.toLower ↔ c.toUpper = d) := by
    intro c d hd
    have hupper := isUpper_iff.mp hd
    by_cases hc : c = '_'
    · rw [if_pos hc, hc]
      refine iff_of_false (fun h => ?_) fun h => ?_
      · have := Char.isAlpha_toLower_eq_isAlpha d
        rw [← h, hupper.1] at this
        cases this
      · rw [← h] at hd
        cases hd
    · rw [if_neg hc]
      constructor
      · intro h
        rw [← Char.toUpper_toLower_eq_toUpper, h, Char.toUpper_toLower_eq_toUpper, hupper.2]
      · rintro rfl
        rw [Char.toLower_toUpper_eq_toLower]
  induction s generalizing name with
  | nil => cases name <;> simp [dashed]
  | cons c s ih =>
    cases name with
    | nil => simp [dashed]
    | cons d name =>
      obtain ⟨hd, hname⟩ := List.forall_mem_cons.mp hname
      rw [dashed, List.map_cons, List.map_cons, List.map_cons, List.map_cons, List.cons.injEq,
        List.cons.injEq, hchar c d hd]
      exact and_congr_right' (ih hname)

theorem equalFold_name {v : Chars} (hv : IsAscii v) {name : String}
    (hname : name.toList.all Char.isUpper = true) :
    asciiEqualFold ((dashed v).map chr) (text name) = true ↔ v.map Char.toUpper = name.toList := by
  rw [List.all_eq_true] at hname
  have hascii : IsAscii name.toList := fun d hd =>
    lt_of_isAlphanum (isAlphanum_of_isAlpha (isUpper_iff.mp (hname d hd)).1)
  rw [Libc.text, asciiEqualFold_chr (isAscii_dashed hv) hascii, dashed_toLower hname]

/-- `msys_i18n_normalize_locale` on an ASCII string, with the buffer its callers have. -/
theorem normalizeLocale_ascii {s : Chars} (hs : IsAscii s)
    (hlen : (cReads s).length < localeCapacity) (output : Buffer) :
    (∀ t, Spells (cReads s) t → normalizeLocale (s.map chr) output localeCapacity =
      (.ok, output.copy 0 (t.canonical.text.map chr ++ [0]))) ∧
    ((∀ t, ¬Spells (cReads s) t) →
      normalizeLocale (s.map chr) output localeCapacity = (.invalidLocale, output)) := by
  have hreads := isAscii_cReads hs
  have hdrop := hs.of_sublist (List.dropWhile_suffix isSpace).sublist
  have hraw : fillRaw 0 ((s.map chr).dropWhile isspace) = some ((dashed (cReads s)).map chr) := by
    rw [Encoded.dropWhile fun c hc => isspace_chr (hs c hc)]
    exact fillRaw_ascii hdrop 0 (by rw [Nat.zero_add]; exact hlen)
  have hsplit : ((dashed (cReads s)).map chr).splitOn (chr '-') =
      ((dashed (cReads s)).splitOn '-').map (List.map chr) :=
    Encoded.splitOn fun c hc => chr_inj ((isAscii_dashed hreads c hc).trans (by decide)) (by decide)
  have hparts : ∀ l ∈ (dashed (cReads s)).splitOn '-', IsAscii l := fun l hl c hc =>
    isAscii_dashed hreads c (Encoded.mem_of_mem_splitOn hl hc)
  have hnormal := normalizeParts_ascii hparts (List.splitOn_ne_nil _ _)
  have hlength : ¬localeCapacity < ((dashed (cReads s)).map chr).length + 1 := by
    rw [List.length_map, dashed, List.length_map]
    omega
  have hnil : (dashed (cReads s)).map chr = [] ↔ cReads s = [] := by
    rw [List.map_eq_nil_iff, dashed, List.map_eq_nil_iff]
  have hguard : (decide ((dashed (cReads s)).map chr = []) ||
      asciiEqualFold ((dashed (cReads s)).map chr) (Libc.text "C") ||
      asciiEqualFold ((dashed (cReads s)).map chr) (Libc.text "POSIX")) = true ↔
      (cReads s = [] ∨ (cReads s).map Char.toUpper = "C".toList) ∨
        (cReads s).map Char.toUpper = "POSIX".toList := by
    rw [Bool.or_eq_true, Bool.or_eq_true, decide_eq_true_eq, hnil, equalFold_name hreads rfl,
      equalFold_name hreads rfl]
  rw [normalizeLocale, if_neg (by decide), hraw]
  simp only [hsplit, if_neg hlength]
  constructor
  · intro t ht
    have hrefused : ¬((cReads s = [] ∨ (cReads s).map Char.toUpper = "C".toList) ∨
        (cReads s).map Char.toUpper = "POSIX".toList) := by
      rintro ((h | h) | h)
      · rw [h] at ht
        exact not_spells_nil t ht
      · exact ht.2.1 h
      · exact ht.2.2 h
    rw [if_neg (mt hguard.mp hrefused), (hnormal _).mpr ⟨t, splitOn_eq_iff.mpr ht.1, rfl⟩]
    simp only [LocaleTag.text, Encoded.intercalate]
  · intro hnone
    by_cases hrefused : (cReads s = [] ∨ (cReads s).map Char.toUpper = "C".toList) ∨
        (cReads s).map Char.toUpper = "POSIX".toList
    · rw [if_pos (hguard.mpr hrefused)]
    · rw [if_neg (mt hguard.mp hrefused)]
      rw [not_or, not_or] at hrefused
      cases hout : normalizeParts 0 false (((dashed (cReads s)).splitOn '-').map (List.map chr)) with
      | none => rfl
      | some out =>
        obtain ⟨t, ht, -⟩ := (hnormal out).mp hout
        exact absurd ⟨splitOn_eq_iff.mp ht, hrefused.1.2, hrefused.2⟩ (hnone t)

end Msys.I18n.C
