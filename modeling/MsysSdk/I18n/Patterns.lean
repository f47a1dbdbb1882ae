import MsysSdk.Python.Text
import MsysSdk.Python.JsonGrammar
import MsysSdk.Text.Regex

/-! The bounds and the patterns of `i18n.py`. That of a canonical locale matches the locale tags
whose subtags are in their usual case. -/

namespace Msys.I18n
open Python RegularExpression LocaleTag

def minPlaceholderInteger : Int := -9007199254740991
def maxPlaceholderInteger : Int := 9007199254740991

abbrev Pattern := RegularExpression CodePoint

/-- The characters `[a-b]`. -/
def range (a b : Char) : List CodePoint :=
  (List.range' a.toNat (b.toNat + 1 - a.toNat)).map .ofNat

def lit (c : Char) : Pattern := char (ch c)

def lowers : List CodePoint := range 'a' 'z'
def uppers : List CodePoint := range 'A' 'Z'
def digits : List CodePoint := range '0' '9'

/-- `[a-z0-9][a-z0-9_-]*` -/
def nameWord : Pattern :=
  oneOf (lowers ++ digits) * star (oneOf (lowers ++ digits ++ [ch '_', ch '-']))

def catalogId : Pattern := nameWord * (star (lit '.' * nameWord) * (lit '.' * nameWord))

def scriptPattern : Pattern := lit '-' * (oneOf uppers * oneOf lowers ^ 3)

def regionPattern : Pattern := lit '-' * (oneOf uppers ^ 2 + oneOf digits ^ 3)

def variantPattern : Pattern :=
  lit '-' * (counted (oneOf (lowers ++ digits)) 5 8 + oneOf digits * oneOf (lowers ++ digits) ^ 3)

def locale : Pattern :=
  counted (oneOf lowers) 2 8 * (opt scriptPattern * (opt regionPattern * star variantPattern))

def messageKey : Pattern :=
  oneOf lowers * (star (oneOf (lowers ++ digits ++ [ch '_', ch '-'])) * star (lit '.' * nameWord))

def placeholder : Pattern :=
  oneOf (uppers ++ lowers ++ [ch '_']) * star (oneOf (uppers ++ lowers ++ digits ++ [ch '_']))

def extensionField : Pattern :=
  lit 'x' * (lit '-' * (oneOf (lowers ++ digits) *
    star (oneOf (lowers ++ digits ++ [ch '.', ch '_', ch '-']))))

example : locale.rmatch (str "sl-Latn-IT-rozaj-1994") = true := by decide +kernel

/-! ### Character classes -/

theorem mem_range {a b : Char} (hb : b.toNat < 0x80) {c : CodePoint} :
    c ∈ range a b ↔ a.toNat ≤ c.val ∧ c.val ≤ b.toNat := by
  simp only [range, List.mem_map, List.mem_range']
  constructor
  · rintro ⟨n, hn, rfl⟩
    have hval : (CodePoint.ofNat n).val = n := ofNat_val (by omega)
    omega
  · intro h
    exact ⟨c.val, ⟨c.val - a.toNat, by omega, by omega⟩, ofNat_eq rfl⟩

/-- The characters of the class are those with the property. -/
def Class (cs : List CodePoint) (p : Char → Bool) : Prop :=
  ∀ c, c ∈ cs ↔ ∃ d : Char, p d = true ∧ ch d = c

theorem class_range {a b : Char} (hb : b.toNat < 0x80) {p : Char → Bool}
    (hp : ∀ d : Char, p d = true ↔ a.toNat ≤ d.toNat ∧ d.toNat ≤ b.toNat) : Class (range a b) p := by
  intro c
  rw [mem_range hb]
  constructor
  · intro h
    have hval := toNat_ofCode (c := c) (by omega)
    exact ⟨ofCode c, (hp _).mpr (by omega), ch_ofCode (by omega)⟩
  · rintro ⟨d, hd, rfl⟩
    have hd := (hp d).mp hd
    rw [ch_val (by omega)]
    exact hd

theorem class_lowers : Class lowers Char.isLower :=
  class_range (by decide) fun d => by
    simp [← Ascii.isLower_toNat, Ascii.isLower]

theorem class_uppers : Class uppers Char.isUpper :=
  class_range (by decide) fun d => by
    simp [← Ascii.isUpper_toNat, Ascii.isUpper]

theorem class_digits : Class digits Char.isDigit :=
  class_range (by decide) fun d => Char.isDigit_iff_toNat

theorem Class.append {as bs : List CodePoint} {p q : Char → Bool} (ha : Class as p)
    (hb : Class bs q) : Class (as ++ bs) fun d => p d || q d := by
  intro c
  rw [List.mem_append, ha c, hb c]
  simp only [Bool.or_eq_true, or_and_right, exists_or]

theorem Class.chars {cs : List CodePoint} {p : Char → Bool} (h : Class cs p) {x : Str} :
    (∀ c ∈ x, c ∈ cs) ↔ ∃ s : Chars, (∀ d ∈ s, p d = true) ∧ x = s.map ch := by
  constructor
  · intro hx
    induction x with
    | nil => exact ⟨[], by simp, rfl⟩
    | cons c x ih =>
      obtain ⟨hc, htail⟩ := List.forall_mem_cons.mp hx
      obtain ⟨s, hs, rfl⟩ := ih htail
      obtain ⟨d, hd, rfl⟩ := (h c).mp hc
      exact ⟨d :: s, List.forall_mem_cons.mpr ⟨hd, hs⟩, rfl⟩
  · rintro ⟨s, hs, rfl⟩
    exact List.forall_mem_map.mpr fun d hd => (h _).mpr ⟨d, hs d hd, rfl⟩

theorem Class.mem {cs : List CodePoint} {p : Char → Bool} (h : Class cs p) {x : Str} :
    x ∈ (oneOf cs).matches' ↔ ∃ d : Char, p d = true ∧ x = [ch d] := by
  rw [mem_oneOf]
  constructor
  · rintro ⟨c, hc, rfl⟩
    obtain ⟨d, hd, rfl⟩ := (h c).mp hc
    exact ⟨d, hd, rfl⟩
  · rintro ⟨d, hd, rfl⟩
    exact ⟨ch d, (h _).mpr ⟨d, hd, rfl⟩, rfl⟩

theorem Class.mem_pow {cs : List CodePoint} {p : Char → Bool} (h : Class cs p) {n : Nat}
    {x : Str} : x ∈ (oneOf cs ^ n).matches' ↔
      ∃ s : Chars, s.length = n ∧ (∀ d ∈ s, p d = true) ∧ x = s.map ch := by
  rw [mem_oneOf_pow, h.chars]
  constructor
  · rintro ⟨hlen, s, hs, rfl⟩
    exact ⟨s, by simpa using hlen, hs, rfl⟩
  · rintro ⟨s, hlen, hs, rfl⟩
    exact ⟨by simpa using hlen, s, hs, rfl⟩

theorem Class.mem_counted {cs : List CodePoint} {p : Char → Bool} (h : Class cs p) {lo hi : Nat}
    (hle : lo ≤ hi) {x : Str} : x ∈ (counted (oneOf cs) lo hi).matches' ↔
      ∃ s : Chars, lo ≤ s.length ∧ s.length ≤ hi ∧ (∀ d ∈ s, p d = true) ∧ x = s.map ch := by
  rw [mem_counted_oneOf hle, h.chars]
  constructor
  · rintro ⟨hlo, hhi, s, hs, rfl⟩
    exact ⟨s, by simpa using hlo, by simpa using hhi, hs, rfl⟩
  · rintro ⟨s, hlo, hhi, hs, rfl⟩
    exact ⟨by simpa using hlo, by simpa using hhi, s, hs, rfl⟩

/-! ### Canonical locales -/

theorem isLower_iff {c : Char} : c.isLower = true ↔ c.isAlpha = true ∧ c.toLower = c := by
  constructor
  · intro h
    exact ⟨by simp [← Ascii.isAlpha_toNat, Ascii.isAlpha, Ascii.isLower_toNat, h],
      Char.toLower_eq_of_not_isUpper (Char.not_isUpper_of_isLower h)⟩
  · rintro ⟨halpha, hlower⟩
    rw [← hlower, Char.isLower_toLower_eq_isAlpha, halpha]

theorem isUpper_iff {c : Char} : c.isUpper = true ↔ c.isAlpha = true ∧ c.toUpper = c := by
  constructor
  · intro h
    exact ⟨by simp [← Ascii.isAlpha_toNat, Ascii.isAlpha, Ascii.isUpper_toNat, h],
      Char.toUpper_eq_of_not_isLower (Char.not_isLower_of_isUpper h)⟩
  · rintro ⟨halpha, hupper⟩
    rw [← hupper, Char.isUpper_toUpper_eq_isAlpha, halpha]

theorem map_eq_self_iff {f : Char → Char} {s : Chars} : s.map f = s ↔ ∀ c ∈ s, f c = c := by
  conv_lhs => rw [← List.map_id s, List.map_map]
  exact List.map_inj_left

theorem language_iff {x : Str} : x ∈ (counted (oneOf lowers) 2 8).matches' ↔
    ∃ s, IsLanguage s ∧ s.map Char.toLower = s ∧ x = s.map ch := by
  rw [class_lowers.mem_counted (by decide)]
  refine exists_congr fun s => ?_
  simp only [IsLanguage, map_eq_self_iff, isLower_iff, forall₂_and, and_assoc]

theorem script_iff {x : Str} : x ∈ scriptPattern.matches' ↔
    ∃ s, (IsScript s ∧ titled s = s) ∧ x = ('-' :: s).map ch := by
  rw [scriptPattern, mem_comp]
  constructor
  · rintro ⟨_, rfl, _, h, rfl⟩
    obtain ⟨_, hu, _, hl, rfl⟩ := mem_comp.mp h
    obtain ⟨d, hd, rfl⟩ := class_uppers.mem.mp hu
    obtain ⟨s, hlen, hs, rfl⟩ := class_lowers.mem_pow.mp hl
    have hs' := fun c hc => isLower_iff.mp (hs c hc)
    have hd' := isUpper_iff.mp hd
    refine ⟨d :: s, ⟨⟨by simp [hlen], List.forall_mem_cons.mpr
      ⟨hd'.1, fun c hc => (hs' c hc).1⟩⟩, ?_⟩, rfl⟩
    rw [titled, hd'.2, map_eq_self_iff.mpr fun c hc => (hs' c hc).2]
  · rintro ⟨s, ⟨⟨hlen, hs⟩, htitle⟩, rfl⟩
    obtain ⟨d, s, rfl⟩ := List.exists_cons_of_length_pos (show 0 < s.length by omega)
    obtain ⟨hd, htail⟩ := List.cons.inj htitle
    obtain ⟨hdalpha, hsalpha⟩ := List.forall_mem_cons.mp hs
    refine ⟨[ch '-'], rfl, _, mem_comp.mpr ⟨[ch d], class_uppers.mem.mpr
      ⟨d, isUpper_iff.mpr ⟨hdalpha, hd⟩, rfl⟩, s.map ch, class_lowers.mem_pow.mpr
      ⟨s, by simpa using hlen, fun c hc => ?_, rfl⟩, rfl⟩, rfl⟩
    exact isLower_iff.mpr ⟨hsalpha c hc, map_eq_self_iff.mp htail c hc⟩

theorem region_iff {x : Str} : x ∈ regionPattern.matches' ↔
    ∃ s, (IsRegion s ∧ s.map Char.toUpper = s) ∧ x = ('-' :: s).map ch := by
  rw [regionPattern, mem_comp]
  constructor
  · rintro ⟨_, rfl, _, h | h, rfl⟩
    · obtain ⟨s, hlen, hs, rfl⟩ := class_uppers.mem_pow.mp h
      have hs' := fun c hc => isUpper_iff.mp (hs c hc)
      exact ⟨s, ⟨.inl ⟨hlen, fun c hc => (hs' c hc).1⟩,
        map_eq_self_iff.mpr fun c hc => (hs' c hc).2⟩, rfl⟩
    · obtain ⟨s, hlen, hs, rfl⟩ := class_digits.mem_pow.mp h
      exact ⟨s, ⟨.inr ⟨hlen, hs⟩, map_eq_self_iff.mpr fun c hc => isDigit_toUpper (hs c hc)⟩, rfl⟩
  · rintro ⟨s, ⟨hs, hupper⟩, rfl⟩
    refine ⟨[ch '-'], rfl, s.map ch, ?_, rfl⟩
    rcases hs with ⟨hlen, hs⟩ | ⟨hlen, hs⟩
    · refine .inl (class_uppers.mem_pow.mpr ⟨s, hlen, fun c hc => ?_, rfl⟩)
      exact isUpper_iff.mpr ⟨hs c hc, map_eq_self_iff.mp hupper c hc⟩
    · exact .inr (class_digits.mem_pow.mpr ⟨s, hlen, hs, rfl⟩)

theorem lower_or_digit_iff {c : Char} : (c.isLower || c.isDigit) = true ↔
    c.isAlphanum = true ∧ c.toLower = c := by
  rw [Bool.or_eq_true, isLower_iff, Char.isAlphanum, Bool.or_eq_true]
  constructor
  · rintro (⟨h, hlower⟩ | h)
    · exact ⟨.inl h, hlower⟩
    · exact ⟨.inr h, isDigit_toLower h⟩
  · rintro ⟨h | h, hlower⟩
    · exact .inl ⟨h, hlower⟩
    · exact .inr h

theorem variant_iff {x : Str} : x ∈ variantPattern.matches' ↔
    ∃ s, (IsVariant s ∧ s.map Char.toLower = s) ∧ x = ('-' :: s).map ch := by
  have hclass := class_lowers.append class_digits
  have hboth : ∀ s : Chars, (∀ c ∈ s, (c.isLower || c.isDigit) = true) ↔
      (∀ c ∈ s, c.isAlphanum = true) ∧ s.map Char.toLower = s := fun s => by
    simp only [lower_or_digit_iff, forall₂_and, map_eq_self_iff]
  rw [variantPattern, mem_comp]
  constructor
  · rintro ⟨_, rfl, _, h | h, rfl⟩
    · obtain ⟨s, hlo, hhi, hs, rfl⟩ := (hclass.mem_counted (by decide)).mp h
      obtain ⟨halnum, hlower⟩ := (hboth s).mp hs
      exact ⟨s, ⟨⟨halnum, .inl ⟨hlo, hhi⟩⟩, hlower⟩, rfl⟩
    · obtain ⟨_, hfirst, _, hrest, rfl⟩ := mem_comp.mp h
      obtain ⟨d, hd, rfl⟩ := class_digits.mem.mp hfirst
      obtain ⟨s, hlen, hs, rfl⟩ := hclass.mem_pow.mp hrest
      have hall := (hboth (d :: s)).mp (List.forall_mem_cons.mpr ⟨by simp [hd], hs⟩)
      exact ⟨d :: s, ⟨⟨hall.1, .inr ⟨by simp [hlen], d, rfl, hd⟩⟩, hall.2⟩, rfl⟩
  · rintro ⟨s, ⟨⟨halnum, hlen⟩, hlower⟩, rfl⟩
    have hs := (hboth s).mpr ⟨halnum, hlower⟩
    refine ⟨[ch '-'], rfl, s.map ch, ?_, rfl⟩
    rcases hlen with ⟨hlo, hhi⟩ | ⟨hlen, d, hhead, hd⟩
    · exact .inl ((hclass.mem_counted (by decide)).mpr ⟨s, hlo, hhi, hs, rfl⟩)
    · obtain ⟨s, rfl⟩ : ∃ t, s = d :: t := ⟨s.tail, (List.cons_head?_tail hhead).symm⟩
      obtain ⟨-, hs⟩ := List.forall_mem_cons.mp hs
      exact .inr (mem_comp.mpr ⟨[ch d], class_digits.mem.mpr ⟨d, hd, rfl⟩, s.map ch,
        hclass.mem_pow.mpr ⟨s, by simpa using hlen, hs, rfl⟩, rfl⟩)

theorem opt_iff {r : Pattern} {p : Chars → Prop}
    (h : ∀ x, x ∈ r.matches' ↔ ∃ s, p s ∧ x = ('-' :: s).map ch) {x : Str} :
    x ∈ (opt r).matches' ↔ ∃ s : Option Chars, (∀ y ∈ s, p y) ∧
      x = (s.toList.flatMap ('-' :: ·)).map ch := by
  rw [mem_opt, h]
  constructor
  · rintro (rfl | ⟨s, hs, rfl⟩)
    · exact ⟨none, by simp, rfl⟩
    · exact ⟨some s, by simpa using hs, by simp⟩
  · rintro ⟨_ | s, hs, rfl⟩
    · exact .inl rfl
    · exact .inr ⟨s, hs s rfl, by simp⟩

theorem star_iff {r : Pattern} {p : Chars → Prop}
    (h : ∀ x, x ∈ r.matches' ↔ ∃ s, p s ∧ x = ('-' :: s).map ch) {x : Str} :
    x ∈ (star r).matches' ↔ ∃ ss : List Chars, (∀ y ∈ ss, p y) ∧
      x = (ss.flatMap ('-' :: ·)).map ch := by
  rw [matches'_star, Language.mem_kstar]
  constructor
  · rintro ⟨words, rfl, hwords⟩
    induction words with
    | nil => exact ⟨[], by simp, rfl⟩
    | cons w words ih =>
      obtain ⟨hw, hrest⟩ := List.forall_mem_cons.mp hwords
      obtain ⟨ss, hss, htext⟩ := ih hrest
      obtain ⟨s, hs, rfl⟩ := (h w).mp hw
      exact ⟨s :: ss, List.forall_mem_cons.mpr ⟨hs, hss⟩, by simp [htext]⟩
  · rintro ⟨ss, hss, rfl⟩
    refine ⟨ss.map fun s => ('-' :: s).map ch, ?_, List.forall_mem_map.mpr fun s hs =>
      (h _).mpr ⟨s, hss s hs, rfl⟩⟩
    rw [List.map_flatMap, List.flatMap_def]

theorem isCanonical_iff {t : LocaleTag} : t.IsCanonical ↔
    t.language.map Char.toLower = t.language ∧ (∀ s ∈ t.script, titled s = s) ∧
      (∀ s ∈ t.region, s.map Char.toUpper = s) ∧ ∀ s ∈ t.variants, s.map Char.toLower = s := by
  rw [LocaleTag.IsCanonical, LocaleTag.ext_iff]
  refine and_congr_right' (and_congr ?_ (and_congr ?_ ?_))
  · cases h : t.script <;> simp [canonical, h]
  · cases h : t.region <;> simp [canonical, h]
  · conv_lhs => rw [← List.map_id t.variants, canonical]
    exact List.map_inj_left

/-- The pattern of a canonical locale. -/
theorem locale_iff {s : Str} : locale.rmatch s = true ↔
    ∃ t : LocaleTag, t.IsCanonical ∧ s = t.text.map ch := by
  have hscript := fun {x} => opt_iff (fun x => script_iff) (x := x)
  have hregion := fun {x} => opt_iff (fun x => region_iff) (x := x)
  have hvariants := fun {x} => star_iff (fun x => variant_iff) (x := x)
  rw [rmatch_iff_matches', locale, mem_comp]
  constructor
  · rintro ⟨_, hlanguage, _, hrest, rfl⟩
    obtain ⟨_, hfirst, _, htail, rfl⟩ := mem_comp.mp hrest
    obtain ⟨_, hsecond, _, hlast, rfl⟩ := mem_comp.mp htail
    obtain ⟨l, hl, hlower, rfl⟩ := language_iff.mp hlanguage
    obtain ⟨s, hs, rfl⟩ := hscript.mp hfirst
    obtain ⟨r, hr, rfl⟩ := hregion.mp hsecond
    obtain ⟨vs, hv, rfl⟩ := hvariants.mp hlast
    refine ⟨⟨l, s, r, vs, hl, fun x hx => (hs x hx).1, fun x hx => (hr x hx).1,
      fun x hx => (hv x hx).1⟩, isCanonical_iff.mpr ⟨hlower, fun x hx => (hs x hx).2,
      fun x hx => (hr x hx).2, fun x hx => (hv x hx).2⟩, ?_⟩
    simp [text_eq]
  · rintro ⟨t, ht, rfl⟩
    obtain ⟨hlower, hs, hr, hv⟩ := isCanonical_iff.mp ht
    rw [text_eq, List.map_append, List.map_append, List.map_append]
    exact ⟨_, language_iff.mpr ⟨_, t.isLanguage, hlower, rfl⟩, _, mem_comp.mpr
      ⟨_, hscript.mpr ⟨_, fun x hx => ⟨t.isScript x hx, hs x hx⟩, rfl⟩, _, mem_comp.mpr
        ⟨_, hregion.mpr ⟨_, fun x hx => ⟨t.isRegion x hx, hr x hx⟩, rfl⟩, _,
          hvariants.mpr ⟨_, fun x hx => ⟨t.isVariant x hx, hv x hx⟩, rfl⟩, rfl⟩, rfl⟩, rfl⟩

end Msys.I18n
