import MsysSdk.I18n.Normalizers

/-! Cardinal categories. Both sides read the language off the canonical locale in the same way;
the region of Portugal is a subtag for Python and the whole of `pt-PT` for C. -/

namespace Msys.I18n
open Python hiding Bytes
open LocaleTag

inductive Category
  | zero
  | one
  | two
  | few
  | many
  | other
deriving DecidableEq

namespace Category

def text : Category → String
  | zero => "zero"
  | one => "one"
  | two => "two"
  | few => "few"
  | many => "many"
  | other => "other"

end Category

/-- `plural_category` after the locale is taken apart. -/
def cardinal (language region : Str) (number : Nat) : Category :=
  let mod10 := number % 10
  let mod100 := number % 100
  if language ∈ [str "zh", str "ja", str "ko", str "th", str "vi", str "id", str "ms"] then .other
  else if language = str "ar" then
    if number = 0 then .zero
    else if number = 1 then .one
    else if number = 2 then .two
    else if 3 ≤ mod100 ∧ mod100 ≤ 10 then .few
    else if 11 ≤ mod100 ∧ mod100 ≤ 99 then .many
    else .other
  else if language ∈ [str "ru", str "uk", str "be"] then
    if mod10 = 1 ∧ mod100 ≠ 11 then .one
    else if 2 ≤ mod10 ∧ mod10 ≤ 4 ∧ ¬(12 ≤ mod100 ∧ mod100 ≤ 14) then .few
    else .many
  else if language = str "pl" then
    if number = 1 then .one
    else if 2 ≤ mod10 ∧ mod10 ≤ 4 ∧ ¬(12 ≤ mod100 ∧ mod100 ≤ 14) then .few
    else .many
  else if language ∈ [str "cs", str "sk"] then
    if number = 1 then .one
    else if 2 ≤ number ∧ number ≤ 4 then .few
    else .other
  else if language = str "sl" then
    if mod100 = 1 then .one
    else if mod100 = 2 then .two
    else if mod100 ∈ [3, 4] then .few
    else .other
  else if language = str "lt" then
    if mod10 = 1 ∧ mod100 ≠ 11 then .one
    else if 2 ≤ mod10 ∧ mod10 ≤ 9 ∧ ¬(11 ≤ mod100 ∧ mod100 ≤ 19) then .few
    else .other
  else if language = str "lv" then
    if mod10 = 0 ∨ (11 ≤ mod100 ∧ mod100 ≤ 19) then .zero
    else if mod10 = 1 ∧ mod100 ≠ 11 then .one
    else .other
  else if language = str "ro" then
    if number = 1 then .one
    else if number = 0 ∨ (1 ≤ mod100 ∧ mod100 ≤ 19) then .few
    else .other
  else if language = str "he" then
    if number = 1 then .one
    else if number = 2 then .two
    else if number ≠ 0 ∧ mod10 = 0 then .many
    else .other
  else if language = str "cy" then
    (List.lookup number [(0, .zero), (1, .one), (2, .two), (3, .few), (6, .many)]).getD .other
  else if language = str "ga" then
    if number = 1 then .one
    else if number = 2 then .two
    else if 3 ≤ number ∧ number ≤ 6 then .few
    else if 7 ≤ number ∧ number ≤ 10 then .many
    else .other
  else if language ∈ [str "fr", str "hi"] ∨ (language = str "pt" ∧ region ≠ str "PT") then
    if number ∈ [0, 1] then .one else .other
  else if language ∈ [str "is", str "mk"] then
    if mod10 = 1 ∧ mod100 ≠ 11 then .one else .other
  else if number = 1 then .one
  else .other

def looksLikeRegion (u : UnicodeData) (part : Str) : Bool :=
  (part.length = 2 || part.length = 3) && u.isUpper part

/-- The first part of the locale that looks like a region. -/
def regionOf (u : UnicodeData) (parts : List Str) : Str :=
  (parts.find? (looksLikeRegion u)).getD []

/-- The error is the text of the `ValueError`. -/
def pluralCategory (u : UnicodeData) (locale : Str) (count : Int) : Except Str Category :=
  if count < minPlaceholderInteger ∨ maxPlaceholderInteger < count then
    .error (str "plural count must be in -9007199254740991..9007199254740991")
  else
    let parts := ((normalizeLocale u locale).getD (str "en")).splitOn (ch '-')
    .ok (cardinal (parts.headD []) (regionOf u (parts.drop 1)) count.natAbs)

namespace C
open Libc

def magnitude (count : Int) : Nat :=
  if count < 0 then (((-(count + 1)) % 2 ^ 64).toNat + 1) % 2 ^ 64 else (count % 2 ^ 64).toNat

def languageIs (locale language : Bytes) : Bool :=
  language.isPrefixOf locale && match locale.drop language.length with
    | [] => true
    | b :: _ => b = chr '-' || b = chr '_'

/-- `msys_i18n_plural_category` after the locale is normalised. -/
def cardinal (selected : Bytes) (number : Nat) : Category :=
  let mod10 := number % 10
  let mod100 := number % 100
  let is (language : String) : Bool := languageIs selected (text language)
  if is "zh" ∨ is "ja" ∨ is "ko" ∨ is "th" ∨ is "vi" ∨ is "id" ∨ is "ms" then .other
  else if is "ar" then
    if number = 0 then .zero
    else if number = 1 then .one
    else if number = 2 then .two
    else if mod100 ≥ 3 ∧ mod100 ≤ 10 then .few
    else if mod100 ≥ 11 ∧ mod100 ≤ 99 then .many
    else .other
  else if is "ru" ∨ is "uk" ∨ is "be" then
    if mod10 = 1 ∧ mod100 ≠ 11 then .one
    else if mod10 ≥ 2 ∧ mod10 ≤ 4 ∧ ¬(mod100 ≥ 12 ∧ mod100 ≤ 14) then .few
    else .many
  else if is "pl" then
    if number = 1 then .one
    else if mod10 ≥ 2 ∧ mod10 ≤ 4 ∧ ¬(mod100 ≥ 12 ∧ mod100 ≤ 14) then .few
    else .many
  else if is "cs" ∨ is "sk" then
    if number = 1 then .one
    else if number ≥ 2 ∧ number ≤ 4 then .few
    else .other
  else if is "sl" then
    if mod100 = 1 then .one
    else if mod100 = 2 then .two
    else if mod100 = 3 ∨ mod100 = 4 then .few
    else .other
  else if is "lt" then
    if mod10 = 1 ∧ mod100 ≠ 11 then .one
    else if mod10 ≥ 2 ∧ mod10 ≤ 9 ∧ ¬(mod100 ≥ 11 ∧ mod100 ≤ 19) then .few
    else .other
  else if is "lv" then
    if mod10 = 0 ∨ (mod100 ≥ 11 ∧ mod100 ≤ 19) then .zero
    else if mod10 = 1 ∧ mod100 ≠ 11 then .one
    else .other
  else if is "ro" then
    if number = 1 then .one
    else if number = 0 ∨ (mod100 ≥ 1 ∧ mod100 ≤ 19) then .few
    else .other
  else if is "he" then
    if number = 1 then .one
    else if number = 2 then .two
    else if number ≠ 0 ∧ mod10 = 0 then .many
    else .other
  else if is "cy" then
    if number = 0 then .zero
    else if number = 1 then .one
    else if number = 2 then .two
    else if number = 3 then .few
    else if number = 6 then .many
    else .other
  else if is "ga" then
    if number = 1 then .one
    else if number = 2 then .two
    else if number ≥ 3 ∧ number ≤ 6 then .few
    else if number ≥ 7 ∧ number ≤ 10 then .many
    else .other
  else if is "fr" ∨ is "hi" ∨ (is "pt" ∧ selected ≠ text "pt-PT") then
    if number ≤ 1 then .one else .other
  else if is "is" ∨ is "mk" then
    if mod10 = 1 ∧ mod100 ≠ 11 then .one else .other
  else if number = 1 then .one
  else .other

/-- `msys_i18n_plural_category`; no locale stands for NULL. -/
def pluralCategory (canonical : Buffer) (locale : Option Bytes) (count : Int) : Category :=
  cardinal ((locale.bind (normalized canonical)).getD (text "en")) (magnitude count)

theorem magnitude_eq {count : Int} (hlo : -2 ^ 63 ≤ count) (hhi : count < 2 ^ 63) :
    magnitude count = count.natAbs := by
  rw [magnitude]
  split_ifs with h
  · rw [Int.emod_eq_of_lt (by omega) (by omega), Nat.mod_eq_of_lt (by omega)]
    omega
  · rw [Int.emod_eq_of_lt (by omega) (by omega)]
    omega

/-- The locale has the language if it is the language or goes on behind it with a dash. -/
theorem languageIs_text {t : LocaleTag} {name : String}
    (hname : name.toList.all Char.isAlpha = true) :
    languageIs (t.text.map chr) (text name) = true ↔ t.language = name.toList := by
  have halpha : ∀ {s : Chars}, (∀ c ∈ s, c.isAlpha = true) →
      IsAscii s ∧ ∀ b ∈ s.map chr, isalpha b = true := by
    intro s hs
    have hascii : IsAscii s := fun c hc => lt_of_isAlphanum (isAlphanum_of_isAlpha (hs c hc))
    exact ⟨hascii, List.all_eq_true.mp ((all_isalpha hascii).mpr hs)⟩
  obtain ⟨hnascii, hname⟩ := halpha (List.all_eq_true.mp hname)
  obtain ⟨hlascii, hlanguage⟩ := halpha t.isLanguage.2.2
  obtain ⟨rest, htext, hrest⟩ : ∃ rest : Chars, t.text = t.language ++ rest ∧
      (rest = [] ∨ ∃ more, rest = '-' :: more) := by
    rw [LocaleTag.text, LocaleTag.parts, Joined.intercalate_singleton]
    refine ⟨_, rfl, ?_⟩
    cases t.script.toList ++ (t.region.toList ++ t.variants) <;> simp
  have hstop : ∀ b ∈ (rest.map chr).head?, isalpha b = false := by
    rcases hrest with rfl | ⟨more, rfl⟩ <;> simp
    decide
  rw [languageIs, htext, List.map_append, Bool.and_eq_true, List.isPrefixOf_iff_prefix]
  constructor
  · rintro ⟨⟨tail, htail⟩, hnext⟩
    rw [← htail, List.drop_left] at hnext
    have hnot : ∀ b ∈ tail.head?, isalpha b = false := by
      cases tail with
      | nil => simp
      | cons b tail =>
        simp only [Bool.or_eq_true, decide_eq_true_eq] at hnext
        rcases hnext with rfl | rfl <;> simp <;> decide
    have htake := takeWhile_append_stop hlanguage hstop
    rw [← htail, Libc.text, takeWhile_append_stop hname hnot] at htake
    refine ((Encoded.map_inj fun c hc d hd hcd => ?_).mp htake).symm
    exact (chr_inj ((hnascii c hc).trans (by decide)) ((hlascii d hd).trans (by decide))).mp hcd
  · intro h
    rw [h]
    refine ⟨List.prefix_append _ _, ?_⟩
    rw [Libc.text, List.drop_left]
    rcases hrest with rfl | ⟨more, rfl⟩
    · rfl
    · simp

end C

/-! ### Agreement -/

variable {u : UnicodeData}

theorem parts_text (t : LocaleTag) :
    (t.text.map ch).splitOn (ch '-') = t.parts.map (List.map ch) := by
  rw [Encoded.splitOn fun c hc => ch_inj (isAscii_text t c hc) (by decide), splitOn_text]

theorem language_eq {t : LocaleTag} {name : String} (hname : name.toList.all Char.isAlpha = true) :
    t.language.map ch = str name ↔ t.language = name.toList :=
  map_ch_inj (fun c hc => lt_of_isAlphanum (isAlphanum_of_isAlpha (t.isLanguage.2.2 c hc)))
    fun c hc => lt_of_isAlphanum (isAlphanum_of_isAlpha (List.all_eq_true.mp hname c hc))

theorem welsh (number : Nat) :
    (List.lookup number
      [(0, Category.zero), (1, .one), (2, .two), (3, .few), (6, .many)]).getD .other =
    if number = 0 then .zero
    else if number = 1 then .one
    else if number = 2 then .two
    else if number = 3 then .few
    else if number = 6 then .many
    else .other := by
  obtain _ | _ | _ | _ | _ | _ | _ | n := number <;> rfl

/-- The two tables agree if their readings of the region do. -/
theorem cardinal_agree {t : LocaleTag} {region : Str} (number : Nat)
    (hpt : t.language = "pt".toList → (region = str "PT" ↔ t.text.map Libc.chr = Libc.text "pt-PT")) :
    cardinal (t.language.map ch) region number = C.cardinal (t.text.map Libc.chr) number := by
  have is (name : String) (h : name.toList.all Char.isAlpha = true) :
      t.language.map ch = str name ↔ C.languageIs (t.text.map Libc.chr) (Libc.text name) = true :=
    (language_eq h).trans (C.languageIs_text h).symm
  have hportuguese : (t.language.map ch = str "pt" ∧ region ≠ str "PT") ↔
      (C.languageIs (t.text.map Libc.chr) (Libc.text "pt") = true ∧
        t.text.map Libc.chr ≠ Libc.text "pt-PT") := by
    rw [← is "pt" rfl]
    exact and_congr_right fun h => not_congr (hpt ((language_eq rfl).mp h))
  rw [cardinal, C.cardinal]
  refine if_congr ?_ rfl (if_congr (is "ar" rfl) rfl (if_congr ?_ rfl (if_congr (is "pl" rfl) rfl
    (if_congr ?_ rfl (if_congr (is "sl" rfl) ?_ (if_congr (is "lt" rfl) rfl
    (if_congr (is "lv" rfl) rfl (if_congr (is "ro" rfl) rfl (if_congr (is "he" rfl) rfl
    (if_congr (is "cy" rfl) (welsh number) (if_congr (is "ga" rfl) rfl
    (if_congr ?_ ?_ (if_congr ?_ rfl rfl)))))))))))))
  · simp only [List.mem_cons, List.not_mem_nil, or_false, is "zh" rfl, is "ja" rfl, is "ko" rfl,
      is "th" rfl, is "vi" rfl, is "id" rfl, is "ms" rfl]
  · simp only [List.mem_cons, List.not_mem_nil, or_false, is "ru" rfl, is "uk" rfl, is "be" rfl]
  · simp only [List.mem_cons, List.not_mem_nil, or_false, is "cs" rfl, is "sk" rfl]
  · simp only [List.mem_cons, List.not_mem_nil, or_false]
  · simp only [List.mem_cons, List.not_mem_nil, or_false, is "fr" rfl, is "hi" rfl, hportuguese,
      or_assoc]
  · refine if_congr ?_ rfl rfl
    simp only [List.mem_cons, List.not_mem_nil, or_false]
    omega
  · simp only [List.mem_cons, List.not_mem_nil, or_false, is "is" rfl, is "mk" rfl]

theorem not_looksLikeRegion {s : Chars} (hs : 4 ≤ s.length) :
    ¬looksLikeRegion u (s.map ch) = true := by
  rw [looksLikeRegion, List.length_map, decide_eq_false (by omega), decide_eq_false (by omega)]
  exact Bool.false_ne_true

theorem find_none {ss : List Chars} (h : ∀ s ∈ ss, 4 ≤ s.length) :
    (ss.map (List.map ch)).find? (looksLikeRegion u) = none := by
  rw [List.find?_eq_none, List.forall_mem_map]
  exact fun s hs => not_looksLikeRegion (h s hs)

/-- Of the regions it is those of letters that Python finds. -/
theorem looksLikeRegion_iff {s : Chars} (hs : IsRegion s) (hupper : s.map Char.toUpper = s) :
    looksLikeRegion u (s.map ch) = true ↔ s.length = 2 := by
  have hcase := map_eq_self_iff.mp hupper
  have hascii : IsAscii s := by
    rcases hs with ⟨-, h⟩ | ⟨-, h⟩
    · exact fun c hc => lt_of_isAlphanum (isAlphanum_of_isAlpha (h c hc))
    · exact fun c hc => lt_of_isAlphanum (isAlphanum_of_isDigit (h c hc))
  rw [looksLikeRegion, List.length_map, u.isUpper_ascii s hascii]
  rcases hs with ⟨hlen, halpha⟩ | ⟨hlen, hdigit⟩
  · have hisUpper : ∀ c ∈ s, c.isUpper = true := fun c hc =>
      isUpper_iff.mpr ⟨halpha c hc, hcase c hc⟩
    have hany : s.any Char.isUpper = true := by
      obtain ⟨c, s, rfl⟩ := List.exists_cons_of_length_pos (show 0 < s.length by omega)
      exact List.any_eq_true.mpr ⟨c, List.mem_cons_self, hisUpper c List.mem_cons_self⟩
    have hlower : s.any Char.isLower = false := by
      rw [List.any_eq_false]
      intro c hc hl
      have := Char.not_isUpper_of_isLower hl
      exact this (hisUpper c hc)
    simp [hlen, hany, hlower]
  · have hany : s.any Char.isUpper = false := by
      rw [List.any_eq_false]
      intro c hc hu
      have halpha := not_isAlpha_of_isDigit (hdigit c hc)
      rw [(isUpper_iff.mp hu).1] at halpha
      cases halpha
    simp [hlen, hany]

/-- Only a subtag of two or three characters can be the region that Python finds. -/
theorem regionOf_parts {t : LocaleTag} (ht : t.IsCanonical) :
    regionOf u ((t.parts.drop 1).map (List.map ch)) = str "PT" ↔ t.region = some "PT".toList := by
  have hscript : ∀ s ∈ t.script.toList, 4 ≤ s.length := fun s hs =>
    (t.isScript s (by simpa using hs)).1.ge
  have hvariants : ∀ s ∈ t.variants, 4 ≤ s.length := fun s hs => by
    rcases (t.isVariant s hs).2 with h | h <;> omega
  rw [regionOf, LocaleTag.parts, List.drop_succ_cons, List.drop_zero, List.map_append,
    List.map_append, List.find?_append, find_none hscript, Option.none_or, List.find?_append,
    find_none hvariants, Option.or_none]
  cases hregion : t.region with
  | none => simp [str]
  | some s =>
    have hs := t.isRegion s hregion
    have hlooks := looksLikeRegion_iff (u := u) hs ((isCanonical_iff.mp ht).2.2.1 s hregion)
    have hname : s.map ch = str "PT" ↔ s = "PT".toList :=
      map_ch_inj (isAscii_parts (t := t) s (by simp [LocaleTag.parts, hregion])) (ascii_of_all rfl)
    rw [Option.toList_some, List.map_singleton, List.find?_singleton, Option.some.injEq, ← hname]
    by_cases hlen : s.length = 2
    · rw [if_pos (hlooks.mpr hlen), Option.getD_some]
    · rw [if_neg (mt hlooks.mp hlen), hname]
      refine iff_of_false (by decide) ?_
      rintro rfl
      exact hlen rfl

theorem text_eq_name {t : LocaleTag} {name : String}
    (hname : name.toList.all (fun c => c.toNat < 0x80) = true) :
    t.text.map Libc.chr = Libc.text name ↔ t.text = name.toList :=
  Encoded.map_inj fun c hc d hd h => (Libc.chr_inj ((isAscii_text t c hc).trans (by decide))
    ((ascii_of_all hname d hd).trans (by decide))).mp h

def portugal : LocaleTag where
  language := "pt".toList
  script := none
  region := some "PT".toList
  variants := []
  isLanguage := by simp [IsLanguage]
  isScript := by simp
  isRegion := by simp [IsRegion]
  isVariant := by simp

/-- The locale is one of Portugal, with a script or a variant besides. -/
def MoreThanPortugal (t : LocaleTag) : Prop :=
  t.language = portugal.language ∧ t.region = portugal.region ∧ t ≠ portugal

theorem cardinal_pt (region : Str) (number : Nat) : cardinal (str "pt") region number =
    if region ≠ str "PT" then (if number ∈ [0, 1] then .one else .other)
    else if number = 1 then .one else .other := by
  rw [cardinal]
  iterate 12 rw [if_neg (by decide)]
  have hfrench : str "pt" ∉ [str "fr", str "hi"] := by decide
  refine if_congr (by rw [or_iff_right hfrench, and_iff_right rfl]) rfl ?_
  rw [if_neg (by decide)]

theorem text_portugal {t : LocaleTag} : t.text.map Libc.chr = Libc.text "pt-PT" ↔ t = portugal := by
  rw [text_eq_name rfl]
  exact ⟨fun h => text_inj h, fun h => h ▸ rfl⟩

theorem cardinal_eq_iff {t : LocaleTag} (ht : t.IsCanonical) (number : Nat) :
    cardinal (t.language.map ch) (regionOf u ((t.parts.drop 1).map (List.map ch))) number =
      C.cardinal (t.text.map Libc.chr) number ↔ ¬(number = 0 ∧ MoreThanPortugal t) := by
  have hregion := regionOf_parts (u := u) ht
  by_cases hmore : MoreThanPortugal t
  · -- the C side goes on as if the locale had no region
    have hbare : C.cardinal (t.text.map Libc.chr) number = cardinal (t.language.map ch) [] number :=
      (cardinal_agree number fun _ => iff_of_false (by decide) (mt text_portugal.mp hmore.2.2)).symm
    have hempty : ([] : Str) ≠ str "PT" := by decide
    rw [hbare, hregion.mpr hmore.2.1, (language_eq rfl).mpr hmore.1, cardinal_pt, cardinal_pt,
      if_neg (not_not.mpr rfl), if_pos hempty, and_iff_left hmore]
    obtain _ | _ | n := number <;> simp
  · refine iff_of_true (cardinal_agree number fun hlanguage => ?_) fun h => hmore h.2
    rw [hregion, text_portugal]
    constructor
    · intro h
      by_contra hne
      exact hmore ⟨hlanguage, h, hne⟩
    · rintro rfl
      rfl

theorem text_ch_inj {t t' : LocaleTag} (h : t.text.map ch = t'.text.map ch) : t = t' :=
  text_inj ((map_ch_inj (isAscii_text t) (isAscii_text t')).mp h)

def english : LocaleTag where
  language := "en".toList
  script := none
  region := none
  variants := []
  isLanguage := by simp [IsLanguage]
  isScript := by simp
  isRegion := by simp
  isVariant := by simp

theorem magnitude_of_bounds {count : Int} (hlo : minPlaceholderInteger ≤ count)
    (hhi : count ≤ maxPlaceholderInteger) : C.magnitude count = count.natAbs :=
  C.magnitude_eq (le_trans (by decide) hlo) (lt_of_le_of_lt hhi (by decide))

theorem pluralCategory_of_tag {s : Str} {t : LocaleTag}
    (h : (normalizeLocale u s).getD (str "en") = t.text.map ch) {count : Int}
    (hlo : minPlaceholderInteger ≤ count) (hhi : count ≤ maxPlaceholderInteger) :
    pluralCategory u s count = .ok (cardinal (t.language.map ch)
      (regionOf u ((t.parts.drop 1).map (List.map ch))) count.natAbs) := by
  rw [pluralCategory, if_neg (by omega)]
  simp only [h, parts_text, ← List.map_drop]
  rfl

/-- The category is the same unless the count is zero and the locale is one of Portugal that says
more than `pt-PT`. -/
theorem plural_categories_agree {s : Str} (hagree : NormalizersAgree u s) {count : Int}
    (hlo : minPlaceholderInteger ≤ count) (hhi : count ≤ maxPlaceholderInteger)
    (canonical : Libc.Buffer) :
    pluralCategory u s count = .ok (C.pluralCategory canonical (some (utf8 s)) count) ↔
      ¬(count = 0 ∧ ∃ t, normalizeLocale u s = some (t.text.map ch) ∧ MoreThanPortugal t) := by
  rw [C.pluralCategory, Option.bind_some, magnitude_of_bounds hlo hhi]
  rcases hagree.cases canonical with ⟨hpython, hc⟩ | ⟨t, ht, hpython, hc⟩
  · rw [hc, Option.getD_none, pluralCategory_of_tag (t := english) (by rw [hpython]; rfl) hlo hhi]
    have henglish := (cardinal_eq_iff (u := u) (t := english) rfl count.natAbs).mpr fun h =>
      absurd h.2.1 (by decide)
    refine iff_of_true (congrArg _ henglish) ?_
    rintro ⟨-, t, ht, -⟩
    rw [hpython] at ht
    cases ht
  · rw [hc, Option.getD_some, pluralCategory_of_tag (t := t) (by rw [hpython]; rfl) hlo hhi,
      Except.ok.injEq, cardinal_eq_iff ht, Int.natAbs_eq_zero, hpython]
    refine not_congr (and_congr_right' ⟨fun h => ⟨t, rfl, h⟩, ?_⟩)
    rintro ⟨t', htext, h⟩
    rwa [text_ch_inj (Option.some.inj htext)]

theorem plural_categories_disagree :
    ¬∀ (s : Str) (count : Int), Encodable s → NormalizersAgree .ascii s →
      minPlaceholderInteger ≤ count → count ≤ maxPlaceholderInteger → ∀ canonical : Libc.Buffer,
        pluralCategory .ascii s count = .ok (C.pluralCategory canonical (some (utf8 s)) count) := by
  intro h
  have hagree : NormalizersAgree .ascii (str "pt-Latn-PT") :=
    agree_of_reads_eq (s := "pt-Latn-PT".toList) (by decide) (by decide) (by decide)
  have hencodable : Encodable (str "pt-Latn-PT") := encodable_map_ch (ascii_of_all rfl)
  have heq := h (str "pt-Latn-PT") 0 hencodable hagree (by decide) (by decide) fun _ => 0
  have hpython : pluralCategory .ascii (str "pt-Latn-PT") 0 = .ok .other := rfl
  have hc : C.pluralCategory (fun _ => 0) (some (utf8 (str "pt-Latn-PT"))) 0 = .one := rfl
  rw [hpython, hc] at heq
  cases heq

theorem plural_categories_agree_russian : pluralCategory .ascii (str " ru_RU.UTF-8") 3 =
    .ok (C.pluralCategory (fun _ => 0) (some (utf8 (str " ru_RU.UTF-8"))) 3) :=
  (plural_categories_agree (agree_of_reads_eq (s := " ru_RU.UTF-8".toList) (by decide) (by decide)
    (by decide)) (by decide) (by decide) _).mpr fun h => absurd h.1 (by decide)

end Msys.I18n
