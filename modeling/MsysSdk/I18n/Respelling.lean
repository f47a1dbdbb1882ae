import MsysSdk.I18n.Candidates
import MsysSdk.Text.LetterCase
import MsysSdk.Python.JsonGrammar

/-! The spellings of a locale. Each of them normalises to the locale and selects it, where the
catalog has it; only `posix`, which the pattern of the locales lets pass, stays a name of the
default. -/

namespace Msys.I18n
open Python LocaleTag
open UnicodeData (lowerChar lowerChar_ch)

variable {u : UnicodeData}

/-- A spelling of a locale: its letters in any case, with '_' for '-', a suffix for the encoding
and one for the modifier, and white space around it. -/
structure Respelling (locale : Str) where
  before : Str
  letters : Str
  encoding : Option Str
  modifier : Option Str
  after : Str
  beforeWhite : ∀ c ∈ before, isWhitespace c = true
  afterWhite : ∀ c ∈ after, isWhitespace c = true
  same : (replace (ch '_') (ch '-') letters).map lowerChar = locale.map lowerChar

/-- A suffix of the locale and the character that announces it. -/
def suffixText (mark : Char) (suffix : Option Str) : Str := (suffix.map (ch mark :: ·)).getD []

def Respelling.text {locale : Str} (r : Respelling locale) : Str :=
  r.before ++ (r.letters ++
    (suffixText '.' r.encoding ++ (suffixText '@' r.modifier ++ r.after)))

/-- What `normalize_locale` takes from a string. -/
def readPart (s : Str) : Str := upTo (ch '.') (upTo (ch '@') (strip s))

/-! ### What is read of a spelling -/

theorem lowerChar_ascii {c : CodePoint} (h : (lowerChar c).val < 0x80) : c.val < 0x80 := by
  rw [lowerChar] at h
  split_ifs at h with hupper
  · simp only [Ascii.isUpper, Bool.and_eq_true, decide_eq_true_eq] at hupper
    omega
  · exact h

/-- The letters of a spelling are ASCII and read as those of the tag. -/
theorem Respelling.chars {t : LocaleTag} (r : Respelling (t.text.map ch)) :
    ∃ b : Chars, IsAscii b ∧ r.letters = b.map ch ∧ SameLetters (dashed b) t.text := by
  have hsame := r.same
  have hlower : (t.text.map ch).map lowerChar = (t.text.map Char.toLower).map ch := by
    rw [List.map_map, List.map_map]
    exact List.map_congr_left fun c hc => lowerChar_ch (isAscii_text t c hc)
  have hcode : ∀ c ∈ r.letters, c.val < 0x80 := by
    intro c hc
    by_cases hu : c = ch '_'
    · rw [hu]
      decide
    have hmem : lowerChar c ∈ (t.text.map Char.toLower).map ch := by
      rw [← hlower, ← hsame, replace, List.map_map]
      refine List.mem_map.mpr ⟨c, hc, ?_⟩
      rw [Function.comp_apply, if_neg hu]
    obtain ⟨d, hd, hdc⟩ := List.mem_map.mp hmem
    obtain ⟨e, he, rfl⟩ := List.mem_map.mp hd
    have hlt := toLower_lt (isAscii_text t e he)
    exact lowerChar_ascii (by rwa [← hdc, ch_val hlt])
  have hletters : r.letters = (r.letters.map ofCode).map ch := by
    rw [List.map_map]
    exact (List.map_id _).symm.trans
      (List.map_congr_left fun c hc => (ch_ofCode (hcode c hc)).symm)
  have hascii : IsAscii (r.letters.map ofCode) := List.forall_mem_map.mpr fun c hc => by
    rw [toNat_ofCode (hcode c hc)]
    exact hcode c hc
  refine ⟨r.letters.map ofCode, hascii, hletters, ?_⟩
  rw [hletters, replace_ascii hascii, hlower] at hsame
  have hdashed := isAscii_dashed hascii
  have hmap : ((dashed (r.letters.map ofCode)).map ch).map lowerChar =
      ((dashed (r.letters.map ofCode)).map Char.toLower).map ch := by
    rw [List.map_map, List.map_map]
    exact List.map_congr_left fun c hc => lowerChar_ch (hdashed c hc)
  rw [hmap] at hsame
  refine (map_ch_inj ?_ ?_).mp hsame
  · exact List.forall_mem_map.mpr fun c hc => toLower_lt (hdashed c hc)
  · exact List.forall_mem_map.mpr fun c hc => toLower_lt (isAscii_text t c hc)

theorem mem_dashed {b : Chars} {t : LocaleTag} (h : SameLetters (dashed b) t.text) :
    ∀ c ∈ b, c = '_' ∨ c = '-' ∨ c.isAlphanum = true := by
  intro c hc
  by_cases hu : c = '_'
  · exact .inl hu
  have hmem : c ∈ dashed b := List.mem_map.mpr ⟨c, hc, if_neg hu⟩
  have hlower : c.toLower ∈ t.text.map Char.toLower := h ▸ List.mem_map_of_mem hmem
  obtain ⟨d, hd, hdc⟩ := List.mem_map.mp hlower
  rcases mem_text hd with rfl | hd
  · exact .inr (.inl (toLower_eq_dash.mp hdc.symm))
  · refine .inr (.inr ?_)
    rw [← isAlphanum_toLower_eq, ← hdc, isAlphanum_toLower_eq, hd]

/-- Neither white space nor the mark of a suffix. -/
def Unmarked (c : CodePoint) : Prop :=
  isWhitespace c = false ∧ (decide (c ≠ ch '.') && decide (c ≠ ch '@')) = true

theorem unmarked_ch {c : Char} (h : c = '_' ∨ c = '-' ∨ c.isAlphanum = true) : Unmarked (ch c) := by
  rcases h with rfl | rfl | h
  · exact ⟨by decide, by decide⟩
  · exact ⟨by decide, by decide⟩
  have hlt := lt_of_isAlphanum h
  have hne : ∀ d : Char, d.toNat < 0x80 → d.isAlphanum = false → ch c ≠ ch d := by
    rintro d hd hnot heq
    rw [(ch_inj hlt hd).mp heq, hnot] at h
    cases h
  refine ⟨?_, ?_⟩
  · rw [isWhitespace_ch hlt]
    rw [← Ascii.isAlnum_toNat] at h
    simp only [Ascii.isAlnum, Ascii.isAlpha, Ascii.isUpper, Ascii.isLower, Ascii.isDigit,
      Bool.or_eq_true, Bool.and_eq_true, decide_eq_true_eq] at h
    simp only [isWhite, Bool.or_eq_false_iff, Bool.and_eq_false_iff, decide_eq_false_iff_not]
    omega
  · rw [Bool.and_eq_true, decide_eq_true_eq, decide_eq_true_eq]
    exact ⟨hne '.' (by decide) rfl, hne '@' (by decide) rfl⟩

theorem rdropWhile_white {xs ys : Str} (h : ∀ c ∈ ys, isWhitespace c = true) :
    (xs ++ ys).rdropWhile isWhitespace = xs.rdropWhile isWhitespace := by
  rw [List.rdropWhile, List.rdropWhile, List.reverse_append,
    List.dropWhile_append_of_pos fun c hc => h c (List.mem_reverse.mp hc)]

/-- What follows a character that is not white is cut down by itself. -/
theorem rdropWhile_append {xs : Str} (hne : xs ≠ []) (h : ∀ c ∈ xs, isWhitespace c = false)
    (ys : Str) : (xs ++ ys).rdropWhile isWhitespace = xs ++ ys.rdropWhile isWhitespace := by
  induction ys using List.reverseRecOn with
  | nil =>
    have hlast : ¬isWhitespace (xs.getLast hne) = true := by
      rw [h _ (List.getLast_mem hne)]
      exact Bool.false_ne_true
    have hself : xs.rdropWhile isWhitespace = xs :=
      List.rdropWhile_eq_self_iff.mpr fun _ => hlast
    rw [List.append_nil, hself, List.rdropWhile_nil, List.append_nil]
  | append_singleton ys c ih =>
    rw [← List.append_assoc]
    by_cases hc : isWhitespace c = true
    · rw [List.rdropWhile_concat_pos _ _ _ hc, List.rdropWhile_concat_pos _ _ _ hc, ih]
    · rw [List.rdropWhile_concat_neg _ _ _ hc, List.rdropWhile_concat_neg _ _ _ hc,
        List.append_assoc]

/-- A suffix begins with its mark. -/
theorem head_suffixes (encoding modifier : Option Str) :
    ∀ a ∈ (suffixText '.' encoding ++ suffixText '@' modifier).head?,
      (decide (a ≠ ch '.') && decide (a ≠ ch '@')) = false := by
  have hmarks : (decide (ch '.' ≠ ch '.') && decide (ch '.' ≠ ch '@')) = false ∧
      (decide (ch '@' ≠ ch '.') && decide (ch '@' ≠ ch '@')) = false := by decide
  intro a ha
  cases encoding with
  | some e =>
    obtain rfl := Option.some.inj ha
    exact hmarks.1
  | none =>
    cases modifier with
    | some m =>
      obtain rfl := Option.some.inj ha
      exact hmarks.2
    | none => cases ha

theorem upTo_upTo (a b : CodePoint) (s : Str) :
    upTo a (upTo b s) = s.takeWhile fun c => decide (c ≠ a) && decide (c ≠ b) := by
  rw [upTo, upTo, List.takeWhile_takeWhile]
  exact congrArg (List.takeWhile · s) (funext fun c => by simp)

/-- The letters of a spelling are all that is read of it. -/
theorem Respelling.reads {locale : Str} (r : Respelling locale) (hne : r.letters ≠ [])
    (h : ∀ c ∈ r.letters, Unmarked c) : strip r.text ≠ [] ∧ readPart r.text = r.letters := by
  have hwhite : ∀ c ∈ r.letters, isWhitespace c = false := fun c hc => (h c hc).1
  have hstrip : strip r.text = r.letters ++
      (suffixText '.' r.encoding ++ suffixText '@' r.modifier).rdropWhile isWhitespace := by
    obtain ⟨c, cs, hcs⟩ := List.exists_cons_of_ne_nil hne
    have hc : ¬isWhitespace c = true := by
      rw [hwhite c (by rw [hcs]; exact List.mem_cons_self)]
      exact Bool.false_ne_true
    have hdrop : r.text.dropWhile isWhitespace = (r.letters ++
        (suffixText '.' r.encoding ++ suffixText '@' r.modifier)) ++ r.after := by
      rw [text, List.dropWhile_append_of_pos r.beforeWhite, hcs, List.cons_append,
        List.dropWhile_cons_of_neg hc]
      simp
    rw [strip, hdrop, rdropWhile_white r.afterWhite, rdropWhile_append hne hwhite]
  refine ⟨by rw [hstrip]; exact List.append_ne_nil_of_left_ne_nil hne _, ?_⟩
  rw [readPart, upTo_upTo, hstrip]
  refine takeWhile_append_stop (fun c hc => (h c hc).2) fun a ha => ?_
  obtain ⟨rest, hrest⟩ := List.rdropWhile_prefix isWhitespace
    (suffixText '.' r.encoding ++ suffixText '@' r.modifier)
  apply head_suffixes r.encoding r.modifier
  rw [← hrest, List.head?_append, Option.mem_def.mp ha]
  rfl

/-! ### Normalising -/

/-- Only what is read of a string counts. -/
theorem normalizeLocale_congr {s t : Str} (hs : strip s ≠ []) (ht : strip t ≠ [])
    (h : readPart s = readPart t) : normalizeLocale u s = normalizeLocale u t := by
  rw [readPart, readPart] at h
  simp only [normalizeLocale, if_neg hs, if_neg ht, h]

theorem selectsDefault_eq (s : Str) : selectsDefault u s =
    (decide (readPart s = []) || decide (u.upper (readPart s) = str "C") ||
      decide (u.upper (readPart s) = str "POSIX")) := rfl

/-- A spelling by its letters alone. -/
def plainSpelling {locale : Str} (r : Respelling locale) : Respelling locale :=
  ⟨[], r.letters, none, none, [], List.forall_mem_nil _, List.forall_mem_nil _, r.same⟩

theorem plainSpelling_text {locale : Str} (r : Respelling locale) :
    (plainSpelling r).text = r.letters := by
  simp [plainSpelling, Respelling.text, suffixText]

/-- The letters of a spelling of a tag. -/
structure Letters (t : LocaleTag) (b : Chars) : Prop where
  ascii : IsAscii b
  same : SameLetters (dashed b) t.text
  nonempty : b ≠ []
  plain : ∀ c ∈ b.map ch, Unmarked c

theorem Respelling.exists_letters {t : LocaleTag} (r : Respelling (t.text.map ch)) :
    ∃ b, Letters t b ∧ r.letters = b.map ch ∧ strip r.text ≠ [] ∧ readPart r.text = b.map ch := by
  obtain ⟨b, hascii, hletters, hsame⟩ := r.chars
  have hplain : ∀ c ∈ b.map ch, Unmarked c :=
    List.forall_mem_map.mpr fun c hc => unmarked_ch (mem_dashed hsame c hc)
  have hne : b ≠ [] := by
    rintro rfl
    exact text_ne_nil t (List.length_eq_zero_iff.mp hsame.length.symm)
  have hreads := r.reads (by simpa [hletters] using hne) (hletters ▸ hplain)
  exact ⟨b, ⟨hascii, hsame, hne, hplain⟩, hletters, hreads.1, hletters ▸ hreads.2⟩

theorem dashed_self {b : Chars} (h : '_' ∉ b) : dashed b = b := by
  rw [dashed, map_eq_self_iff]
  intro c hc
  rw [if_neg]
  rintro rfl
  exact h hc

/-- A spelling that is a name of the default spells a locale of that name. -/
theorem Letters.text_of_upper {t : LocaleTag} (ht : t.IsCanonical) {b : Chars} (h : Letters t b)
    {name : Chars} (hname : ∀ c ∈ name, c.isAlpha = true) (hupper : b.map Char.toUpper = name) :
    t.text = t.language ∧ t.text = name.map Char.toLower := by
  have hunder : '_' ∉ b := fun hmem => by
    have := hname '_' (hupper ▸ List.mem_map_of_mem hmem)
    cases this
  have hsame := h.same
  rw [dashed_self hunder] at hsame
  apply Msys.I18n.text_of_upper ht hname
  calc t.text.map Char.toUpper = (t.text.map Char.toLower).map Char.toUpper := by simp
    _ = (b.map Char.toLower).map Char.toUpper := by rw [← hsame]
    _ = name := by simpa [Function.comp_def] using hupper

theorem readPart_ascii {s : Chars} (hs : IsAscii s) :
    readPart (s.map ch) = (pythonReads s).map ch := by
  have hstripped := isAscii_stripped hs
  have hmodifier := hstripped.of_sublist (List.takeWhile_prefix (· ≠ '@')).sublist
  rw [readPart, strip_ascii hs, upTo_ascii hstripped (by decide), upTo_ascii hmodifier (by decide)]
  rfl

theorem normalizeLocale_respelling {t : LocaleTag} (ht : t.IsCanonical)
    (hname : t.text ≠ "posix".toList) (r : Respelling (t.text.map ch)) :
    normalizeLocale u r.text = some (t.text.map ch) := by
  obtain ⟨b, hb, hletters, hstrip, hreads⟩ := r.exists_letters
  obtain ⟨t', ht', hcanonical⟩ := exists_tag hb.same
  -- the letters alone are a spelling too, and nothing else of the text is read
  obtain ⟨-, -, -, hstrip', hreads'⟩ := (plainSpelling r).exists_letters
  have hplain : (plainSpelling r).text = b.map ch := (plainSpelling_text r).trans hletters
  have hself : readPart (b.map ch) = b.map ch := by
    have := ((plainSpelling r).reads (by simpa [plainSpelling, hletters] using hb.nonempty)
      (by simpa only [plainSpelling, hletters] using hb.plain)).2
    rwa [hplain, plainSpelling, hletters] at this
  rw [hplain] at hstrip'
  rw [normalizeLocale_congr hstrip hstrip' (hreads.trans hself.symm), normalizeLocale_ascii hb.ascii]
  have hpython : pythonReads b = b := by
    rw [readPart_ascii hb.ascii] at hself
    refine (map_ch_inj ?_ hb.ascii).mp hself
    exact hb.ascii.of_sublist (((List.takeWhile_prefix _).sublist.trans
      (List.takeWhile_prefix _).sublist).trans ((List.rdropWhile_prefix _ _).sublist.trans
        (List.dropWhile_suffix _).sublist))
  have halpha : ∀ name : String, name.toList.all Char.isAlpha = true →
      ∀ c ∈ name.toList, c.isAlpha = true := fun name hname => List.all_eq_true.mp hname
  refine ⟨t', ⟨hpython.symm ▸ ht', fun hc => ?_, fun hposix => ?_⟩, ?_⟩
  · rw [hpython] at hc
    have hlanguage := (hb.text_of_upper ht (halpha "C" rfl) hc).1
    have hlen := congrArg List.length (hb.text_of_upper ht (halpha "C" rfl) hc).2
    rw [hlanguage] at hlen
    have := t.isLanguage.1
    rw [hlen] at this
    exact absurd this (by decide)
  · rw [hpython] at hposix
    exact hname (hb.text_of_upper ht (halpha "POSIX" rfl) hposix).2
  · rw [hcanonical, show t.canonical = t from ht]

/-- Every spelling of `posix` is a name of the default. -/
theorem selectsDefault_posix {t : LocaleTag} (hname : t.text = "posix".toList)
    (r : Respelling (t.text.map ch)) : selectsDefault u r.text = true := by
  obtain ⟨b, hb, -, -, hreads⟩ := r.exists_letters
  have hunder : '_' ∉ b := fun hmem => by
    have hdash : '-' ∈ dashed b := List.mem_map.mpr ⟨'_', hmem, if_pos rfl⟩
    have hlower : '-'.toLower ∈ t.text.map Char.toLower := hb.same ▸ List.mem_map_of_mem hdash
    rw [hname] at hlower
    revert hlower
    decide
  have hsame := hb.same
  rw [dashed_self hunder, hname] at hsame
  have hupper : u.upper (b.map ch) = str "POSIX" := by
    rw [u.upper_ascii b hb.ascii]
    have hposix : b.map Char.toUpper = "POSIX".toList :=
      calc b.map Char.toUpper = (b.map Char.toLower).map Char.toUpper := by simp
        _ = ("posix".toList.map Char.toLower).map Char.toUpper := by rw [hsame]
        _ = "POSIX".toList := by decide
    rw [hposix]
    rfl
  rw [selectsDefault_eq, hreads, hupper]
  simp

/-! ### Selecting -/

theorem head_subtagPrefixes {s : Str} (h : locale.rmatch s = true) :
    (subtagPrefixes s).head? = some s := by
  obtain ⟨l, ls, hsplit, -, -, hjoin⟩ := splitOn_locale h
  rw [subtagPrefixes, hsplit, Joined.head_beginnings [ch '-'] (List.cons_ne_nil l ls), hjoin]

/-- The chain begins with the locale it starts from, and the catalog has that locale. -/
theorem select_first {t : Translator} {l : Str}
    (hdefault : locale.rmatch t.catalog.defaultLocale = true)
    (hstart : startLocale u l t.catalog.defaultLocale = l)
    (hl : (t.catalog.messages.lookup l).isSome = true) : (t.select u l).1 = l := by
  have hlocale := locale_startLocale (u := u) l hdefault
  have hchain := localeCandidates_eq (u := u) l hdefault
  rw [hstart] at hlocale hchain
  obtain ⟨rest, hrest⟩ := List.head?_eq_some_iff.mp (head_subtagPrefixes hlocale)
  obtain ⟨more, hmore⟩ : ∃ more, localeCandidates u l t.catalog.defaultLocale = l :: more := by
    rw [hchain, hrest]
    split_ifs
    · exact ⟨rest, rfl⟩
    · exact ⟨rest ++ [t.catalog.defaultLocale], rfl⟩
  have hfirst : (t.available u l).headD [] = l := by
    have hfound : ∃ found, (localeCandidates u l t.catalog.defaultLocale).filter (fun item =>
        (t.catalog.messages.lookup item).isSome) = l :: found := by
      rw [hmore, List.filter_cons, if_pos hl]
      exact ⟨_, rfl⟩
    obtain ⟨found, hfound⟩ := hfound
    rw [Translator.available, hfound, if_neg (List.cons_ne_nil _ _)]
    rfl
  rw [Translator.select]
  simp only [hfirst, ne_eq, not_true_eq_false, if_false]

/-- The locales of an accepted catalog are canonical. -/
theorem Catalog.Valid.tag {c : Catalog} (h : c.Valid u) {l : Str} (hl : l ∈ c.messages.map Prod.fst) :
    ∃ t : LocaleTag, t.IsCanonical ∧ l = t.text.map ch := by
  obtain ⟨e, he, rfl⟩ := List.mem_map.mp hl
  have hlocale := (h.locales e he).locale
  rw [isLocale, Bool.and_eq_true] at hlocale
  exact locale_iff.mp hlocale.2

theorem Catalog.Valid.default_mem {c : Catalog} (h : c.Valid u) :
    c.defaultLocale ∈ c.messages.map Prod.fst := by
  obtain ⟨m, hm⟩ := h.default
  exact List.mem_map.mpr ⟨_, hm, rfl⟩

theorem lookup_mem {c : Catalog} {l : Str} (hl : l ∈ c.messages.map Prod.fst) :
    (c.messages.lookup l).isSome = true := by
  obtain ⟨e, he, rfl⟩ := List.mem_map.mp hl
  exact List.lookup_isSome_iff.mpr ⟨e, he, by simp⟩

theorem setLocale_explicit (t : Translator) {s l : Str} (h : normalizeLocale u s = some l)
    (environ : Str → Option Str) : (t.setLocale u (some s) environ).1 = (t.select u l).1 := by
  have hselects : selectsDefault u s = false := by
    rw [← Bool.not_eq_true]
    intro hdefault
    rw [selectsDefault_none hdefault] at h
    cases h
  rw [Translator.setLocale, Translator.request, rawLocale]
  simp only [hselects, Bool.false_eq_true, if_false, h]

theorem setLocale_default (t : Translator) {s : Str} (h : selectsDefault u s = true)
    (environ : Str → Option Str) :
    (t.setLocale u (some s) environ).1 = (t.select u t.catalog.defaultLocale).1 := by
  rw [Translator.setLocale, Translator.request, rawLocale]
  simp only [h, if_true]

/-! ### Normalising twice -/

theorem takeScript_nil {parts rest : List Str} (h : takeScript u parts = ([], rest)) :
    rest = parts := by
  cases parts with
  | nil =>
    cases h
    rfl
  | cons part parts =>
    rw [takeScript] at h
    split_ifs at h
    · cases h
    · exact (Prod.mk.inj h).2.symm

theorem takeRegion_nil {parts rest : List Str} (h : takeRegion u parts = ([], rest)) :
    rest = parts := by
  cases parts with
  | nil =>
    cases h
    rfl
  | cons part parts =>
    rw [takeRegion] at h
    split_ifs at h
    · cases h
    · exact (Prod.mk.inj h).2.symm

theorem takeVariants_nil {parts : List Str} (h : takeVariants u parts = some []) : parts = [] := by
  cases parts with
  | nil => rfl
  | cons part parts =>
    rw [takeVariants] at h
    split_ifs at h
    obtain ⟨variants, -, hnil⟩ := Option.map_eq_some_iff.mp h
    cases hnil

/-- Canonical subtags that consist of a language come from a language. -/
theorem canonicalParts_language {parts : List Str} {language : Str}
    (h : canonicalParts u parts = some [language]) :
    ∃ spelled, parts = [spelled] ∧ u.lower spelled = language := by
  cases parts with
  | nil => cases h
  | cons spelled parts =>
    rw [canonicalParts] at h
    split_ifs at h
    obtain ⟨script, afterScript, hscript⟩ : ∃ a b, takeScript u parts = (a, b) := ⟨_, _, rfl⟩
    obtain ⟨region, afterRegion, hregion⟩ : ∃ a b, takeRegion u afterScript = (a, b) := ⟨_, _, rfl⟩
    simp only [hscript, hregion] at h
    obtain ⟨variants, hvariants, hparts⟩ := Option.map_eq_some_iff.mp h
    obtain ⟨hlanguage, hrest⟩ := List.cons.inj hparts
    obtain ⟨rfl, htail⟩ := List.append_eq_nil_iff.mp hrest
    obtain ⟨rfl, rfl⟩ := List.append_eq_nil_iff.mp htail
    obtain rfl := takeScript_nil hscript
    obtain rfl := takeRegion_nil hregion
    obtain rfl := takeVariants_nil hvariants
    exact ⟨spelled, rfl, hlanguage⟩

theorem not_mem_of_splitOn {a : CodePoint} {s x : Str} (h : s.splitOn a = [x]) : a ∉ s ∧ s = x := by
  refine ⟨fun hmem => ?_, ?_⟩
  · obtain ⟨xs, ys, rfl⟩ := List.append_of_mem hmem
    have hlen := congrArg List.length h
    rw [List.splitOn_append_cons_self, List.length_append] at hlen
    have hx := List.length_pos_of_ne_nil (List.splitOn_ne_nil a xs)
    have hy := List.length_pos_of_ne_nil (List.splitOn_ne_nil a ys)
    simp only [List.length_singleton] at hlen
    omega
  · have hjoin : [a].intercalate (s.splitOn a) = s := List.intercalate_splitOn a
    rw [← hjoin, h, List.intercalate_singleton]

/-- No other letters than those of POSIX have the lower case of `posix`. -/
def CasesPosix (u : UnicodeData) : Prop :=
  ∀ s : Str, u.lower s = str "posix" → u.upper s = str "POSIX"

theorem normalizeLocale_not_posix (hu : CasesPosix u) {s n : Str}
    (h : normalizeLocale u s = some n) : n ≠ str "posix" := by
  rintro rfl
  simp only [normalizeLocale] at h
  split_ifs at h with hnil hdefault
  rw [← readPart] at hdefault h
  split at h
  · cases h
  next canonical hcanonical =>
    split_ifs at h
    have hjoin := Option.some.inj h
    have hdash : ch '-' ∉ str "posix" := by decide
    obtain ⟨language, rfl, rfl⟩ : ∃ language, canonical = [language] ∧ language = str "posix" := by
      cases canonical with
      | nil => cases hjoin
      | cons language rest =>
        rw [Joined.intercalate_singleton] at hjoin
        cases rest with
        | nil => exact ⟨language, rfl, by simpa using hjoin⟩
        | cons m rest =>
          rw [← hjoin] at hdash
          exact absurd (by simp) hdash
    obtain ⟨spelled, hsplit, hlower⟩ := canonicalParts_language hcanonical
    obtain ⟨hfree, hreplaced⟩ := not_mem_of_splitOn hsplit
    -- one subtag: nothing was replaced
    have hself : replace (ch '_') (ch '-') (readPart s) = readPart s := by
      refine (List.map_congr_left fun c hc => ?_).trans (List.map_id _)
      rw [if_neg]
      · rfl
      · rintro rfl
        exact hfree (List.mem_map.mpr ⟨_, hc, if_pos rfl⟩)
    rw [← hreplaced, hself] at hlower
    simp [hu _ hlower] at hdefault

/-- A normalised locale is its own normal form. -/
theorem normalizeLocale_idempotent (hu : CasesPosix u) {s n : Str}
    (h : normalizeLocale u s = some n) : normalizeLocale u n = some n := by
  obtain ⟨t, ht, rfl⟩ := normalizeLocale_canonical h
  refine normalizeLocale_text ht fun hname => normalizeLocale_not_posix hu h ?_
  rw [hname]
  rfl

/-! ### The locales of a catalog -/

theorem startLocale_default {t : LocaleTag} (ht : t.IsCanonical) :
    startLocale u (t.text.map ch) (t.text.map ch) = t.text.map ch := by
  rw [startLocale]
  by_cases hname : t.text = "posix".toList
  · have hposix : t.text.map ch = str "posix" := by
      rw [hname]
      rfl
    rw [hposix, (normalize_posix (u := u) fun _ => 0).1]
    rfl
  · rw [normalizeLocale_text ht hname]
    rfl

/-- The locales of a catalog can be selected under every spelling, but for `posix`, which under
every spelling selects the default locale; and no normal form changes when it is normalised. -/
theorem shipped_locale_selected {p : Printer} (hu : CasesPosix p.unicode) {document : Document}
    {c : Catalog} (h : fromMapping p document = .ok c) :
    (∀ l ∈ c.messages.map Prod.fst, ∀ (r : Respelling l) (t : Translator), t.catalog = c →
      ∀ environ : Str → Option Str,
        (l ≠ str "posix" → normalizeLocale p.unicode r.text = some l ∧
          (t.setLocale p.unicode (some r.text) environ).1 = l) ∧
        (l = str "posix" → normalizeLocale p.unicode r.text = none ∧
          (t.setLocale p.unicode (some r.text) environ).1 = c.defaultLocale)) ∧
      ∀ s n, normalizeLocale p.unicode s = some n → normalizeLocale p.unicode n = some n := by
  refine ⟨?_, fun s n => normalizeLocale_idempotent hu⟩
  have hvalid := fromMapping_valid h
  obtain ⟨d, hd, hdefault⟩ := hvalid.tag hvalid.default_mem
  have hlocale : locale.rmatch c.defaultLocale = true := locale_iff.mpr ⟨d, hd, hdefault⟩
  rintro l hl r t rfl environ
  obtain ⟨tag, htag, rfl⟩ := hvalid.tag hl
  have hposix : str "posix" = "posix".toList.map ch := rfl
  rw [hposix]
  refine ⟨fun hne => ?_, fun heq => ?_⟩
  · have hname : tag.text ≠ "posix".toList := fun hname => hne (by rw [hname])
    have hnormal := normalizeLocale_respelling (u := p.unicode) htag hname r
    refine ⟨hnormal, ?_⟩
    rw [setLocale_explicit t hnormal]
    refine select_first hlocale ?_ (lookup_mem hl)
    rw [startLocale, normalizeLocale_text htag hname]
    rfl
  · have hname : tag.text = "posix".toList :=
      (map_ch_inj (isAscii_text tag) (ascii_of_all rfl)).mp heq
    have hselects := selectsDefault_posix (u := p.unicode) hname r
    refine ⟨selectsDefault_none hselects, ?_⟩
    rw [setLocale_default t hselects]
    refine select_first hlocale ?_ (lookup_mem hvalid.default_mem)
    rw [hdefault]
    exact startLocale_default hd

/-- The name alone. -/
def itself (locale : Str) (h : (replace (ch '_') (ch '-') locale).map lowerChar =
    locale.map lowerChar) : Respelling locale :=
  ⟨[], locale, none, none, [], List.forall_mem_nil _, List.forall_mem_nil _, h⟩

/-- French between blanks, in capitals and with an encoding. -/
def frenchSpelling : Respelling (str "fr") :=
  ⟨str " ", str "FR", some (str "UTF-8"), none, str "  ",
    List.all_eq_true.mp (by decide +kernel), List.all_eq_true.mp (by decide +kernel),
    by decide +kernel⟩

theorem casesPosix_ascii : CasesPosix .ascii := by
  intro s hs
  have hupper : ∀ c, UnicodeData.upperChar c = UnicodeData.upperChar (lowerChar c) := by
    intro c
    rw [lowerChar]
    split_ifs with h
    · simp only [Ascii.isUpper, Bool.and_eq_true, decide_eq_true_eq] at h
      have hval : (CodePoint.ofNat (c.val + 32)).val = c.val + 32 := Nat.mod_eq_of_lt (by omega)
      have hback : CodePoint.ofNat (c.val + 32 - 32) = c := by
        rw [Nat.add_sub_cancel]
        exact Fin.ext (Nat.mod_eq_of_lt c.isLt)
      rw [UnicodeData.upperChar, UnicodeData.upperChar, hval, hback, if_neg, if_pos]
      · simp only [Ascii.isLower, Bool.and_eq_true, decide_eq_true_eq]
        omega
      · simp only [Ascii.isLower, Bool.and_eq_true, decide_eq_true_eq]
        omega
    · rfl
  calc s.map UnicodeData.upperChar = (s.map lowerChar).map UnicodeData.upperChar := by
        rw [List.map_map]
        exact List.map_congr_left fun c _ => hupper c
    _ = (str "posix").map UnicodeData.upperChar := congrArg _ hs
    _ = str "POSIX" := by decide +kernel

theorem shipped_locale_selected_french :
    normalizeLocale .ascii (str " FR.UTF-8  ") = some (str "fr") := by
  exact (((shipped_locale_selected casesPosix_ascii greetings_accepted).1 (str "fr")
    (by decide +kernel) frenchSpelling ⟨greetings, 8, [], [], [], []⟩ rfl fun _ => none).1 (by decide)).1

/-- A catalog with a locale by the name of `posix`. -/
def posixOverlay : Catalog where
  id := str "org.msys.greetings"
  defaultLocale := str "en"
  messages :=
    [(str "en", [(str "greeting", str "Hello")]), (str "posix", [(str "greeting", str "Hi")])]
  description := none

def overlayDocument : Document where
  value := .dict
    [(.str (str "schema"), .str catalogSchema), (.str (str "id"), .str posixOverlay.id),
      (.str (str "default_locale"), .str posixOverlay.defaultLocale),
      (.str (str "messages"), .dict (embedMessages posixOverlay.messages))]
  distinct := by decide +kernel

/-- The locale by that name normalises to nothing, and asking for it selects the default. -/
theorem posix_not_selected : ¬∀ (document : Document) (c : Catalog),
    fromMapping ⟨.ascii, fun _ => [], fun _ => []⟩ document = .ok c →
    ∀ l ∈ c.messages.map Prod.fst, ∀ (r : Respelling l) (t : Translator), t.catalog = c →
    ∀ environ : Str → Option Str, normalizeLocale .ascii r.text = some l ∧
      (t.setLocale .ascii (some r.text) environ).1 = l := by
  intro h
  have heq := (h overlayDocument posixOverlay (by decide +kernel) (str "posix") (by decide +kernel)
    (itself (str "posix") (by decide +kernel)) ⟨posixOverlay, 8, [], [], [], []⟩ rfl
    fun _ => none).2
  revert heq
  decide +kernel

end Msys.I18n
