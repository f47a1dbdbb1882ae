import MsysSdk.I18n.Patterns

/-! Locales in Python: an ASCII string normalises exactly if what is read of it spells a locale
tag, and then to that tag in its canonical case. -/

namespace Msys.I18n
open Python LocaleTag

variable (u : UnicodeData)

/-- The optional script, and the parts after it. -/
def takeScript : List Str → List Str × List Str
  | [] => ([], [])
  | part :: parts =>
    if part.length = 4 && u.isalpha part then ([u.title part], parts) else ([], part :: parts)

/-- The optional region, and the parts after it. -/
def takeRegion : List Str → List Str × List Str
  | [] => ([], [])
  | part :: parts =>
    if (part.length = 2 && u.isalpha part) || (part.length = 3 && u.isdigit part) then
      ([u.upper part], parts)
    else ([], part :: parts)

def takeVariants : List Str → Option (List Str)
  | [] => some []
  | part :: parts =>
    if !isAscii part || !u.isalnum part then none
    else if !((5 ≤ part.length && part.length ≤ 8) ||
        (part.length = 4 && u.isdigit (part.take 1))) then none
    else (takeVariants parts).map (u.lower part :: ·)

def canonicalParts : List Str → Option (List Str)
  | [] => none
  | language :: parts =>
    if !(2 ≤ language.length && language.length ≤ 8) || !u.isalpha language then none
    else
      let (script, parts) := takeScript u parts
      let (region, parts) := takeRegion u parts
      (takeVariants u parts).map fun variants =>
        u.lower language :: (script ++ (region ++ variants))

def normalizeLocale (value : Str) : Option Str :=
  let raw := strip value
  if raw = [] then none
  else
    let withoutEncoding := upTo (ch '.') (upTo (ch '@') raw)
    if u.upper withoutEncoding = str "C" || u.upper withoutEncoding = str "POSIX" then none
    else
      match canonicalParts u ((replace (ch '_') (ch '-') withoutEncoding).splitOn (ch '-')) with
      | none => none
      | some canonical =>
        let result := [ch '-'].intercalate canonical
        if locale.rmatch result then some result else none

/-! ### ASCII -/

def IsAscii (s : Chars) : Prop := ∀ c ∈ s, c.toNat < 0x80

instance : DecidablePred IsAscii := fun s =>
  decidable_of_iff (s.all (fun c => c.toNat < 0x80) = true) (by simp [IsAscii])

variable {u}

theorem isalpha_iff {s : Chars} (hs : IsAscii s) :
    u.isalpha (s.map ch) = true ↔ s ≠ [] ∧ ∀ c ∈ s, c.isAlpha = true := by
  rw [UnicodeData.isalpha, Encoded.all fun c hc => u.isAlpha_ascii c (hs c hc)]
  simp

theorem isdigit_iff {s : Chars} (hs : IsAscii s) :
    u.isdigit (s.map ch) = true ↔ s ≠ [] ∧ ∀ c ∈ s, c.isDigit = true := by
  rw [UnicodeData.isdigit, Encoded.all fun c hc => u.isDigit_ascii c (hs c hc)]
  simp

theorem isalnum_iff {s : Chars} (hs : IsAscii s) :
    u.isalnum (s.map ch) = true ↔ s ≠ [] ∧ ∀ c ∈ s, c.isAlphanum = true := by
  rw [UnicodeData.isalnum, Encoded.all fun c hc => u.isAlnum_ascii c (hs c hc)]
  simp

theorem isAscii_map {s : Chars} (hs : IsAscii s) : isAscii (s.map ch) = true := by
  rw [isAscii, List.all_eq_true, List.forall_mem_map]
  intro c hc
  rw [ch_val (hs c hc)]
  simpa using hs c hc

theorem takeScript_ascii {parts : List Chars} (h : ∀ s ∈ parts, IsAscii s) :
    ∃ (script : Option Chars) (rest : List Chars), parts = script.toList ++ rest ∧
      takeScript u (parts.map (List.map ch)) =
        ((script.map titled).toList.map (List.map ch), rest.map (List.map ch)) ∧
      (∀ s ∈ script, IsScript s) ∧ (script = none → ∀ s ∈ rest.head?, ¬IsScript s) := by
  cases parts with
  | nil => exact ⟨none, [], rfl, rfl, by simp, by simp⟩
  | cons s parts =>
    have hiff : ((s.map ch).length = 4 && u.isalpha (s.map ch)) = true ↔ IsScript s := by
      rw [Bool.and_eq_true, decide_eq_true_eq, isalpha_iff (h s List.mem_cons_self),
        List.length_map, IsScript]
      refine and_congr_right fun hlen => and_iff_right ?_
      rintro rfl
      cases hlen
    rw [List.map_cons, takeScript]
    by_cases hs : IsScript s
    · refine ⟨some s, parts, rfl, ?_, by simpa using hs, by simp⟩
      rw [if_pos (hiff.mpr hs), u.title_ascii s hs.2]
      rfl
    · refine ⟨none, s :: parts, rfl, ?_, by simp, by simpa using hs⟩
      rw [if_neg (mt hiff.mp hs)]
      rfl

theorem takeRegion_ascii {parts : List Chars} (h : ∀ s ∈ parts, IsAscii s) :
    ∃ (region : Option Chars) (rest : List Chars), parts = region.toList ++ rest ∧
      takeRegion u (parts.map (List.map ch)) =
        ((region.map (List.map Char.toUpper)).toList.map (List.map ch),
          rest.map (List.map ch)) ∧
      (∀ s ∈ region, IsRegion s) ∧ (region = none → ∀ s ∈ rest.head?, ¬IsRegion s) := by
  cases parts with
  | nil => exact ⟨none, [], rfl, rfl, by simp, by simp⟩
  | cons s parts =>
    have hs := h s List.mem_cons_self
    have hiff : (((s.map ch).length = 2 && u.isalpha (s.map ch)) ||
        ((s.map ch).length = 3 && u.isdigit (s.map ch))) = true ↔ IsRegion s := by
      rw [Bool.or_eq_true, Bool.and_eq_true, Bool.and_eq_true, decide_eq_true_eq,
        decide_eq_true_eq, isalpha_iff hs, isdigit_iff hs, List.length_map, IsRegion]
      refine or_congr (and_congr_right fun hlen => and_iff_right ?_)
        (and_congr_right fun hlen => and_iff_right ?_) <;> rintro rfl <;> cases hlen
    rw [List.map_cons, takeRegion]
    by_cases hregion : IsRegion s
    · refine ⟨some s, parts, rfl, ?_, by simpa using hregion, by simp⟩
      rw [if_pos (hiff.mpr hregion), u.upper_ascii s hs]
      rfl
    · refine ⟨none, s :: parts, rfl, ?_, by simp, by simpa using hregion⟩
      rw [if_neg (mt hiff.mp hregion)]
      rfl

theorem startsWithDigit_iff {s : Chars} (hs : IsAscii s) :
    u.isdigit ((s.map ch).take 1) = true ↔ startsWithDigit s := by
  rw [← List.map_take, isdigit_iff fun c hc => hs c (List.mem_of_mem_take hc), startsWithDigit]
  cases s <;> simp

theorem takeVariants_ascii {parts : List Chars} (h : ∀ s ∈ parts, IsAscii s) (out : List Str) :
    takeVariants u (parts.map (List.map ch)) = some out ↔
      (∀ s ∈ parts, IsVariant s) ∧ out = (parts.map (List.map Char.toLower)).map (List.map ch) := by
  induction parts generalizing out with
  | nil => simp [takeVariants, eq_comm]
  | cons s parts ih =>
    obtain ⟨hs, hrest⟩ := List.forall_mem_cons.mp h
    have halnum : (!isAscii (s.map ch) || !u.isalnum (s.map ch)) = false ↔
        s ≠ [] ∧ ∀ c ∈ s, c.isAlphanum = true := by
      rw [isAscii_map hs, Bool.not_true, Bool.false_or, Bool.not_eq_false', isalnum_iff hs]
    have hshape : (!((5 ≤ (s.map ch).length && (s.map ch).length ≤ 8) ||
        ((s.map ch).length = 4 && u.isdigit ((s.map ch).take 1)))) = false ↔
        (5 ≤ s.length ∧ s.length ≤ 8) ∨ (s.length = 4 ∧ startsWithDigit s) := by
      rw [Bool.not_eq_false', Bool.or_eq_true, Bool.and_eq_true, Bool.and_eq_true,
        decide_eq_true_eq, decide_eq_true_eq, decide_eq_true_eq, List.length_map,
        startsWithDigit_iff hs]
    have hvariant : IsVariant s ↔ (s ≠ [] ∧ ∀ c ∈ s, c.isAlphanum = true) ∧
        ((5 ≤ s.length ∧ s.length ≤ 8) ∨ (s.length = 4 ∧ startsWithDigit s)) := by
      rw [IsVariant]
      refine and_congr_left fun hlen => (and_iff_right ?_).symm
      rintro rfl
      simp at hlen
    rw [List.map_cons, takeVariants, List.forall_mem_cons, hvariant]
    by_cases h₁ : s ≠ [] ∧ ∀ c ∈ s, c.isAlphanum = true
    swap
    · rw [if_pos (Bool.of_not_eq_false (mt halnum.mp h₁))]
      simp [h₁]
    by_cases h₂ : (5 ≤ s.length ∧ s.length ≤ 8) ∨ (s.length = 4 ∧ startsWithDigit s)
    swap
    · rw [halnum.mpr h₁, if_neg Bool.false_ne_true,
        if_pos (Bool.of_not_eq_false (mt hshape.mp h₂))]
      simp [h₂]
    rw [halnum.mpr h₁, hshape.mpr h₂, if_neg Bool.false_ne_true, if_neg Bool.false_ne_true,
      Option.map_eq_some_iff]
    simp only [ih hrest, u.lower_ascii s hs]
    constructor
    · rintro ⟨_, ⟨hall, rfl⟩, rfl⟩
      exact ⟨⟨⟨h₁, h₂⟩, hall⟩, rfl⟩
    · rintro ⟨⟨-, hall⟩, rfl⟩
      exact ⟨_, ⟨hall, rfl⟩, rfl⟩

theorem canonicalParts_ascii {parts : List Chars} (h : ∀ s ∈ parts, IsAscii s) (out : List Str) :
    canonicalParts u (parts.map (List.map ch)) = some out ↔
      ∃ t : LocaleTag, parts = t.parts ∧ out = t.canonical.parts.map (List.map ch) := by
  cases parts with
  | nil =>
    refine ⟨fun hout => (by cases hout), ?_⟩
    rintro ⟨t, ht, -⟩
    cases ht
  | cons l parts =>
    obtain ⟨hl, hparts⟩ := List.forall_mem_cons.mp h
    have hlanguage : (!(2 ≤ (l.map ch).length && (l.map ch).length ≤ 8) ||
        !u.isalpha (l.map ch)) = false ↔ IsLanguage l := by
      have halpha := isalpha_iff (u := u) hl
      simp only [Bool.or_eq_false_iff, Bool.not_eq_eq_eq_not, Bool.not_false, Bool.and_eq_true,
        decide_eq_true_eq, List.length_map, halpha, IsLanguage]
      constructor
      · rintro ⟨⟨hlo, hhi⟩, -, hall⟩
        exact ⟨hlo, hhi, hall⟩
      · rintro ⟨hlo, hhi, hall⟩
        refine ⟨⟨hlo, hhi⟩, ?_, hall⟩
        rintro rfl
        cases hlo
    obtain ⟨s, rest, rfl, hscript, hs, hsnone⟩ := takeScript_ascii (u := u) hparts
    have hrest := (List.forall_mem_append.mp hparts).2
    obtain ⟨r, vs, rfl, hregion, hr, hrnone⟩ := takeRegion_ascii (u := u) hrest
    have hvs := (List.forall_mem_append.mp hrest).2
    rw [List.map_cons, canonicalParts]
    by_cases hlang : IsLanguage l
    · rw [hlanguage.mpr hlang, if_neg Bool.false_ne_true, hscript]
      simp only [hregion, Option.map_eq_some_iff, takeVariants_ascii hvs]
      constructor
      · rintro ⟨_, ⟨hv, rfl⟩, rfl⟩
        refine ⟨⟨l, s, r, vs, hlang, hs, hr, hv⟩, rfl, ?_⟩
        simp [LocaleTag.parts, canonical, u.lower_ascii l hl]
      · rintro ⟨t, ht, rfl⟩
        obtain ⟨rfl, hscripts⟩ := List.cons.inj ht
        obtain ⟨rfl, hregions⟩ := optional_inj hs t.isScript hsnone
          (fun _ => not_script_of_head t.isRegion t.isVariant) hscripts
        obtain ⟨rfl, rfl⟩ := optional_inj hr t.isRegion hrnone
          (fun _ => not_region_of_head t.isVariant) hregions
        refine ⟨_, ⟨t.isVariant, rfl⟩, ?_⟩
        simp [LocaleTag.parts, canonical, u.lower_ascii t.language hl]
    · rw [if_pos (Bool.of_not_eq_false (mt hlanguage.mp hlang))]
      refine ⟨fun hout => (by cases hout), ?_⟩
      rintro ⟨t, ht, -⟩
      obtain ⟨rfl, -⟩ := List.cons.inj ht
      exact absurd t.isLanguage hlang

def isWhite (c : Char) : Bool :=
  (9 ≤ c.toNat && c.toNat ≤ 13) || (28 ≤ c.toNat && c.toNat ≤ 32)

theorem isWhitespace_ch {c : Char} (h : c.toNat < 0x80) : isWhitespace (ch c) = isWhite c := by
  rw [isWhitespace, ch_val h, isWhite]
  have hhigh : ∀ n, 0x80 ≤ n → (decide (c.toNat = n)) = false := by
    intro n hn
    rw [decide_eq_false_iff_not]
    omega
  have hrange : ∀ n m, 0x80 ≤ n → (decide (n ≤ c.toNat) && decide (c.toNat ≤ m)) = false := by
    intro n m hn
    rw [Bool.and_eq_false_iff, decide_eq_false_iff_not]
    exact .inl (by omega)
  simp only [hhigh 0x85 (by decide), hhigh 0xA0 (by decide), hhigh 0x1680 (by decide),
    hhigh 0x2028 (by decide), hhigh 0x2029 (by decide), hhigh 0x202F (by decide),
    hhigh 0x205F (by decide), hhigh 0x3000 (by decide), hrange 0x2000 0x200A (by decide),
    Bool.or_false]

/-- The part of an ASCII string from which `normalize_locale` takes the subtags. -/
def pythonReads (s : Chars) : Chars :=
  (((s.dropWhile isWhite).rdropWhile isWhite).takeWhile (· ≠ '@')).takeWhile (· ≠ '.')

def dashed (s : Chars) : Chars := s.map fun c => if c = '_' then '-' else c

/-- The text spells the tag, and is not one of the two names of the default. -/
def Spells (s : Chars) (t : LocaleTag) : Prop :=
  dashed s = t.text ∧ s.map Char.toUpper ≠ "C".toList ∧ s.map Char.toUpper ≠ "POSIX".toList

theorem not_spells_nil (t : LocaleTag) : ¬Spells [] t := by
  rintro ⟨htext, -⟩
  obtain ⟨hlanguage, -⟩ := List.cons.inj (splitOn_eq_iff.mpr htext)
  have := t.isLanguage.1
  rw [← hlanguage] at this
  cases this

theorem IsAscii.of_sublist {s t : Chars} (h : IsAscii t) (hs : s.Sublist t) : IsAscii s :=
  fun c hc => h c (hs.subset hc)

/-- What is in front of the last dash. -/
def parent (s : Chars) : Chars := (s.rdropWhile (· ≠ '-')).dropLast

theorem parent_prefix {s : Chars} (h : '-' ∈ s) : parent s ++ ['-'] <+: s := by
  have hne : s.rdropWhile (· ≠ '-') ≠ [] := by
    rw [Ne, List.rdropWhile_eq_nil_iff]
    exact fun hall => by simpa using hall '-' h
  have hlast : (s.rdropWhile (· ≠ '-')).getLast hne = '-' := by
    simpa using List.rdropWhile_last_not _ _ hne
  have hsplit := List.dropLast_append_getLast hne
  rw [hlast] at hsplit
  rw [parent, hsplit]
  exact List.rdropWhile_prefix ..

theorem parent_nil {s : Chars} (h : '-' ∉ s) : parent s = [] := by
  have hnil : s.rdropWhile (· ≠ '-') = [] := List.rdropWhile_eq_nil_iff.mpr fun c hc => by
    simpa using ne_of_mem_of_not_mem hc h
  rw [parent, hnil]
  rfl

theorem beforeLast_ascii {s : Chars} (hs : IsAscii s) :
    beforeLast (ch '-') (s.map ch) = (parent s).map ch := by
  have hcut : (s.map ch).rdropWhile (· ≠ ch '-') = (s.rdropWhile (· ≠ '-')).map ch :=
    Encoded.rdropWhile fun c hc =>
      decide_eq_decide.mpr (not_congr (ch_inj (hs c hc) (show '-'.toNat < 0x80 by decide)))
  rw [beforeLast, hcut, ← List.map_dropLast, parent]

theorem strip_ascii {s : Chars} (hs : IsAscii s) :
    strip (s.map ch) = ((s.dropWhile isWhite).rdropWhile isWhite).map ch := by
  have hdrop := hs.of_sublist (List.dropWhile_suffix isWhite).sublist
  rw [strip, Encoded.dropWhile fun c hc => isWhitespace_ch (hs c hc),
    Encoded.rdropWhile fun c hc => isWhitespace_ch (hdrop c hc)]

theorem upTo_ascii {s : Chars} (hs : IsAscii s) {d : Char} (hd : d.toNat < 0x80) :
    upTo (ch d) (s.map ch) = (s.takeWhile (· ≠ d)).map ch :=
  Encoded.takeWhile fun c hc => decide_eq_decide.mpr (not_congr (ch_inj (hs c hc) hd))

theorem replace_ascii {s : Chars} (hs : IsAscii s) :
    replace (ch '_') (ch '-') (s.map ch) = (dashed s).map ch := by
  rw [replace, dashed, List.map_map, List.map_map]
  refine List.map_congr_left fun c hc => ?_
  simp only [Function.comp_apply, ch_inj (hs c hc) (show '_'.toNat < 0x80 by decide)]
  split_ifs <;> rfl

theorem isAscii_dashed {s : Chars} (hs : IsAscii s) : IsAscii (dashed s) := by
  refine List.forall_mem_map.mpr fun c hc => ?_
  split_ifs
  · decide
  · exact hs c hc

theorem isAscii_stripped {s : Chars} (hs : IsAscii s) :
    IsAscii ((s.dropWhile isWhite).rdropWhile isWhite) :=
  hs.of_sublist ((List.rdropWhile_prefix isWhite (s.dropWhile isWhite)).sublist.trans
    (List.dropWhile_suffix _).sublist)

theorem isAscii_parts {t : LocaleTag} : ∀ s ∈ t.parts, IsAscii s := fun _ hs c hc =>
  lt_of_isAlphanum (isAlphanum_of_mem hs c hc)

/-- `normalize_locale` on an ASCII string. -/
theorem normalizeLocale_ascii {s : Chars} (hs : IsAscii s) (out : Str) :
    normalizeLocale u (s.map ch) = some out ↔
      ∃ t, Spells (pythonReads s) t ∧ out = t.canonical.text.map ch := by
  have hstripped := isAscii_stripped hs
  have hmodifier := hstripped.of_sublist (List.takeWhile_prefix (· ≠ '@')).sublist
  have hreads : IsAscii (pythonReads s) := hmodifier.of_sublist (List.takeWhile_prefix _).sublist
  have hpart : upTo (ch '.') (upTo (ch '@') (strip (s.map ch))) = (pythonReads s).map ch := by
    rw [strip_ascii hs, upTo_ascii hstripped (by decide), upTo_ascii hmodifier (by decide)]
    rfl
  have hupper : IsAscii ((pythonReads s).map Char.toUpper) :=
    List.forall_mem_map.mpr fun c hc => toUpper_lt (hreads c hc)
  have hdashed : ∀ l ∈ (dashed (pythonReads s)).splitOn '-', IsAscii l := fun l hl c hc =>
    isAscii_dashed hreads c (Encoded.mem_of_mem_splitOn hl hc)
  have hsplit : (replace (ch '_') (ch '-') ((pythonReads s).map ch)).splitOn (ch '-') =
      ((dashed (pythonReads s)).splitOn '-').map (List.map ch) := by
    rw [replace_ascii hreads]
    exact Encoded.splitOn fun c hc => ch_inj (isAscii_dashed hreads c hc) (by decide)
  rw [normalizeLocale]
  by_cases hnil : strip (s.map ch) = []
  · rw [if_pos hnil]
    have hempty : pythonReads s = [] := by
      rw [hnil] at hpart
      simpa [upTo] using hpart.symm
    refine ⟨fun h => (by cases h), ?_⟩
    rintro ⟨t, ht, -⟩
    rw [hempty] at ht
    exact absurd ht (not_spells_nil t)
  have hname : ∀ name : String, IsAscii name.toList →
      (u.upper ((pythonReads s).map ch) = str name ↔
        (pythonReads s).map Char.toUpper = name.toList) := fun name hname => by
    rw [u.upper_ascii _ hreads]
    exact map_ch_inj hupper hname
  have hnames : (decide (u.upper ((pythonReads s).map ch) = str "C") ||
      decide (u.upper ((pythonReads s).map ch) = str "POSIX")) = true ↔
      (pythonReads s).map Char.toUpper = "C".toList ∨
        (pythonReads s).map Char.toUpper = "POSIX".toList := by
    rw [Bool.or_eq_true, decide_eq_true_eq, decide_eq_true_eq, hname _ (by decide),
      hname _ (by decide)]
  rw [if_neg hnil, hpart]
  simp only [hsplit]
  by_cases hdefault : (pythonReads s).map Char.toUpper = "C".toList ∨
      (pythonReads s).map Char.toUpper = "POSIX".toList
  · rw [if_pos (hnames.mpr hdefault)]
    refine ⟨fun h => (by cases h), ?_⟩
    rintro ⟨t, ⟨-, hnc, hnposix⟩, -⟩
    exact absurd hdefault (not_or.mpr ⟨hnc, hnposix⟩)
  rw [if_neg (mt hnames.mp hdefault)]
  rw [not_or] at hdefault
  cases hcanonical : canonicalParts u
      (((dashed (pythonReads s)).splitOn '-').map (List.map ch)) with
  | none =>
    refine ⟨fun h => (by cases h), ?_⟩
    rintro ⟨t, ⟨htext, -⟩, -⟩
    have hparts := splitOn_eq_iff.mpr htext
    have hsome := (canonicalParts_ascii (u := u) hdashed _).mpr ⟨t, hparts, rfl⟩
    rw [hcanonical] at hsome
    cases hsome
  | some canonical =>
    obtain ⟨t, hparts, rfl⟩ := (canonicalParts_ascii hdashed _).mp hcanonical
    have htext : [ch '-'].intercalate (t.canonical.parts.map (List.map ch)) =
        t.canonical.text.map ch := (Encoded.intercalate ch '-' _).symm
    have hmatch := locale_iff.mpr ⟨t.canonical, t.canonical_isCanonical, rfl⟩
    simp only [htext, hmatch, if_true, Option.some.injEq]
    constructor
    · rintro rfl
      exact ⟨t, ⟨splitOn_eq_iff.mp hparts, hdefault⟩, rfl⟩
    · rintro ⟨t', ht', rfl⟩
      rw [text_inj ((splitOn_eq_iff.mp hparts).symm.trans ht'.1)]

end Msys.I18n
