import MsysSdk.Text.Join
import Mathlib

/-! Locale tags: a language, then optionally a script, a region and variants. The four kinds of
subtag exclude each other, so a tag is known from its subtags. -/

namespace LocaleTag

abbrev Chars := List Char

def IsLanguage (s : Chars) : Prop := 2 ≤ s.length ∧ s.length ≤ 8 ∧ ∀ c ∈ s, c.isAlpha = true

def IsScript (s : Chars) : Prop := s.length = 4 ∧ ∀ c ∈ s, c.isAlpha = true

def IsRegion (s : Chars) : Prop :=
  (s.length = 2 ∧ ∀ c ∈ s, c.isAlpha = true) ∨ (s.length = 3 ∧ ∀ c ∈ s, c.isDigit = true)

def startsWithDigit (s : Chars) : Prop := ∃ c, s.head? = some c ∧ c.isDigit = true

def IsVariant (s : Chars) : Prop :=
  (∀ c ∈ s, c.isAlphanum = true) ∧
    ((5 ≤ s.length ∧ s.length ≤ 8) ∨ (s.length = 4 ∧ startsWithDigit s))

theorem isAlphanum_of_isAlpha {c : Char} (h : c.isAlpha = true) : c.isAlphanum = true := by
  simp [Char.isAlphanum, h]

theorem isAlphanum_of_isDigit {c : Char} (h : c.isDigit = true) : c.isAlphanum = true := by
  simp [Char.isAlphanum, h]

theorem lt_of_isAlphanum {c : Char} (h : c.isAlphanum = true) : c.toNat < 0x80 := by
  have hZ : 'Z'.toNat = 90 := rfl
  have hz : 'z'.toNat = 122 := rfl
  have h9 : '9'.toNat = 57 := rfl
  simp only [Char.isAlphanum, Char.isAlpha, Char.isUpper, Char.isLower, Char.isDigit,
    UInt32.le_iff_toNat_le, Char.toNat_val, Bool.or_eq_true, Bool.and_eq_true, decide_eq_true_eq,
    ge_iff_le] at h
  omega

theorem not_isAlpha_of_isDigit {c : Char} (h : c.isDigit = true) : c.isAlpha = false := by
  rw [Char.isDigit_iff_toNat] at h
  have hzero : '0'.toNat = 48 := rfl
  have hnine : '9'.toNat = 57 := rfl
  have hnot : ¬c.isAlpha = true := by
    simp only [Char.isAlpha, Char.isUpper, Char.isLower, UInt32.le_iff_toNat_le, Char.toNat_val,
      Bool.or_eq_true, Bool.and_eq_true, decide_eq_true_eq, ge_iff_le]
    intro hc
    simp at hc
    omega
  simpa using hnot

/-- A subtag of letters does not begin with a digit. -/
theorem not_startsWithDigit {s : Chars} (h : ∀ c ∈ s, c.isAlpha = true) : ¬startsWithDigit s := by
  rintro ⟨c, hc, hd⟩
  have halpha := h c (List.mem_of_mem_head? hc)
  rw [not_isAlpha_of_isDigit hd] at halpha
  cases halpha

theorem IsScript.not_region {s : Chars} (h : IsScript s) : ¬IsRegion s := by
  rintro (⟨hlen, -⟩ | ⟨hlen, -⟩) <;> have := h.1 <;> omega

theorem IsScript.not_variant {s : Chars} (h : IsScript s) : ¬IsVariant s := by
  rintro ⟨-, hlen | ⟨-, hdigit⟩⟩
  · have := h.1
    omega
  · exact not_startsWithDigit h.2 hdigit

theorem IsRegion.not_variant {s : Chars} (h : IsRegion s) : ¬IsVariant s := by
  rintro ⟨-, hlen | ⟨hlen, -⟩⟩ <;> rcases h with ⟨h, -⟩ | ⟨h, -⟩ <;> omega

end LocaleTag

open LocaleTag

@[ext] structure LocaleTag where
  language : Chars
  script : Option Chars
  region : Option Chars
  variants : List Chars
  isLanguage : IsLanguage language
  isScript : ∀ s ∈ script, IsScript s
  isRegion : ∀ s ∈ region, IsRegion s
  isVariant : ∀ s ∈ variants, IsVariant s

namespace LocaleTag

def parts (t : LocaleTag) : List Chars :=
  t.language :: (t.script.toList ++ (t.region.toList ++ t.variants))

def text (t : LocaleTag) : Chars := ['-'].intercalate t.parts

/-- A list that begins with at most one element of a kind, if its rest does not, splits in one
way only. -/
theorem optional_inj {p : Chars → Prop} {a b : Option Chars} {xs ys : List Chars}
    (ha : ∀ s ∈ a, p s) (hb : ∀ s ∈ b, p s) (hxs : a = none → ∀ s ∈ xs.head?, ¬p s)
    (hys : b = none → ∀ s ∈ ys.head?, ¬p s) (h : a.toList ++ xs = b.toList ++ ys) :
    a = b ∧ xs = ys := by
  cases a with
  | none =>
    cases b with
    | none => exact ⟨rfl, h⟩
    | some s =>
      obtain rfl : xs = s :: ys := h
      exact absurd (hb s rfl) (hxs rfl s rfl)
  | some s =>
    cases b with
    | none =>
      obtain rfl : s :: xs = ys := h
      exact absurd (ha s rfl) (hys rfl s rfl)
    | some t =>
      obtain ⟨rfl, rfl⟩ := List.cons.inj h
      exact ⟨rfl, rfl⟩

theorem not_region_of_head {vs : List Chars} (hv : ∀ s ∈ vs, IsVariant s) :
    ∀ s ∈ vs.head?, ¬IsRegion s := fun s hs hr =>
  hr.not_variant (hv s (List.mem_of_mem_head? hs))

/-- What may follow the script is no script. -/
theorem not_script_of_head {r : Option Chars} {vs : List Chars} (hr : ∀ s ∈ r, IsRegion s)
    (hv : ∀ s ∈ vs, IsVariant s) : ∀ s ∈ (r.toList ++ vs).head?, ¬IsScript s := by
  intro s hs hscript
  rcases List.mem_append.mp (List.mem_of_mem_head? hs) with hs | hs
  · exact hscript.not_region (hr s (by simpa using hs))
  · exact hscript.not_variant (hv s hs)

theorem parts_inj {t t' : LocaleTag} (h : t.parts = t'.parts) : t = t' := by
  obtain ⟨hlanguage, hrest⟩ := List.cons.inj h
  obtain ⟨hscript, htail⟩ := optional_inj t.isScript t'.isScript
    (fun _ => not_script_of_head t.isRegion t.isVariant)
    (fun _ => not_script_of_head t'.isRegion t'.isVariant) hrest
  obtain ⟨hregion, hvariants⟩ := optional_inj t.isRegion t'.isRegion
    (fun _ => not_region_of_head t.isVariant) (fun _ => not_region_of_head t'.isVariant) htail
  exact LocaleTag.ext hlanguage hscript hregion hvariants

theorem isAlphanum_of_mem {t : LocaleTag} {s : Chars} (hs : s ∈ t.parts) :
    ∀ c ∈ s, c.isAlphanum = true := by
  intro c hc
  rcases List.mem_cons.mp hs with rfl | hs
  · exact isAlphanum_of_isAlpha (t.isLanguage.2.2 c hc)
  rcases List.mem_append.mp hs with hs | hs
  · exact isAlphanum_of_isAlpha ((t.isScript s (by simpa using hs)).2 c hc)
  rcases List.mem_append.mp hs with hs | hs
  · rcases t.isRegion s (by simpa using hs) with ⟨-, h⟩ | ⟨-, h⟩
    · exact isAlphanum_of_isAlpha (h c hc)
    · exact isAlphanum_of_isDigit (h c hc)
  · exact (t.isVariant s hs).1 c hc

theorem dash_not_mem {t : LocaleTag} {s : Chars} (hs : s ∈ t.parts) : '-' ∉ s := fun hc => by
  have := isAlphanum_of_mem hs '-' hc
  cases this

theorem splitOn_text (t : LocaleTag) : t.text.splitOn '-' = t.parts :=
  List.splitOn_intercalate '-' (fun _ hs => dash_not_mem hs) (by simp [parts])

/-- A text has the parts of the tag when it is the text of the tag. -/
theorem splitOn_eq_iff {s : Chars} {t : LocaleTag} : s.splitOn '-' = t.parts ↔ s = t.text := by
  refine ⟨fun h => ?_, fun h => by rw [h, splitOn_text]⟩
  rw [text, ← h, List.intercalate_splitOn]

theorem text_eq (t : LocaleTag) : t.text = t.language ++ (t.script.toList.flatMap ('-' :: ·) ++
    (t.region.toList.flatMap ('-' :: ·) ++ t.variants.flatMap ('-' :: ·))) := by
  rw [text, parts, Joined.intercalate_singleton, List.flatMap_append, List.flatMap_append]

theorem mem_text {t : LocaleTag} {c : Char} (hc : c ∈ t.text) : c = '-' ∨ c.isAlphanum = true := by
  rw [text, parts, Joined.intercalate_singleton, List.mem_append, List.mem_flatMap] at hc
  rcases hc with hc | ⟨s, hs, hc⟩
  · exact .inr (isAlphanum_of_mem (t := t) List.mem_cons_self c hc)
  · rcases List.mem_cons.mp hc with rfl | hc
    · exact .inl rfl
    · exact .inr (isAlphanum_of_mem (t := t) (List.mem_cons_of_mem _ hs) c hc)

theorem text_inj {t t' : LocaleTag} (h : t.text = t'.text) : t = t' :=
  parts_inj (by rw [← splitOn_text, ← splitOn_text, h])

/-! ### Canonical case -/

theorem isDigit_toLower {c : Char} (h : c.isDigit = true) : c.toLower = c := by
  refine Char.toLower_eq_of_not_isUpper fun hc => ?_
  have := not_isAlpha_of_isDigit h
  simp [Char.isAlpha, hc] at this

theorem isDigit_toUpper {c : Char} (h : c.isDigit = true) : c.toUpper = c := by
  refine Char.toUpper_eq_of_not_isLower fun hc => ?_
  have := not_isAlpha_of_isDigit h
  simp [Char.isAlpha, hc] at this

theorem isAlphanum_toLower {c : Char} (h : c.isAlphanum = true) : c.toLower.isAlphanum = true := by
  rw [Char.isAlphanum, Bool.or_eq_true] at h
  rcases h with h | h
  · exact isAlphanum_of_isAlpha (by rw [Char.isAlpha_toLower_eq_isAlpha, h])
  · rw [isDigit_toLower h]
    exact isAlphanum_of_isDigit h

theorem toLower_lt {c : Char} (h : c.toNat < 0x80) : c.toLower.toNat < 0x80 := by
  by_cases hupper : c.isUpper = true
  · refine lt_of_isAlphanum (isAlphanum_of_isAlpha ?_)
    rw [Char.isAlpha_toLower_eq_isAlpha, Char.isAlpha, hupper, Bool.true_or]
  · rwa [Char.toLower_eq_of_not_isUpper hupper]

theorem toUpper_lt {c : Char} (h : c.toNat < 0x80) : c.toUpper.toNat < 0x80 := by
  by_cases hlower : c.isLower = true
  · refine lt_of_isAlphanum (isAlphanum_of_isAlpha ?_)
    rw [Char.isAlpha_toUpper_eq_isAlpha, Char.isAlpha, hlower, Bool.or_true]
  · rwa [Char.toUpper_eq_of_not_isLower hlower]

/-- The first letter in upper case and the others in lower case. -/
def titled : Chars → Chars
  | [] => []
  | c :: cs => c.toUpper :: cs.map Char.toLower

@[simp] theorem length_titled (s : Chars) : (titled s).length = s.length := by
  cases s <;> simp [titled]

theorem isAlpha_titled {s : Chars} (h : ∀ c ∈ s, c.isAlpha = true) :
    ∀ c ∈ titled s, c.isAlpha = true := by
  cases s with
  | nil => exact h
  | cons d s =>
    obtain ⟨hd, hs⟩ := List.forall_mem_cons.mp h
    exact List.forall_mem_cons.mpr ⟨by simpa using hd, List.forall_mem_map.mpr (by simpa using hs)⟩

theorem IsRegion.toUpper {s : Chars} (h : IsRegion s) : IsRegion (s.map Char.toUpper) := by
  rcases h with ⟨hlen, h⟩ | ⟨hlen, h⟩
  · exact .inl ⟨by simpa using hlen, List.forall_mem_map.mpr (by simpa using h)⟩
  · refine .inr ⟨by simpa using hlen, List.forall_mem_map.mpr fun c hc => ?_⟩
    rw [isDigit_toUpper (h c hc)]
    exact h c hc

theorem IsVariant.toLower {s : Chars} (h : IsVariant s) : IsVariant (s.map Char.toLower) := by
  refine ⟨List.forall_mem_map.mpr fun c hc => isAlphanum_toLower (h.1 c hc), ?_⟩
  rw [List.length_map]
  refine h.2.imp_right fun ⟨hlen, c, hc, hd⟩ => ⟨hlen, c, ?_, hd⟩
  rw [List.head?_map, hc, Option.map_some, isDigit_toLower hd]

/-- The tag with each subtag in the case that is usual for its kind. -/
def canonical (t : LocaleTag) : LocaleTag where
  language := t.language.map Char.toLower
  script := t.script.map titled
  region := t.region.map fun s => s.map Char.toUpper
  variants := t.variants.map fun s => s.map Char.toLower
  isLanguage := ⟨by simpa using t.isLanguage.1, by simpa using t.isLanguage.2.1,
    List.forall_mem_map.mpr (by simpa using t.isLanguage.2.2)⟩
  isScript := by
    intro s hs
    obtain ⟨x, hx, rfl⟩ := Option.map_eq_some_iff.mp hs
    exact ⟨by simpa using (t.isScript x hx).1, isAlpha_titled (t.isScript x hx).2⟩
  isRegion := by
    intro s hs
    obtain ⟨x, hx, rfl⟩ := Option.map_eq_some_iff.mp hs
    exact (t.isRegion x hx).toUpper
  isVariant := List.forall_mem_map.mpr fun s hs => (t.isVariant s hs).toLower

theorem length_canonical (t : LocaleTag) : t.canonical.text.length = t.text.length := by
  cases hs : t.script <;> cases hr : t.region <;>
    simp [text_eq, canonical, hs, hr, List.length_flatMap, List.map_map, Function.comp_def]

def IsCanonical (t : LocaleTag) : Prop := t.canonical = t

theorem titled_titled (s : Chars) : titled (titled s) = titled s := by
  cases s <;> simp [titled, Function.comp_def]

theorem canonical_isCanonical (t : LocaleTag) : t.canonical.IsCanonical := by
  simp [IsCanonical, canonical, Function.comp_def, titled_titled]

end LocaleTag
