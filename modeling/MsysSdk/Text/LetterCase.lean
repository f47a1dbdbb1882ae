import MsysSdk.Text.Encoded
import MsysSdk.Text.LocaleTag

/-! Locale tags in other letter cases. The kinds of subtag do not depend on the case, so a text
that differs from a tag's in nothing else is a tag's too, with the same canonical form. -/

namespace LocaleTag

/-- The strings differ in the case of their letters only. -/
def SameLetters (s t : Chars) : Prop := s.map Char.toLower = t.map Char.toLower

variable {s t : Chars}

theorem SameLetters.length (h : SameLetters s t) : s.length = t.length := by
  simpa using congrArg List.length h

theorem SameLetters.all {p : Char → Bool} (hp : ∀ c : Char, p c.toLower = p c)
    (h : SameLetters s t) (ht : ∀ c ∈ t, p c = true) : ∀ c ∈ s, p c = true := by
  intro c hc
  have hmem : c.toLower ∈ t.map Char.toLower := h ▸ List.mem_map_of_mem hc
  obtain ⟨d, hd, hdc⟩ := List.mem_map.mp hmem
  rw [← hp, ← hdc, hp]
  exact ht d hd

theorem isDigit_toLower_eq (c : Char) : c.toLower.isDigit = c.isDigit := by
  by_cases hupper : c.isUpper = true
  · have halpha : c.isAlpha = true := by rw [Char.isAlpha, hupper, Bool.true_or]
    have hnot : ∀ d : Char, d.isAlpha = true → d.isDigit = false := by
      intro d hd
      rw [← Bool.not_eq_true]
      intro hdigit
      rw [not_isAlpha_of_isDigit hdigit] at hd
      cases hd
    rw [hnot c halpha, hnot _ (by rw [Char.isAlpha_toLower_eq_isAlpha, halpha])]
  · rw [Char.toLower_eq_of_not_isUpper hupper]

theorem isAlphanum_toLower_eq (c : Char) : c.toLower.isAlphanum = c.isAlphanum := by
  rw [Char.isAlphanum, Char.isAlphanum, Char.isAlpha_toLower_eq_isAlpha, isDigit_toLower_eq]

theorem toLower_eq_dash {c : Char} : c.toLower = '-' ↔ c = '-' := by
  by_cases hupper : c.isUpper = true
  · have halpha : c.isAlpha = true := by rw [Char.isAlpha, hupper, Bool.true_or]
    constructor
    · intro hc
      rw [← Char.isAlpha_toLower_eq_isAlpha, hc] at halpha
      cases halpha
    · rintro rfl
      cases hupper
  · rw [Char.toLower_eq_of_not_isUpper hupper]

theorem SameLetters.language (h : SameLetters s t) (ht : IsLanguage t) : IsLanguage s :=
  ⟨h.length ▸ ht.1, h.length ▸ ht.2.1, h.all Char.isAlpha_toLower_eq_isAlpha ht.2.2⟩

theorem SameLetters.script (h : SameLetters s t) (ht : IsScript t) : IsScript s :=
  ⟨h.length.trans ht.1, h.all Char.isAlpha_toLower_eq_isAlpha ht.2⟩

theorem SameLetters.region (h : SameLetters s t) (ht : IsRegion t) : IsRegion s :=
  ht.imp (fun ht => ⟨h.length.trans ht.1, h.all Char.isAlpha_toLower_eq_isAlpha ht.2⟩)
    fun ht => ⟨h.length.trans ht.1, h.all isDigit_toLower_eq ht.2⟩

theorem SameLetters.startsWithDigit (h : SameLetters s t) (ht : startsWithDigit t) :
    startsWithDigit s := by
  obtain ⟨d, hd, hdigit⟩ := ht
  have hhead := congrArg List.head? h
  rw [List.head?_map, List.head?_map, hd, Option.map_some] at hhead
  obtain ⟨c, hc, hcd⟩ := Option.map_eq_some_iff.mp hhead
  refine ⟨c, hc, ?_⟩
  rw [← isDigit_toLower_eq, hcd, isDigit_toLower_eq, hdigit]

theorem SameLetters.variant (h : SameLetters s t) (ht : IsVariant t) : IsVariant s := by
  refine ⟨h.all isAlphanum_toLower_eq ht.1, ?_⟩
  rw [h.length]
  exact ht.2.imp_right fun ht => ⟨ht.1, h.startsWithDigit ht.2⟩

theorem titled_toLower (s : Chars) : titled (s.map Char.toLower) = titled s := by
  cases s <;> simp [titled, Function.comp_def]

/-! ### Sequences of subtags -/

/-- The subtags differ in the case of their letters only. -/
def SameParts (ss ts : List Chars) : Prop :=
  ss.map (List.map Char.toLower) = ts.map (List.map Char.toLower)

theorem SameParts.cons {t : Chars} {ss ts : List Chars} (h : SameParts ss (t :: ts)) :
    ∃ s rest, ss = s :: rest ∧ SameLetters s t ∧ SameParts rest ts := by
  obtain ⟨s, rest, rfl, hs, hrest⟩ := List.map_eq_cons_iff.mp h
  exact ⟨s, rest, rfl, hs, hrest⟩

theorem SameParts.optional {o : Option Chars} {ss ts : List Chars}
    (h : SameParts ss (o.toList ++ ts)) : ∃ (o' : Option Chars) (rest : List Chars),
      ss = o'.toList ++ rest ∧ o'.map (List.map Char.toLower) = o.map (List.map Char.toLower) ∧
      SameParts rest ts := by
  cases o with
  | none => exact ⟨none, ss, rfl, rfl, h⟩
  | some t =>
    obtain ⟨s, rest, rfl, hs, hrest⟩ := h.cons
    exact ⟨some s, rest, rfl, congrArg some hs, hrest⟩

theorem of_optional {o o' : Option Chars} {p : Chars → Prop}
    (h : o'.map (List.map Char.toLower) = o.map (List.map Char.toLower))
    (hp : ∀ {s t}, SameLetters s t → p t → p s) (ho : ∀ t ∈ o, p t) : ∀ s ∈ o', p s := by
  intro s hs
  rw [Option.mem_def.mp hs, Option.map_some, eq_comm] at h
  obtain ⟨t, ht, hst⟩ := Option.map_eq_some_iff.mp h
  exact hp hst.symm (ho t ht)

theorem of_variants {ss ts : List Chars} (h : SameParts ss ts) (ht : ∀ t ∈ ts, IsVariant t) :
    ∀ s ∈ ss, IsVariant s := by
  intro s hs
  have hmem : s.map Char.toLower ∈ ts.map (List.map Char.toLower) := h ▸ List.mem_map_of_mem hs
  obtain ⟨t, htmem, hst⟩ := List.mem_map.mp hmem
  exact SameLetters.variant hst.symm (ht t htmem)

/-- A text that differs from a tag's in the letter case only is the text of a tag with the same
canonical form. -/
theorem exists_tag {t : LocaleTag} (h : SameLetters s t.text) :
    ∃ t' : LocaleTag, s = t'.text ∧ t'.canonical = t.canonical := by
  have hdash : ∀ {x : Chars}, ∀ c ∈ x, c.toLower = '-'.toLower ↔ c = '-' :=
    fun _ _ => toLower_eq_dash
  have hparts : SameParts (s.splitOn '-') t.parts := by
    rw [SameParts, ← t.splitOn_text, ← Encoded.splitOn hdash, ← Encoded.splitOn hdash,
      show s.map Char.toLower = t.text.map Char.toLower from h]
  obtain ⟨language, rest, hsplit, hlanguage, hrest⟩ := hparts.cons
  obtain ⟨script, rest, rfl, hscript, hrest⟩ := hrest.optional
  obtain ⟨region, variants, rfl, hregion, hvariants⟩ := hrest.optional
  refine ⟨⟨language, script, region, variants, hlanguage.language t.isLanguage,
    of_optional hscript SameLetters.script t.isScript,
    of_optional hregion SameLetters.region t.isRegion, of_variants hvariants t.isVariant⟩,
    splitOn_eq_iff.mp hsplit, ?_⟩
  have htitled : ∀ o : Option Chars, (o.map (List.map Char.toLower)).map titled = o.map titled :=
    fun o => by simp [Function.comp_def, titled_toLower]
  have huppers : ∀ o : Option Chars, (o.map (List.map Char.toLower)).map (List.map Char.toUpper) =
      o.map (List.map Char.toUpper) := fun o => by simp [Function.comp_def]
  apply LocaleTag.ext
  · exact hlanguage
  · show script.map titled = t.script.map titled
    rw [← htitled, hscript, htitled]
  · show region.map (List.map Char.toUpper) = t.region.map (List.map Char.toUpper)
    rw [← huppers, hregion, huppers]
  · exact hvariants

end LocaleTag
