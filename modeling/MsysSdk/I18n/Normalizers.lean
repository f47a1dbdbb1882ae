import MsysSdk.I18n.CLocale

/-! The two normalisers. On an ASCII string they differ only in what they read of it: white space
inside ends the locale for the C SDK, and only Python strips the separators `\x1c` to `\x1f`. -/

namespace Msys.I18n
open Python Libc LocaleTag
open C (cReads)

/-- The text is that of a locale tag. -/
def WellFormed (s : Chars) : Prop := ∃ t, Spells s t

theorem Spells.mem {s : Chars} {t : LocaleTag} (h : Spells s t) {c : Char} (hc : c ∈ s) :
    c = '_' ∨ c = '-' ∨ c.isAlphanum = true := by
  have hmem : (if c = '_' then '-' else c) ∈ dashed s := List.mem_map_of_mem hc
  rw [h.1] at hmem
  by_cases hu : c = '_'
  · exact .inl hu
  · rw [if_neg hu] at hmem
    exact .inr (mem_text hmem)

/-- A character of a tag is no white space and no end of the locale. -/
theorem Spells.reads {s : Chars} {t : LocaleTag} (h : Spells s t) {c : Char} (hc : c ∈ s) :
    isWhite c = false ∧ C.readOn c = true := by
  have key : ∀ c : Char, 48 ≤ c.toNat ∨ c = '-' → c ≠ '@' →
      isWhite c = false ∧ C.readOn c = true := by
    intro c hc hat
    have hge : 33 ≤ c.toNat ∧ c ≠ '.' := by
      rcases hc with hc | rfl
      · refine ⟨by omega, ?_⟩
        rintro rfl
        exact absurd hc (by decide)
      · decide
    have hspace : C.isSpace c = false := by
      simp only [C.isSpace, Ascii.isSpace, Bool.or_eq_false_iff, Bool.and_eq_false_iff,
        decide_eq_false_iff_not]
      omega
    refine ⟨?_, by simp [C.readOn, hge.2, hat, hspace]⟩
    simp only [isWhite, Bool.or_eq_false_iff, Bool.and_eq_false_iff, decide_eq_false_iff_not]
    omega
  rcases h.mem hc with rfl | rfl | halnum
  · exact key _ (by decide) (by decide)
  · exact key _ (by decide) (by decide)
  · refine key c (.inl ?_) ?_
    · have h0 : '0'.toNat = 48 := rfl
      have hA : 'A'.toNat = 65 := rfl
      have ha : 'a'.toNat = 97 := rfl
      rw [← Ascii.isAlnum_toNat] at halnum
      simp only [Ascii.isAlnum, Ascii.isAlpha, Ascii.isUpper, Ascii.isLower, Ascii.isDigit,
        Bool.or_eq_true, Bool.and_eq_true, decide_eq_true_eq] at halnum
      omega
    · rintro rfl
      cases halnum

theorem isWhite_of_isSpace {c : Char} (h : C.isSpace c = true) : isWhite c = true := by
  simp only [C.isSpace, Ascii.isSpace, Bool.or_eq_true, Bool.and_eq_true, decide_eq_true_eq] at h
  simp only [isWhite, Bool.or_eq_true, Bool.and_eq_true, decide_eq_true_eq]
  omega

theorem takeWhile_append_stop {α : Type} {p : α → Bool} {xs ys : List α} (hx : ∀ a ∈ xs, p a = true)
    (hy : ∀ a ∈ ys.head?, p a = false) : (xs ++ ys).takeWhile p = xs := by
  rw [List.takeWhile_append_of_pos hx]
  cases ys with
  | nil => simp
  | cons a ys => rw [List.takeWhile_cons_of_neg (by simpa using hy a rfl), List.append_nil]

/-- If both parts spell tags, they are the same part. -/
theorem reads_eq {s : Chars} {t t' : LocaleTag} (hc : Spells (cReads s) t)
    (hp : Spells (pythonReads s) t') : cReads s = pythonReads s := by
  have hsplit := List.takeWhile_append_dropWhile (p := C.isSpace) (l := s)
  generalize hw : s.dropWhile C.isSpace = w at hsplit
  have hreads : cReads s = w.takeWhile C.readOn := by rw [cReads, hw]
  -- the tag begins with no white space, so both skip the same in front of it
  have hskip : s.dropWhile isWhite = w := by
    obtain ⟨c, rest, hcons⟩ : ∃ c rest, cReads s = c :: rest :=
      List.exists_cons_of_ne_nil fun hnil => not_spells_nil t (hnil ▸ hc)
    have hwhite := (hc.reads (hcons ▸ List.mem_cons_self)).1
    rw [hreads] at hcons
    rw [← hsplit, List.dropWhile_append_of_pos fun c hc =>
      isWhite_of_isSpace (List.mem_takeWhile_imp hc)]
    cases w with
    | nil => cases hcons
    | cons d w =>
      rw [List.takeWhile_cons] at hcons
      split_ifs at hcons
      obtain ⟨rfl, -⟩ := List.cons.inj hcons
      rw [List.dropWhile_cons_of_neg (by simpa using hwhite)]
  generalize hx : w.rdropWhile isWhite = x
  generalize hy : w.rtakeWhile isWhite = y
  have hxy : x ++ y = w := by rw [← hx, ← hy, List.rdropWhile_append_rtakeWhile]
  have hpython : pythonReads s = x.takeWhile fun c => c ≠ '.' ∧ c ≠ '@' := by
    rw [pythonReads, hskip, hx, List.takeWhile_takeWhile]
    simp
  have hrest := List.takeWhile_append_dropWhile (p := fun c => decide (c ≠ '.' ∧ c ≠ '@')) (l := x)
  generalize hz : x.dropWhile (fun c => decide (c ≠ '.' ∧ c ≠ '@')) = z at hrest
  rw [← hpython] at hrest
  have hread := fun c hc => (hp.reads (c := c) hc).2
  rw [hreads, ← hxy, ← hrest, List.append_assoc]
  refine takeWhile_append_stop hread fun a ha => ?_
  cases z with
  | cons d z =>
    obtain rfl : d = a := by simpa using ha
    have hne : x.dropWhile (fun c => decide (c ≠ '.' ∧ c ≠ '@')) ≠ [] := by
      rw [hz]
      exact List.cons_ne_nil d z
    have hstop := List.head_dropWhile_not _ hne
    simp only [hz, List.head_cons, decide_eq_false_iff_not, not_and_or, not_not] at hstop
    rcases hstop with rfl | rfl <;> rfl
  | nil =>
    -- white space behind the tag that did not end it would be read by the C side
    obtain ⟨y, rfl⟩ : ∃ y', y = a :: y' := ⟨y.tail, (List.cons_head?_tail ha).symm⟩
    have hwhite : isWhite a = true := List.mem_rtakeWhile_imp (l := w) (by rw [hy]; simp)
    by_contra hon
    have hmem : a ∈ cReads s := by
      rw [hreads, ← hxy, ← hrest, List.append_nil, List.takeWhile_append_of_pos hread,
        List.takeWhile_cons_of_pos (by simpa using hon)]
      simp
    rw [(hc.reads hmem).1] at hwhite
    cases hwhite

/-! ### Agreement -/

/-- The buffer holds the UTF-8 form of `t`. -/
def Holds (m : Buffer) (t : Str) : Prop :=
  0 ∈ m.read C.localeCapacity ∧ encodeUtf8 t = some (m.string C.localeCapacity)

theorem isAscii_text (t : LocaleTag) : IsAscii t.text := fun c hc => by
  rcases mem_text hc with rfl | hc
  · decide
  · exact lt_of_isAlphanum hc

theorem zero_not_mem (t : LocaleTag) : 0 ∉ t.text.map chr := fun hz => by
  obtain ⟨c, hc, hz⟩ := List.mem_map.mp hz
  have hlt := isAscii_text t c hc
  obtain rfl : c = '\x00' := (chr_inj (by omega) (by decide)).mp (hz.trans (by decide))
  rcases mem_text hc with h | h <;> cases h

theorem utf8_text (t : LocaleTag) : encodeUtf8 (t.text.map ch) = some (t.text.map chr) := by
  rw [encodable_iff.mp (encodable_map_ch (isAscii_text t)), utf8_map_ch (isAscii_text t)]

theorem holds_text (m : Buffer) {t : LocaleTag} (h : t.text.length < C.localeCapacity) :
    Holds (m.copy 0 (t.text.map chr ++ [0])) (t.text.map ch) := by
  obtain ⟨hend, hstring⟩ := Buffer.string_copy m (by rwa [List.length_map]) (zero_not_mem t)
  exact ⟨hend, by rw [utf8_text, hstring]⟩

/-- The part of the string between leading white space and the first `.` or `@`. -/
def localePart (s : Chars) : Chars := (s.dropWhile C.isSpace).takeWhile fun c => c ≠ '.' ∧ c ≠ '@'

theorem length_cReads (s : Chars) : (cReads s).length ≤ (localePart s).length := by
  have hreads : cReads s = (localePart s).takeWhile fun c => !C.isSpace c := by
    rw [localePart, List.takeWhile_takeWhile, cReads]
    refine congrArg (List.takeWhile · _) (funext fun c => ?_)
    simp [C.readOn, Bool.and_comm]
  rw [hreads]
  exact (List.takeWhile_prefix _).length_le

/-- Both normalisers give the same canonical locale, or both give none. -/
def NormalizersAgree (u : UnicodeData) (s : Str) : Prop :=
  ∀ output : Buffer, let (result, output) := C.normalizeLocale (utf8 s) output C.localeCapacity
    (∀ t, (result = .ok ∧ Holds output t) ↔ normalizeLocale u s = some t) ∧
      (result = .invalidLocale ↔ normalizeLocale u s = none)

variable {u : UnicodeData}

theorem agree_of_wellFormed {s : Chars} (hs : IsAscii s)
    (hlen : (cReads s).length < C.localeCapacity) {t : LocaleTag} (hc : Spells (cReads s) t)
    (hp : Spells (pythonReads s) t) : NormalizersAgree u (s.map ch) := by
  intro output
  have hlength : t.canonical.text.length < C.localeCapacity := by
    rw [length_canonical, ← hc.1, dashed, List.length_map]
    exact hlen
  have hholds := holds_text output hlength
  rw [utf8_map_ch hs, (C.normalizeLocale_ascii hs hlen output).1 t hc,
    (normalizeLocale_ascii hs _).mpr ⟨t, hp, rfl⟩]
  refine ⟨fun out => ?_, iff_of_false (fun h => by cases h) fun h => by cases h⟩
  constructor
  · rintro ⟨-, hout⟩
    rw [encodeUtf8_inj hout.2 hholds.2]
  · rintro ⟨rfl⟩
    exact ⟨rfl, hholds⟩

theorem normalizeLocale_none {s : Chars} (hs : IsAscii s) (h : ¬WellFormed (pythonReads s)) :
    normalizeLocale u (s.map ch) = none := by
  refine Option.eq_none_iff_forall_ne_some.mpr fun out hout => ?_
  obtain ⟨t, ht, -⟩ := (normalizeLocale_ascii hs out).mp hout
  exact h ⟨t, ht⟩

theorem agree_of_not_wellFormed {s : Chars} (hs : IsAscii s)
    (hlen : (cReads s).length < C.localeCapacity) (hc : ¬WellFormed (cReads s))
    (hp : ¬WellFormed (pythonReads s)) : NormalizersAgree u (s.map ch) := by
  intro output
  rw [utf8_map_ch hs, (C.normalizeLocale_ascii hs hlen output).2 (not_exists.mp hc),
    normalizeLocale_none hs hp]
  exact ⟨fun out => iff_of_false (fun h => by cases h.1) fun h => (by cases h),
    iff_of_true rfl rfl⟩

theorem agree_of_reads_eq {s : Chars} (hs : IsAscii s)
    (hlen : (cReads s).length < C.localeCapacity) (heq : pythonReads s = cReads s) :
    NormalizersAgree u (s.map ch) := by
  by_cases hreads : WellFormed (cReads s)
  · obtain ⟨t, ht⟩ := hreads
    exact agree_of_wellFormed hs hlen ht (heq ▸ ht)
  · exact agree_of_not_wellFormed hs hlen hreads (by rwa [heq])

/-- The normalisers agree exactly if they read the same part of the string, or neither reads a
locale tag. -/
theorem normalizers_agree {s : Chars} (hs : IsAscii s)
    (hlen : (localePart s).length < C.localeCapacity) :
    NormalizersAgree u (s.map ch) ↔ pythonReads s = cReads s ∨
      (¬WellFormed (pythonReads s) ∧ ¬WellFormed (cReads s)) := by
  have hlen := lt_of_le_of_lt (length_cReads s) hlen
  have hc := C.normalizeLocale_ascii hs hlen
  constructor
  · intro hagree
    have h := hagree fun _ => 0
    rw [utf8_map_ch hs] at h
    by_cases hreads : WellFormed (cReads s)
    · obtain ⟨t, ht⟩ := hreads
      have hpython : WellFormed (pythonReads s) := by
        by_contra hnot
        rw [(hc _).1 t ht, normalizeLocale_none hs hnot] at h
        cases h.2.mpr rfl
      obtain ⟨t', ht'⟩ := hpython
      exact .inl (reads_eq ht ht').symm
    · refine .inr ⟨fun ⟨t, ht⟩ => ?_, hreads⟩
      rw [(hc _).2 (not_exists.mp hreads), (normalizeLocale_ascii hs _).mpr ⟨t, ht, rfl⟩] at h
      cases h.2.mp rfl
  · rintro (heq | ⟨hpython, hreads⟩)
    · exact agree_of_reads_eq hs hlen heq
    · exact agree_of_not_wellFormed hs hlen hreads hpython

/-- White space inside ends the locale for the C SDK only. -/
theorem normalizers_disagree : ¬∀ s : Chars, IsAscii s → '\x00' ∉ s →
    (localePart s).length < C.localeCapacity → NormalizersAgree .ascii (s.map ch) := by
  intro h
  have hagree := h "en US".toList (by decide) (by decide) (by decide) fun _ => 0
  have hpython : normalizeLocale .ascii ("en US".toList.map ch) = none := by decide +kernel
  rw [hpython] at hagree
  have hc := hagree.2.mpr rfl
  revert hc
  decide +kernel

theorem normalizers_agree_posix : NormalizersAgree .ascii (" pt_br.UTF-8".toList.map ch) :=
  (normalizers_agree (by decide) (by decide)).mpr (.inl (by decide))

/-! ### What the callers see -/

theorem normalizeLocale_canonical {s t : Str} (h : normalizeLocale u s = some t) :
    ∃ tag : LocaleTag, tag.IsCanonical ∧ t = tag.text.map ch := by
  simp only [normalizeLocale] at h
  split_ifs at h
  split at h
  · cases h
  · split_ifs at h with hlocale
    obtain rfl := Option.some.inj h
    exact locale_iff.mp hlocale

/-- Where the normalisers agree, both have a canonical tag or neither has. -/
theorem NormalizersAgree.cases {s : Str} (h : NormalizersAgree u s) (canonical : Buffer) :
    (normalizeLocale u s = none ∧ C.normalized canonical (utf8 s) = none) ∨
      ∃ t : LocaleTag, t.IsCanonical ∧ normalizeLocale u s = some (t.text.map ch) ∧
        C.normalized canonical (utf8 s) = some (t.text.map chr) := by
  have hagree := h canonical
  rw [C.normalized]
  generalize C.normalizeLocale (utf8 s) canonical C.localeCapacity = r at hagree ⊢
  obtain ⟨result, output⟩ := r
  obtain ⟨hsome, hnone⟩ := hagree
  cases hpython : normalizeLocale u s with
  | none =>
    obtain rfl := hnone.mpr hpython
    exact .inl ⟨rfl, rfl⟩
  | some out =>
    obtain ⟨t, ht, rfl⟩ := normalizeLocale_canonical hpython
    obtain ⟨rfl, hholds⟩ := (hsome _).mpr hpython
    have hstring := Option.some.inj ((utf8_text t).symm.trans hholds.2)
    exact .inr ⟨t, ht, rfl, by simp only [if_true, ← hstring]⟩

end Msys.I18n
