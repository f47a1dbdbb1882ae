import MsysSdk.I18n.Lookup
import MsysSdk.Text.Join

/-! The chain of `locale_candidates`: a locale and its parents, and then the default locale, which
comes last unless it is one of them. -/

namespace Msys.I18n
open Python LocaleTag

variable {u : UnicodeData}

/-- A locale and its parents, longest first. -/
def subtagPrefixes (locale : Str) : List Str :=
  Joined.beginnings [ch '-'] (locale.splitOn (ch '-'))

theorem beforeLast_append {c : CodePoint} {m : Str} (h : c ∉ m) (s : Str) :
    beforeLast c (s ++ c :: m) = s := by
  have hpos : ∀ d ∈ m.reverse, decide (d ≠ c) = true := fun d hd =>
    decide_eq_true fun heq => h (heq ▸ List.mem_reverse.mp hd)
  have hdrop : (s ++ c :: m).rdropWhile (· ≠ c) = s ++ [c] := by
    rw [List.rdropWhile, List.reverse_append, List.reverse_cons, List.append_assoc,
      List.dropWhile_append_of_pos hpos, List.singleton_append,
      List.dropWhile_cons_of_neg (by simp), List.reverse_cons, List.reverse_reverse]
  rw [beforeLast, hdrop, List.dropLast_concat]

theorem beforeLast_nil {c : CodePoint} {m : Str} (h : c ∉ m) : beforeLast c m = [] := by
  have hdrop : m.rdropWhile (· ≠ c) = [] := List.rdropWhile_eq_nil_iff.mpr fun d hd =>
    decide_eq_true fun heq => h (heq ▸ hd)
  rw [beforeLast, hdrop]
  rfl

/-- The loop goes from a locale to its parents. -/
theorem parents_eq {l : Str} (hl : l ≠ []) {ls : List Str} (hdash : ∀ m ∈ l :: ls, ch '-' ∉ m)
    {fuel : Nat} (hfuel : ([ch '-'].intercalate (l :: ls)).length ≤ fuel) {before : List Str}
    (hbefore : ∀ b ∈ before, ([ch '-'].intercalate (l :: ls)).length < b.length) :
    parents fuel ([ch '-'].intercalate (l :: ls)) before =
      before ++ Joined.beginnings [ch '-'] (l :: ls) := by
  have hnotMem : ∀ {s : Str} {before : List Str}, (∀ b ∈ before, s.length < b.length) →
      s ∉ before := fun hlong hmem => absurd (hlong _ hmem) (lt_irrefl _)
  induction ls using List.reverseRecOn generalizing fuel before with
  | nil =>
    rw [List.intercalate_singleton] at hfuel hbefore ⊢
    obtain ⟨n, rfl⟩ : ∃ n, fuel = n + 1 :=
      Nat.exists_eq_add_one.mpr ((List.length_pos_of_ne_nil hl).trans_le hfuel)
    rw [parents, if_neg hl, if_neg (hnotMem hbefore),
      beforeLast_nil (hdash l List.mem_cons_self), parents_nil]
    simp [Joined.beginnings]
  | append_singleton ls m ih =>
    have hconcat := Joined.intercalate_concat [ch '-'] m (List.cons_ne_nil l ls)
    rw [← List.cons_append] at hdash hfuel hbefore ⊢
    obtain ⟨hinit, hm⟩ := List.forall_mem_append.mp hdash
    rw [Joined.beginnings_concat]
    rw [hconcat] at hfuel hbefore ⊢
    obtain ⟨n, rfl⟩ : ∃ n, fuel = n + 1 := by
      refine Nat.exists_eq_add_one.mpr (lt_of_lt_of_le ?_ hfuel)
      simp
    rw [parents, if_neg (by simp), if_neg (hnotMem hbefore), List.singleton_append,
      beforeLast_append (hm m (List.mem_singleton_self m))]
    simp only [List.length_append, List.length_cons] at hfuel hbefore
    rw [ih hinit (by omega), List.append_assoc, List.singleton_append]
    refine List.forall_mem_append.mpr ⟨fun b hb => ?_, List.forall_mem_singleton.mpr ?_⟩
    · have := hbefore b hb
      omega
    · simp

/-- The subtags of a canonical locale. -/
theorem splitOn_locale {s : Str} (h : locale.rmatch s = true) :
    ∃ l ls, s.splitOn (ch '-') = l :: ls ∧ l ≠ [] ∧ (∀ m ∈ l :: ls, ch '-' ∉ m) ∧
      [ch '-'].intercalate (l :: ls) = s := by
  obtain ⟨t, -, rfl⟩ := locale_iff.mp h
  have hsplit : (t.text.map ch).splitOn (ch '-') = t.parts.map (List.map ch) := by
    rw [← splitOn_text]
    exact Encoded.splitOn fun c hc => ch_inj (isAscii_text t c hc) (by decide)
  refine ⟨t.language.map ch, (t.script.toList ++ (t.region.toList ++ t.variants)).map (List.map ch),
    hsplit, ?_, ?_, ?_⟩
  · intro hnil
    have := t.isLanguage.1
    rw [List.map_eq_nil_iff.mp hnil] at this
    cases this
  · have hparts : ∀ m ∈ t.parts.map (List.map ch), ch '-' ∉ m := by
      refine List.forall_mem_map.mpr fun m hm hmem => ?_
      obtain ⟨c, hc, hdash⟩ := List.mem_map.mp hmem
      rw [ch_inj (isAscii_parts m hm c hc) (by decide)] at hdash
      exact dash_not_mem hm (hdash ▸ hc)
    exact hparts
  · exact (Encoded.intercalate ch '-' t.parts).symm

/-- What the chain looks like, up to its end. -/
structure ChainShape (normalized defaultLocale : Str) (candidates : List Str) : Prop where
  nodup : candidates.Nodup
  head : candidates.head? = some normalized
  parents : ∃ rest, candidates = subtagPrefixes normalized ++ rest ∧ ∀ l ∈ rest, l = defaultLocale

/-- The locale that the chain starts from. -/
def startLocale (u : UnicodeData) (requested defaultLocale : Str) : Str :=
  (normalizeLocale u requested).getD defaultLocale

theorem locale_startLocale (requested : Str) {defaultLocale : Str}
    (h : locale.rmatch defaultLocale = true) :
    locale.rmatch (startLocale u requested defaultLocale) = true := by
  rw [startLocale]
  cases hnormalized : normalizeLocale u requested with
  | none => exact h
  | some s => exact locale_iff.mpr (normalizeLocale_canonical hnormalized)

theorem localeCandidates_eq (requested : Str) {defaultLocale : Str}
    (h : locale.rmatch defaultLocale = true) :
    localeCandidates u requested defaultLocale =
      if defaultLocale ∈ subtagPrefixes (startLocale u requested defaultLocale) then
        subtagPrefixes (startLocale u requested defaultLocale)
      else subtagPrefixes (startLocale u requested defaultLocale) ++ [defaultLocale] := by
  obtain ⟨l, ls, hsplit, hl, hdash, hjoin⟩ :=
    splitOn_locale (locale_startLocale (u := u) requested h)
  have hparents : parents (startLocale u requested defaultLocale).length
      (startLocale u requested defaultLocale) [] =
        subtagPrefixes (startLocale u requested defaultLocale) := by
    have hloop := parents_eq hl hdash le_rfl (List.forall_mem_nil _)
    rw [hjoin, List.nil_append] at hloop
    rw [hloop, subtagPrefixes, hsplit]
  rw [localeCandidates, ← startLocale, hparents]

/-- The chain of a request: it ends with the default locale, unless that is the start of the chain
or one of its parents and has parents of its own. -/
theorem localeCandidates_shape (u : UnicodeData) (requested : Str) {defaultLocale : Str}
    (h : locale.rmatch defaultLocale = true) :
    ChainShape (startLocale u requested defaultLocale) defaultLocale
        (localeCandidates u requested defaultLocale) ∧
      ((localeCandidates u requested defaultLocale).getLast? = some defaultLocale ↔
        (defaultLocale ∈ subtagPrefixes (startLocale u requested defaultLocale) →
          ch '-' ∉ defaultLocale)) := by
  obtain ⟨l, ls, hsplit, -, hfree, hjoin⟩ :=
    splitOn_locale (locale_startLocale (u := u) requested h)
  have hprefixes : subtagPrefixes (startLocale u requested defaultLocale) =
      Joined.beginnings [ch '-'] (l :: ls) := by rw [subtagPrefixes, hsplit]
  have hnodup := Joined.nodup_beginnings (List.cons_ne_nil (ch '-') []) (l :: ls)
  have hhead := Joined.head_beginnings [ch '-'] (List.cons_ne_nil l ls)
  have hlast := Joined.getLast_beginnings [ch '-'] l ls
  rw [hjoin] at hhead
  rw [localeCandidates_eq requested h, hprefixes]
  by_cases hmem : defaultLocale ∈ Joined.beginnings [ch '-'] (l :: ls)
  · rw [if_pos hmem]
    refine ⟨⟨hnodup, hhead, [], ?_, List.forall_mem_nil _⟩, ?_⟩
    · rw [List.append_nil, hprefixes]
    · rw [hlast, Option.some.injEq]
      refine ⟨fun heq _ => heq ▸ hfree l List.mem_cons_self, fun hdefault => ?_⟩
      exact (Joined.eq_of_mem_beginnings hmem (hdefault hmem)).symm
  · rw [if_neg hmem]
    refine ⟨⟨?_, ?_, [defaultLocale], ?_, List.forall_mem_singleton.mpr rfl⟩, ?_⟩
    · rw [← List.concat_eq_append]
      exact hnodup.concat hmem
    · rw [List.head?_append, hhead]
      rfl
    · rw [hprefixes]
    · exact iff_of_true List.getLast?_concat fun h => absurd h hmem

theorem localeCandidates_shape_parent :
    (localeCandidates .ascii (str "zh-TW") (str "zh")).getLast? = some (str "zh") :=
  (localeCandidates_shape .ascii (str "zh-TW") (by decide +kernel)).2.mpr (by decide +kernel)

/-- A default locale in the middle of the chain is not its end. -/
theorem default_not_last :
    locale.rmatch (str "zh-Hant") = true ∧
      localeCandidates .ascii (str "zh-Hant-TW") (str "zh-Hant") =
        [str "zh-Hant-TW", str "zh-Hant", str "zh"] ∧
      (localeCandidates .ascii (str "zh-Hant-TW") (str "zh-Hant")).getLast? ≠
        some (str "zh-Hant") := by
  decide +kernel

end Msys.I18n
