import MsysSdk.I18n.CLookup
import MsysSdk.I18n.Resolution

/-! The two ways to look a message up. Both try the requested locale, its parents and the default
locale in that order; only a default locale with the name `posix` is lost to the C SDK, which
normalises it where no locale is given that it accepts. -/

namespace Msys.I18n
open Python hiding Bytes
open Libc LocaleTag
open C (cReads)

variable {u : UnicodeData} {p : Printer}

/-- What a generated header holds: the rows of the catalog in its order. -/
def entryTable (c : Catalog) : C.Catalog where
  defaultLocale := utf8 c.defaultLocale
  entries := (Tables.rows c.messages).map fun r => ⟨utf8 r.1, utf8 r.2.1, utf8 r.2.2⟩

/-- The templates of `plural`, as long as the category function raises nothing. -/
def Translator.resolveCount (t : Translator) (categoryOf : Str → Category) (key : Str) :
    Except Str (Option (Str × Str × Str)) :=
  (resolvePlural t.catalog (fun l => .ok (categoryOf l)) key t.chain).map
    fun found => found.or (t.resolve [key])

/-! ### The table -/

theorem ascii_of_letters {r : Pattern} (hr : r.letters.all (fun c => c.val < 0x80) = true) {s : Str}
    (h : r.rmatch s = true) : ∀ c ∈ s, c.val < 0x80 := by
  refine RegularExpression.forall_of_letters (p := fun c : CodePoint => c.val < 0x80) (fun c hc => ?_)
    ((RegularExpression.rmatch_iff_matches' r s).mp h)
  simpa using List.all_eq_true.mp hr c hc

theorem ascii_locale {s : Str} (h : isLocale (.str s) = true) : ∀ c ∈ s, c.val < 0x80 :=
  ascii_of_letters (r := locale) (by decide +kernel) (Bool.and_eq_true _ _ ▸ h).2

theorem ascii_key {s : Str} (h : isMessageKey (.str s) = true) : ∀ c ∈ s, c.val < 0x80 :=
  ascii_of_letters (r := messageKey) (by decide +kernel) (Bool.and_eq_true _ _ ▸ h).2

/-- The scan of the table finds the message of the catalog. -/
theorem lookupExact_entryTable {c : Catalog} (hc : c.Valid u) {l key : Str} (hl : Encodable l)
    (hk : Encodable key) :
    C.lookupExact (entryTable c) (utf8 l) (utf8 key) = (c.template l key).map utf8 := by
  have hrow : ∀ r ∈ Tables.rows c.messages,
      (utf8 r.1 = utf8 l && utf8 r.2.1 = utf8 key) = (r.1 == l && r.2.1 == key) := by
    intro r hr
    obtain ⟨e, he, hrow⟩ := List.mem_flatMap.mp hr
    obtain ⟨m, hm, rfl⟩ := List.mem_map.mp hrow
    have hlocale := encodable_of_ascii (ascii_locale (hc.locales e he).locale)
    have hkey := encodable_of_ascii (ascii_key ((hc.locales e he).messages m hm).key)
    rw [Bool.eq_iff_iff]
    simp only [Bool.and_eq_true, decide_eq_true_eq, beq_iff_eq, utf8_inj hlocale hl,
      utf8_inj hkey hk]
  have hfind := (List.find?_congr hrow).trans (Tables.find?_rows hc.distinctLocales l key)
  rw [C.lookupExact, entryTable, List.find?_map, Option.map_map]
  refine (congrArg (Option.map _) hfind).trans ?_
  rw [Option.map_map]
  rfl

/-! ### The search -/

theorem findSome_snoc {α β : Type} (g : α → Option β) (l : List α) (a : α) [Decidable (a ∈ l)] :
    (if a ∈ l then l else l ++ [a]).findSome? g = (l.findSome? g).or (g a) := by
  split_ifs with h
  · cases hl : l.findSome? g with
    | none => rw [List.findSome?_eq_none_iff.mp hl a h, Option.none_or]
    | some b => rfl
  · rw [List.findSome?_append, List.findSome?_cons, List.findSome?_nil]
    cases g a <;> rfl

theorem findSome_filter {α β : Type} {q : α → Bool} {g : α → Option β}
    (h : ∀ a, q a = false → g a = none) (l : List α) :
    (l.filter q).findSome? g = l.findSome? g := by
  induction l with
  | nil => rfl
  | cons a l ih =>
    rw [List.filter_cons, List.findSome?_cons]
    cases hq : q a with
    | true => rw [if_pos rfl, List.findSome?_cons, ih]
    | false => rw [if_neg Bool.false_ne_true, h a hq, ih]

/-- What a search finds: the message, its locale and its key. -/
abbrev Found := Str × Str × Str

def Found.template (found : Found) : Libc.Bytes := utf8 found.1

/-- The two sides find the same in one locale, and nothing in a locale that is not there. -/
structure SameFind (c : Catalog) (find : Libc.Bytes → Option Libc.Bytes)
    (g : Str → Option Found) : Prop where
  absent : ∀ l, (c.messages.lookup l).isSome = false → g l = none
  same : ∀ s : Chars, IsAscii s → find (s.map chr) = (g (s.map ch)).map Found.template

theorem C.searchParents_succ (find : Libc.Bytes → Option Libc.Bytes) (fuel : Nat)
    (candidate : Libc.Bytes) : C.searchParents find (fuel + 1) candidate =
      (find candidate).or ((C.beforeLast candidate).bind (C.searchParents find fuel)) := by
  rw [C.searchParents]
  cases find candidate with
  | some value => rfl
  | none => cases C.beforeLast candidate <;> rfl

theorem parents_nil (fuel : Nat) (candidates : List Str) :
    parents fuel [] candidates = candidates := by
  cases fuel <;> simp [parents]

/-- The loops over a locale and its parents. -/
theorem searchParents_agree {c : Catalog} {find : Libc.Bytes → Option Libc.Bytes}
    {g : Str → Option Found} (h : SameFind c find g) {n m : Nat} {s : Chars} (hs : IsAscii s)
    (hne : s ≠ []) (hhead : s.head? ≠ some '-') (hn : s.length ≤ n) (hm : s.length ≤ m)
    (before : List Str) : ((parents m (s.map ch) before).findSome? g).map Found.template =
      ((before.findSome? g).map Found.template).or (C.searchParents find n (s.map chr)) := by
  induction m generalizing n s before with
  | zero => exact absurd (List.length_eq_zero_iff.mp (Nat.le_zero.mp hm)) hne
  | succ m ih =>
    obtain ⟨n, rfl⟩ : ∃ k, n = k + 1 :=
      ⟨n - 1, by have := List.length_pos_of_ne_nil hne; omega⟩
    rw [parents, if_neg (by simpa using hne), C.searchParents_succ, C.beforeLast_chr hs,
      beforeLast_ascii hs, h.same s hs, ← Option.or_assoc, ← Option.map_or, ← findSome_snoc]
    by_cases hdash : '-' ∈ s
    · obtain ⟨rest, hrest⟩ := parent_prefix hdash
      have hparent : parent s ≠ [] := fun hnil => hhead (by rw [← hrest, hnil]; rfl)
      have hlen := congrArg List.length hrest
      simp only [List.length_append, List.length_singleton] at hlen
      have hfirst : (parent s).head? ≠ some '-' := by
        rw [← hrest] at hhead
        obtain ⟨d, tail, hd⟩ := List.exists_cons_of_ne_nil hparent
        rw [hd] at hhead ⊢
        exact hhead
      have hascii : IsAscii (parent s) := fun d hd => hs d (by
        rw [← hrest]
        simp [hd])
      rw [if_pos hdash, Option.bind_some]
      refine ih hascii hparent hfirst ?_ ?_ _ <;> omega
    · rw [if_neg hdash, Option.bind_none, Option.or_none, parent_nil hdash, List.map_nil,
        parents_nil]

/-! ### The requested locale -/

theorem text_ne_nil (t : LocaleTag) : t.text ≠ [] := fun h => by
  have hlanguage := t.isLanguage.1
  rw [text_eq, List.append_eq_nil_iff] at h
  rw [h.1] at hlanguage
  cases hlanguage

theorem head_text (t : LocaleTag) : t.text.head? ≠ some '-' := by
  intro h
  obtain ⟨c, rest, hc⟩ := List.exists_cons_of_length_pos
    (show 0 < t.language.length by have := t.isLanguage.1; omega)
  have halpha := t.isLanguage.2.2
  rw [text_eq, hc] at h
  obtain rfl := Option.some.inj h
  have := halpha '-' (by rw [hc]; exact List.mem_cons_self)
  cases this

theorem text_eq_language {t : LocaleTag} (h : '-' ∉ t.text) : t.text = t.language := by
  rw [LocaleTag.text, LocaleTag.parts, Joined.intercalate_singleton] at h ⊢
  cases hrest : t.script.toList ++ (t.region.toList ++ t.variants) with
  | nil => rw [List.flatMap_nil, List.append_nil]
  | cons s rest =>
    rw [hrest] at h
    exact absurd (by simp) h

/-- The canonical tag that reads as a name without dashes. -/
theorem text_of_upper {t : LocaleTag} (ht : t.IsCanonical) {name : Chars}
    (hname : ∀ c ∈ name, c.isAlpha = true) (hupper : t.text.map Char.toUpper = name) :
    t.text = t.language ∧ t.text = name.map Char.toLower := by
  have hdash : '-' ∉ t.text := fun h => by
    have := hname '-' (hupper ▸ List.mem_map_of_mem h)
    cases this
  have hlanguage := text_eq_language hdash
  refine ⟨hlanguage, ?_⟩
  calc t.text = t.text.map Char.toLower := by rw [hlanguage, (isCanonical_iff.mp ht).1]
    _ = (t.text.map Char.toUpper).map Char.toLower := by
        rw [List.map_map]
        exact List.map_congr_left fun c _ => (Char.toLower_toUpper_eq_toLower c).symm
    _ = name.map Char.toLower := by rw [hupper]

theorem spells_text {t : LocaleTag} (ht : t.IsCanonical) (h : t.text ≠ "posix".toList) :
    Spells t.text t := by
  have hdashed : dashed t.text = t.text := by
    rw [dashed, map_eq_self_iff]
    intro c hc
    rw [if_neg]
    rintro rfl
    rcases mem_text hc with h | h <;> cases h
  have halpha : ∀ name : String, name.toList.all Char.isAlpha = true →
      ∀ c ∈ name.toList, c.isAlpha = true := fun name hname => List.all_eq_true.mp hname
  refine ⟨hdashed, fun hc => ?_, fun hposix => ?_⟩
  · obtain ⟨hlanguage, -⟩ := text_of_upper ht (halpha "C" rfl) hc
    have hlen := congrArg List.length hc
    rw [List.length_map, hlanguage, show "C".toList.length = 1 from rfl] at hlen
    have := t.isLanguage.1
    omega
  · exact h ((text_of_upper ht (halpha "POSIX" rfl) hposix).2.trans rfl)

theorem reads_text {t : LocaleTag} (ht : Spells t.text t) :
    pythonReads t.text = t.text ∧ cReads t.text = t.text := by
  have hread : ∀ c ∈ t.text, isWhite c = false ∧ C.readOn c = true := fun c hc => ht.reads hc
  have hskip : ∀ {q : Char → Bool}, (∀ c ∈ t.text, q c = false) → t.text.dropWhile q = t.text := by
    intro q hq
    obtain ⟨c, rest, hc⟩ := List.exists_cons_of_ne_nil (text_ne_nil t)
    rw [hc] at hq ⊢
    exact List.dropWhile_cons_of_neg (by simp [hq c List.mem_cons_self])
  constructor
  · have hstop : t.text.rdropWhile isWhite = t.text := List.rdropWhile_eq_self_iff.mpr fun hne => by
      simp [(hread _ (List.getLast_mem hne)).1]
    have hon : ∀ c ∈ t.text, c ≠ '.' ∧ c ≠ '@' := fun c hc => by
      have := (hread c hc).2
      simp only [C.readOn, Bool.and_eq_true, decide_eq_true_eq] at this
      exact this.1
    rw [pythonReads, hskip fun c hc => (hread c hc).1, hstop,
      List.takeWhile_eq_self_iff.mpr fun c hc => decide_eq_true (hon c hc).2,
      List.takeWhile_eq_self_iff.mpr fun c hc => decide_eq_true (hon c hc).1]
  · have hspace : ∀ c ∈ t.text, C.isSpace c = false := fun c hc => by
      by_contra hs
      have := isWhite_of_isSpace (Bool.of_not_eq_false hs)
      rw [(hread c hc).1] at this
      cases this
    rw [cReads, hskip hspace, List.takeWhile_eq_self_iff.mpr fun c hc => (hread c hc).2]

/-- A canonical locale other than `posix` is its own normal form. -/
theorem normalizeLocale_text {t : LocaleTag} (ht : t.IsCanonical) (h : t.text ≠ "posix".toList) :
    normalizeLocale u (t.text.map ch) = some (t.text.map ch) := by
  have hspells := spells_text ht h
  refine (normalizeLocale_ascii (isAscii_text t) _).mpr ⟨t, ?_, ?_⟩
  · rwa [(reads_text hspells).1]
  · rw [show t.canonical = t from ht]

theorem C.normalized_text {t : LocaleTag} (ht : t.IsCanonical) (h : t.text ≠ "posix".toList)
    (hlen : t.text.length < C.localeCapacity) (canonical : Buffer) :
    C.normalized canonical (t.text.map chr) = some (t.text.map chr) := by
  obtain ⟨hpython, hc⟩ := reads_text (spells_text ht h)
  have hagree : NormalizersAgree .ascii (t.text.map ch) :=
    agree_of_reads_eq (isAscii_text t) (by rwa [hc]) (by rw [hpython, hc])
  have hcases := hagree.cases canonical
  rw [utf8_map_ch (isAscii_text t), normalizeLocale_text ht h] at hcases
  rcases hcases with ⟨hnone, -⟩ | ⟨t', -, heq, hnormal⟩
  · cases hnone
  · rw [hnormal, ← utf8_map_ch (isAscii_text t), Option.some.inj heq, utf8_map_ch (isAscii_text t')]

theorem normalize_posix (canonical : Buffer) : normalizeLocale u (str "posix") = none ∧
    C.normalized canonical (text "posix") = none := by
  have hascii : IsAscii "posix".toList := ascii_of_all rfl
  have hnone : normalizeLocale u (str "posix") = none := normalizeLocale_none hascii fun ⟨t, ht⟩ =>
    ht.2.2 rfl
  have hagree : NormalizersAgree u (str "posix") := agree_of_reads_eq hascii (by decide) (by decide)
  have hcases := hagree.cases canonical
  rw [hnone, utf8_str hascii] at hcases
  refine ⟨hnone, ?_⟩
  rcases hcases with ⟨-, h⟩ | ⟨t, -, h, -⟩
  · exact h
  · cases h

theorem selectsDefault_none {raw : Str} (h : selectsDefault u raw = true) :
    normalizeLocale u raw = none := by
  simp only [selectsDefault, Bool.or_eq_true, decide_eq_true_eq] at h
  rw [normalizeLocale]
  split_ifs with hnil
  · rfl
  dsimp only
  rcases h with (h | h) | h
  · rw [h]
    split_ifs <;> rfl
  · rw [if_pos (by simp [h])]
  · rw [if_pos (by simp [h])]

namespace Translator

theorem request_some (t : Translator) (raw : Str) (environ : Str → Option Str) :
    (t.request u (some raw) environ).1 = (normalizeLocale u raw).getD t.catalog.defaultLocale := by
  rw [request, rawLocale]
  dsimp only
  split_ifs with h
  · rw [selectsDefault_none h]
    rfl
  · cases normalizeLocale u raw <;> rfl

/-- The search of the chain is one of all candidates. -/
theorem search_chain {t : Translator} (ht : HasDefault t.catalog) {g : Str → Option Found}
    (hg : ∀ l, (t.catalog.messages.lookup l).isSome = false → g l = none) (locale : Str)
    (environ : Str → Option Str) : (t.setLocale u (some locale) environ).2.chain.findSome? g =
      (localeCandidates u ((normalizeLocale u locale).getD t.catalog.defaultLocale)
        t.catalog.defaultLocale).findSome? g := by
  have hcatalog := request_catalog (u := u) t (some locale) environ
  have hdefault : t.catalog.defaultLocale ∈ (localeCandidates u
      (t.request u (some locale) environ).1 t.catalog.defaultLocale).filter fun item =>
        (t.catalog.messages.lookup item).isSome :=
    List.mem_filter.mpr ⟨default_mem_candidates _ _, ht⟩
  rw [setLocale, (select_chain _ _).2, available, hcatalog, if_neg (List.ne_nil_of_mem hdefault),
    findSome_filter hg, request_some]

/-- From a locale that both sides have, the two searches find the same. -/
theorem candidates_agree {c : Catalog} {find : Libc.Bytes → Option Libc.Bytes}
    {g : Str → Option Found} (h : SameFind c find g) {t : LocaleTag} (ht : t.IsCanonical)
    (hposix : t.text ≠ "posix".toList) {d : Chars} (hd : IsAscii d) :
    (C.searchParents find ((t.text.map chr).length + 1) (t.text.map chr)).or (find (d.map chr)) =
      ((localeCandidates u (t.text.map ch) (d.map ch)).findSome? g).map Found.template := by
  have hparents := searchParents_agree h (isAscii_text t) (text_ne_nil t) (head_text t)
    (n := (t.text.map chr).length + 1) (m := (t.text.map ch).length) (by simp) (by simp) []
  rw [List.findSome?_nil, Option.map_none, Option.none_or] at hparents
  rw [localeCandidates, normalizeLocale_text ht hposix, Option.getD_some, findSome_snoc,
    Option.map_or, hparents, h.same d hd]

end Translator

/-- The default locale of an accepted catalog. -/
theorem Catalog.Valid.defaultTag {c : Catalog} (h : c.Valid u) : ∃ t : LocaleTag,
    t.IsCanonical ∧ t.text.length < C.localeCapacity ∧ c.defaultLocale = t.text.map ch := by
  obtain ⟨m, hm⟩ := h.default
  have hlocale := (h.locales _ hm).locale
  rw [isLocale, Bool.and_eq_true, decide_eq_true_eq] at hlocale
  obtain ⟨t, ht, htext⟩ := locale_iff.mp hlocale.2
  refine ⟨t, ht, ?_, htext⟩
  have hlen := hlocale.1
  rw [htext, List.length_map] at hlen
  exact Nat.lt_succ_of_le hlen

/-- Neither side has a locale to begin with but the default, which the C SDK does not accept. -/
def Unset (u : UnicodeData) (c : Catalog) (locale : Str) : Prop :=
  c.defaultLocale = str "posix" ∧ normalizeLocale u locale = none

theorem search_cases {c : Catalog} (hc : c.Valid u) (hd : Translator.HasDefault c)
    (canonical : Buffer) {locale : Str} (hagree : NormalizersAgree u locale) {t : Translator}
    (ht : t.catalog = c) (environ : Str → Option Str) :
    let chain := (t.setLocale u (some locale) environ).2.chain
    let requested := C.requestedLocale canonical (entryTable c) (some (utf8 locale))
    (Unset u c locale ∧ requested = none ∧ ∀ g : Str → Option Found,
      (∀ l, (c.messages.lookup l).isSome = false → g l = none) →
        chain.findSome? g = g c.defaultLocale) ∨
    (¬Unset u c locale ∧ ∃ candidate, requested = some candidate ∧
      ∀ find g, SameFind c find g →
        (C.searchParents find (candidate.length + 1) candidate).or
          (find (entryTable c).defaultLocale) = (chain.findSome? g).map Found.template) := by
  subst ht
  obtain ⟨d, hd_canonical, hd_len, hdefault⟩ := hc.defaultTag
  have htable : (entryTable t.catalog).defaultLocale = d.text.map chr := by
    rw [entryTable, hdefault, utf8_map_ch (isAscii_text d)]
  -- a tag at which both begin
  have agree : ∀ tag : LocaleTag, tag.IsCanonical → tag.text ≠ "posix".toList →
      (normalizeLocale u locale).getD t.catalog.defaultLocale = tag.text.map ch →
      ∀ find g, SameFind t.catalog find g →
        (C.searchParents find ((tag.text.map chr).length + 1) (tag.text.map chr)).or
          (find (entryTable t.catalog).defaultLocale) =
        ((t.setLocale u (some locale) environ).2.chain.findSome? g).map Found.template := by
    intro tag htag hposix heq find g hfind
    rw [Translator.search_chain hd hfind.absent, heq, htable, hdefault]
    exact Translator.candidates_agree hfind htag hposix (isAscii_text d)
  rcases hagree.cases canonical with ⟨hnone, hc_none⟩ | ⟨tag, htag, hsome, hc_some⟩
  · have hrequested : C.requestedLocale canonical (entryTable t.catalog) (some (utf8 locale)) =
        C.normalized canonical (d.text.map chr) := by
      rw [C.requestedLocale, Option.bind_some, hc_none, ite_self, htable]
    by_cases hposix : d.text = "posix".toList
    · have hname : t.catalog.defaultLocale = str "posix" := by rw [hdefault, hposix]; rfl
      refine .inl ⟨⟨hname, hnone⟩, ?_, fun g hg => ?_⟩
      · rw [hrequested, hposix]
        exact (normalize_posix (u := u) canonical).2
      · have hparents : parents (str "posix").length (str "posix") [] = [str "posix"] := by
          decide +kernel
        rw [Translator.search_chain hd hg, hnone, Option.getD_none, hname, localeCandidates,
          (normalize_posix (u := u) canonical).1, Option.getD_none, findSome_snoc, hparents,
          List.findSome?_cons]
        cases g (str "posix") <;> rfl
    · refine .inr ⟨fun h => hposix ?_, _, hrequested.trans
        (C.normalized_text hd_canonical hposix hd_len canonical),
        agree d hd_canonical hposix (by rw [hnone, Option.getD_none, hdefault])⟩
      exact (map_ch_inj (isAscii_text d) (ascii_of_all rfl)).mp (hdefault.symm.trans h.1)
  · have hposix : tag.text ≠ "posix".toList := fun h => by
      rw [h] at hc_some
      exact C.normalized_ne_posix canonical _ hc_some
    have hne : utf8 locale ≠ [] := by
      intro hnil
      rw [hnil] at hc_some
      cases hc_some
    refine .inr ⟨fun h => ?_, tag.text.map chr, ?_,
      agree tag htag hposix (by rw [hsome, Option.getD_some])⟩
    · rw [h.2] at hsome
      cases hsome
    · rw [C.requestedLocale, Option.bind_some, if_neg hne, hc_some]

/-! ### The keys -/

theorem findMessage_template (c : Catalog) (l : Str) (keys : List Str) :
    (Translator.findMessage c l keys).map Found.template =
      keys.findSome? fun k => (c.template l k).map utf8 := by
  rw [Translator.findMessage]
  induction keys with
  | nil => rfl
  | cons k keys ih =>
    rw [List.findSome?_cons, List.findSome?_cons]
    cases c.template l k with
    | some message => rfl
    | none => exact ih

theorem findMessage_absent {c : Catalog} {l : Str} (h : (c.messages.lookup l).isSome = false)
    (keys : List Str) : Translator.findMessage c l keys = none := by
  rw [Translator.findMessage, List.findSome?_eq_none_iff]
  intro k _
  rw [Catalog.template, Option.isSome_eq_false_iff.mp h |> Option.isNone_iff_eq_none.mp]
  rfl

theorem sameFind_lookup {c : Catalog} (hc : c.Valid u) {key : Str} (hk : Encodable key) :
    SameFind c (fun l => (C.lookupExact (entryTable c) l (utf8 key)).or none)
      fun l => Translator.findMessage c l [key] where
  absent _ hl := findMessage_absent hl _
  same s hs := by
    rw [findMessage_template, ← utf8_map_ch hs,
      lookupExact_entryTable hc (encodable_map_ch hs) hk, List.findSome?_cons, List.findSome?_nil]
    cases c.template (s.map ch) key <;> rfl

theorem Category.text_ascii (category : Category) : ∀ c ∈ category.text.toList, c.toNat < 0x80 := by
  cases category <;> exact ascii_of_all rfl

/-- A key that the fixed buffers do not hold is in no catalog. -/
theorem template_long {c : Catalog} (hc : c.Valid u) {l key : Str} (h : 160 < (utf8 key).length) :
    c.template l key = none := by
  refine Option.eq_none_iff_forall_ne_some.mpr fun message hmessage => ?_
  have hkey := (hc.of_template hmessage).1.key
  have hlen := hkey
  rw [isMessageKey, Bool.and_eq_true, decide_eq_true_eq] at hlen
  rw [length_utf8_ascii (ascii_key hkey)] at h
  exact absurd hlen.1 (Nat.not_le.mpr h)

theorem sameFind_plural {c : Catalog} (hc : c.Valid u) {key : Str} (hk : Encodable key)
    (categoryOf : Libc.Bytes → Int → Category) (count : Int) :
    SameFind c (C.lookupPluralExact categoryOf (entryTable c) (utf8 key) count)
      fun l => Translator.findMessage c l
        (Translator.pluralKeys key (categoryOf (utf8 l) count)) where
  absent _ hl := findMessage_absent hl _
  same s hs := by
    rw [findMessage_template, C.lookupPluralExact, utf8_map_ch hs]
    generalize categoryOf (s.map chr) count = category
    have hother : utf8 key ++ text ".other" = utf8 (key ++ str ".other") := by
      rw [utf8_append, utf8_str (ascii_of_all rfl)]
    have hcategory : utf8 key ++ text "." ++ text category.text =
        utf8 (key ++ str "." ++ str category.text) := by
      rw [utf8_append, utf8_append, utf8_str (ascii_of_all rfl), utf8_str category.text_ascii]
    have hfind : ∀ k, Python.Encodable k → C.lookupExact (entryTable c) (s.map chr) (utf8 k) =
        (c.template (s.map ch) k).map utf8 := fun k hk => by
      rw [← utf8_map_ch hs, lookupExact_entryTable hc (encodable_map_ch hs) hk]
    have hkeys : (Translator.pluralKeys key category).findSome?
          (fun k => (c.template (s.map ch) k).map utf8) =
        ((c.template (s.map ch) (key ++ str "." ++ str category.text)).map utf8).or
          ((c.template (s.map ch) (key ++ str ".other")).map utf8) := by
      by_cases h : category = .other
      · subst h
        have hsame : key ++ str "." ++ str Category.other.text = key ++ str ".other" := by
          rw [List.append_assoc]
          rfl
        rw [Translator.pluralKeys, if_pos rfl, hsame, Option.or_self, List.findSome?_cons,
          List.findSome?_nil]
        cases c.template (s.map ch) (key ++ str ".other") <;> rfl
      · rw [Translator.pluralKeys, if_neg h]
        simp only [List.findSome?_cons, List.findSome?_nil]
        cases c.template (s.map ch) (key ++ str "." ++ str category.text) <;>
          cases c.template (s.map ch) (key ++ str ".other") <;> rfl
    rw [hkeys, hcategory, hother]
    split_ifs with hlong
    · have hbound : 160 < (utf8 (key ++ str "." ++ str category.text)).length ∧
          160 < (utf8 (key ++ str ".other")).length := by
        have hlen : category.text.toList.length ≤ 5 := by cases category <;> decide
        rw [← hcategory, ← hother] at hlong ⊢
        simp only [C.keyCapacity, Bool.or_eq_true, decide_eq_true_eq, List.length_append, Libc.text,
          List.length_map] at hlong ⊢
        have h1 : ".".toList.length = 1 := rfl
        have h6 : ".other".toList.length = 6 := rfl
        omega
      rw [template_long hc hbound.1, template_long hc hbound.2]
      rfl
    · have hencodable : ∀ name : String, (∀ c ∈ name.toList, c.toNat < 0x80) →
          Python.Encodable (str name) := fun _ h => encodable_map_ch h
      rw [hfind _ (List.forall_mem_append.mpr ⟨List.forall_mem_append.mpr
          ⟨hk, hencodable "." (ascii_of_all rfl)⟩, hencodable _ category.text_ascii⟩),
        hfind _ (List.forall_mem_append.mpr ⟨hk, hencodable ".other" (ascii_of_all rfl)⟩)]

theorem resolveCount_eq (t : Translator) (categoryOf : Str → Category) (key : Str) :
    t.resolveCount categoryOf key = .ok ((t.chain.findSome? fun l =>
      Translator.findMessage t.catalog l (Translator.pluralKeys key (categoryOf l))).or
        (t.resolve [key])) := by
  have hplural : ∀ chain : List Str, Translator.resolvePlural t.catalog
      (fun l => .ok (categoryOf l)) key chain = .ok (chain.findSome? fun l =>
        Translator.findMessage t.catalog l (Translator.pluralKeys key (categoryOf l))) := by
    intro chain
    induction chain with
    | nil => rfl
    | cons l chain ih =>
      rw [Translator.resolvePlural, List.findSome?_cons]
      cases hfound : Translator.findMessage t.catalog l
          (Translator.pluralKeys key (categoryOf l)) with
      | some found => simp [bind, Except.bind, hfound, pure, Except.pure]
      | none => simp [bind, Except.bind, hfound, ih]
  rw [Translator.resolveCount, hplural]
  rfl

theorem findMessage_eq_none {c : Catalog} {l : Str} {keys : List Str} :
    Translator.findMessage c l keys = none ↔ ∀ k ∈ keys, c.template l k = none := by
  rw [Translator.findMessage, List.findSome?_eq_none_iff]
  simp only [Option.map_eq_none_iff]

/-- The C SDK finds the template that the translator finds, unless the default locale is `posix`,
the requested one is invalid, and the catalog has a message for one of the keys. -/
theorem lookups_agree {document : Document} {c : Catalog} (h : fromMapping p document = .ok c)
    (canonical : Buffer) {locale : Str} (hagree : NormalizersAgree p.unicode locale) {key : Str}
    (hkey : Encodable key) (hne : key ≠ []) (categoryOf : Libc.Bytes → Int → Category)
    (count : Int) {t : Translator} (ht : t.catalog = c) (environ : Str → Option Str) :
    let selected := (t.setLocale p.unicode (some locale) environ).2
    (C.lookup canonical (entryTable c) (some (utf8 locale)) (utf8 key) =
        (selected.resolve [key]).map Found.template ↔
      ¬(Unset p.unicode c locale ∧ (c.template c.defaultLocale key).isSome)) ∧
    (.ok (C.lookupPlural categoryOf canonical (entryTable c) (some (utf8 locale)) (utf8 key) count) =
        (selected.resolveCount (fun l => categoryOf (utf8 l) count) key).map
          (Option.map Found.template) ↔
      ¬(Unset p.unicode c locale ∧ ∃ k ∈ key :: Translator.pluralKeys key
        (categoryOf (utf8 c.defaultLocale) count), (c.template c.defaultLocale k).isSome)) := by
  obtain ⟨d, -, hok⟩ := fromMapping_ok h
  have hc := fromMapping_valid h
  have hcatalog : (t.setLocale p.unicode (some locale) environ).2.catalog = c :=
    (Translator.setLocale_chainOk (by rw [ht]; exact hok.present) _ _).1.trans ht
  have hsearch := search_cases hc hok.present canonical hagree ht environ
  have hbytes : utf8 key ≠ [] := fun hnil => hne ((utf8_inj hkey (List.forall_mem_nil _)).mp hnil)
  have hlookup := sameFind_lookup hc hkey
  have hplural := sameFind_plural hc hkey categoryOf count
  dsimp only
  rw [resolveCount_eq, Translator.resolve, hcatalog, C.lookup, C.lookupKeys, if_neg hbytes,
    C.lookupPlural, if_neg hbytes, C.lookup, C.lookupKeys, if_neg hbytes]
  dsimp only [Option.bind_none]
  rcases hsearch with ⟨hunset, hrequested, hfind⟩ | ⟨hset, candidate, hrequested, hfind⟩
  · have hkeys := hfind _ hlookup.absent
    have hforms := hfind _ hplural.absent
    rw [hrequested, hkeys, hforms, Option.bind_none, Option.bind_none, Except.map]
    simp only [hunset, true_and, eq_comm (a := (none : Option Libc.Bytes)), Except.ok.injEq,
      Option.map_eq_none_iff, Option.or_eq_none_iff, findMessage_eq_none, List.mem_cons,
      List.not_mem_nil, or_false, forall_eq, not_exists, not_and, Bool.not_eq_true,
      Option.isSome_eq_false_iff, Option.isNone_iff_eq_none, forall_eq_or_imp]
    exact and_comm
  · have hkeys := hfind _ _ hlookup
    have hforms := hfind _ _ hplural
    rw [hrequested, Option.bind_some, Option.bind_some, hkeys, hforms, ← Option.map_or]
    exact ⟨iff_of_true rfl fun h => hset h.1, iff_of_true rfl fun h => hset h.1⟩

/-- A catalog whose default locale is a language by the name of `posix`. -/
def posixGreetings : Catalog where
  id := str "org.msys.greetings"
  defaultLocale := str "posix"
  messages := [(str "posix", [(str "greeting", str "Hello")])]
  description := none

def posixDocument : Document where
  value := .dict
    [(.str (str "schema"), .str catalogSchema), (.str (str "id"), .str posixGreetings.id),
      (.str (str "default_locale"), .str posixGreetings.defaultLocale),
      (.str (str "messages"), .dict (embedMessages posixGreetings.messages))]
  distinct := by decide +kernel

/-- The C SDK finds nothing in it where the default locale is asked for. -/
theorem lookups_disagree : ¬∀ (document : Document) (c : Catalog),
    fromMapping ⟨.ascii, fun _ => [], fun _ => []⟩ document = .ok c →
    ∀ (canonical : Buffer) (locale : Str), NormalizersAgree .ascii locale →
    ∀ key : Str, Python.Encodable key → key ≠ [] → ∀ t : Translator, t.catalog = c →
    ∀ environ : Str → Option Str,
      C.lookup canonical (entryTable c) (some (utf8 locale)) (utf8 key) =
        ((t.setLocale .ascii (some locale) environ).2.resolve [key]).map Found.template := by
  intro h
  have hagree : NormalizersAgree .ascii (str "C") :=
    agree_of_reads_eq (ascii_of_all rfl) (by decide) (by decide)
  have heq := h posixDocument posixGreetings (by decide +kernel) (fun _ => 0) (str "C") hagree
    (str "greeting") (encodable_map_ch (ascii_of_all rfl)) (by decide)
    ⟨posixGreetings, 8, [], [], [], []⟩ rfl fun _ => none
  revert heq
  decide +kernel

theorem lookups_agree_greetings :
    C.lookup (fun _ => 0) (entryTable greetings) (some (utf8 (str "fr_CA"))) (utf8 (str "greeting")) =
      some (Libc.text "Bonjour, \x7bname\x7d") := by
  have hagree : NormalizersAgree .ascii (str "fr_CA") :=
    agree_of_reads_eq (ascii_of_all rfl) (by decide) (by decide)
  have hkey : Python.Encodable (str "greeting") := encodable_map_ch (ascii_of_all rfl)
  have heq := (lookups_agree greetings_accepted (fun _ => 0) hagree hkey (by decide) (fun _ _ => .other) 0
    (t := ⟨greetings, 8, [], [], [], []⟩) rfl fun _ => none).1
  rw [heq.mpr fun hunset => absurd hunset.1.1 (by decide)]
  decide +kernel

end Msys.I18n
