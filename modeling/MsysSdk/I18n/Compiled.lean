import MsysSdk.I18n.CDenotation
import MsysSdk.I18n.Lookup
import MsysSdk.I18n.Rendering

/-! A C program with a generated header and the translator of the catalog that the header was made
from: what the one looks up and renders is what the other says. -/

namespace Msys.I18n
open Python hiding Bytes
open Libc LocaleTag
open Template (expand Encoding)

variable {u : UnicodeData} {p : Printer} {document : Document} {c : Catalog}

/-! ### Rendering -/

/-- The program passes the text of every argument of the translator. -/
def Passes (params : List (Str × Str)) (get : Str → Option Value) : Prop :=
  ∀ name, rendered (get name) = params.lookup name

theorem Passes.count {params : List (Str × Str)} {get : Str → Option Value}
    (h : Passes params get) {count : Int} (hlo : minPlaceholderInteger ≤ count)
    (hhi : count ≤ maxPlaceholderInteger) : Passes ((str "count", intText count) :: params)
      (Function.update get (str "count") (some (.int count))) := by
  intro name
  rw [List.lookup_cons]
  rcases eq_or_ne name (str "count") with rfl | hne
  · rw [Function.update_self, beq_self_eq_true, rendered, if_pos ⟨hlo, hhi⟩]
  · rw [Function.update_of_ne hne, beq_false_of_ne hne]
    exact h name

/-- `msys_i18n_render` writes what is said, as far as the buffer goes, and tells how many bytes it
has, if that number is less than `SIZE_MAX`. -/
def C.Prints (bits : Nat) (message : Libc.Bytes) (params : List C.Param) (said : Str) : Prop :=
  ∃ bytes, encodeUtf8 said = some bytes ∧ (bytes.length + 1 < 2 ^ bits →
    ∀ (output : Option Buffer) (capacity : Nat), (capacity ≠ 0 → output.isSome = true) →
      C.RendersTo bytes true capacity output
        (C.render bits (some message) (some params) output capacity))

theorem prints_of_parses (bits : Nat) {template : Str} (ht : CText template)
    (hparses : (parseTemplate u template).2 = []) {params : List (Str × Str)}
    (hp : ∀ e ∈ params, CText e.1 ∧ CText e.2) {get : Str → Option Value}
    (hget : Passes params get) :
    C.Prints bits (cBytes template) (toParams params) (I18n.render u template get).1 := by
  have hfill : fillWith get = fillWith (arguments params) := by
    funext name
    rw [fillWith, fillWith, hget, rendered_arguments]
  obtain ⟨bytes, hexpand⟩ := Option.ne_none_iff_exists'.mp fun hnone =>
    (errors_iff (u := u) ht hp).mpr hnone hparses
  refine ⟨bytes, ?_, fun hfits output capacity hout => C.render_fits bits hexpand hfits hout⟩
  rw [expand_cBytes ht hp] at hexpand
  obtain ⟨text, hpython, rfl⟩ := Option.map_eq_some_iff.mp hexpand
  rw [render_output (hfill ▸ hpython), encodable_iff.mp (encodable_expand ht hp hpython)]

/-! ### The translator -/

namespace Translator

/-- Everything but `set_locale`. -/
def Keeps : Translator → Action → Prop
  | _, .setLocale .. => False
  | _, _ => True

theorem reach_same {t t' : Translator} (h : Transition.Reach (step u) Keeps t t') : Same t t' := by
  refine h.invariant (P := Same t) ⟨rfl, rfl⟩ fun s a s' hs hk hstep => hs.trans ?_
  cases a with
  | setLocale locale environ => exact hk.elim
  | text key params fallback =>
    obtain rfl := Option.some.inj hstep
    exact same_text ..
  | plural key count params fallback =>
    rw [step] at hstep
    split at hstep <;> obtain rfl := Option.some.inj hstep
    next hok => exact same_plural hok
    next => exact ⟨rfl, rfl⟩
  | clearDiagnostics =>
    obtain rfl := Option.some.inj hstep
    exact ⟨rfl, rfl⟩

/-- What `text` and `plural` say of a message that was found. -/
def saying (u : UnicodeData) (found : Option Found) (key : Str) (get : Str → Option Value)
    (fallback : Option Str) : Str :=
  match found, fallback with
  | some (template, _, _), _ => (I18n.render u template get).1
  | none, some template => (I18n.render u template get).1
  | none, none => key

theorem text_fst (t : Translator) (key : Str) (get : Str → Option Value) (fallback : Option Str) :
    (t.text u key (.mapping get) fallback).1 = saying u (t.resolve [key]) key get fallback := by
  rw [text]
  cases t.resolve [key] with
  | some found => rfl
  | none => cases fallback <;> rfl

theorem resolvePlural_congr {f g : Str → Except Str Category} (key : Str) {chain : List Str}
    (h : ∀ l ∈ chain, f l = g l) : resolvePlural c f key chain = resolvePlural c g key chain := by
  induction chain with
  | nil => rfl
  | cons l chain ih =>
    rw [resolvePlural, resolvePlural, h l List.mem_cons_self,
      ih fun l hl => h l (List.mem_cons_of_mem _ hl)]

theorem plural_fst (t : Translator) {categoryOf : Str → Category} {key : Str} {count : Int}
    (h : ∀ l ∈ t.chain, pluralCategory u l count = .ok (categoryOf l)) {found : Option Found}
    (hfound : t.resolveCount categoryOf key = .ok found) (get : Str → Option Value)
    (fallback : Option Str) : (t.plural u key count (.mapping get) fallback).map Prod.fst =
      .ok (saying u found key (Function.update get (str "count") (some (.int count))) fallback) := by
  rw [resolveCount, ← resolvePlural_congr (f := fun l => pluralCategory u l count) key h] at hfound
  rw [plural]
  cases hplural : resolvePlural t.catalog (fun l => pluralCategory u l count) key t.chain with
  | error e =>
    rw [hplural] at hfound
    cases hfound
  | ok forms =>
    rw [hplural] at hfound
    obtain rfl := Except.ok.inj hfound
    dsimp only
    cases forms.or (t.resolve [key]) with
    | some found => rfl
    | none => cases fallback <;> rfl

theorem resolve_template {t : Translator} {keys : List Str} {found : Found}
    (h : t.resolve keys = some found) : t.catalog.template found.2.1 found.2.2 = some found.1 := by
  obtain ⟨l, -, hl⟩ := List.exists_of_findSome?_eq_some h
  obtain ⟨k, -, hk⟩ := List.exists_of_findSome?_eq_some hl
  obtain ⟨message, hmessage, rfl⟩ := Option.map_eq_some_iff.mp hk
  exact hmessage

theorem resolveCount_template {t : Translator} {categoryOf : Str → Category} {key : Str}
    {found : Found} (h : t.resolveCount categoryOf key = .ok (some found)) :
    t.catalog.template found.2.1 found.2.2 = some found.1 := by
  rw [resolveCount_eq] at h
  rcases Option.or_eq_some_iff.mp (Except.ok.inj h) with hplural | ⟨-, hkey⟩
  · obtain ⟨l, -, hl⟩ := List.exists_of_findSome?_eq_some hplural
    obtain ⟨k, -, hk⟩ := List.exists_of_findSome?_eq_some hl
    obtain ⟨message, hmessage, rfl⟩ := Option.map_eq_some_iff.mp hk
    exact hmessage
  · exact resolve_template hkey

end Translator

/-! ### The program -/

/-- A program that renders what it has found, or else its own text for the key. -/
def C.Speaks (bits : Nat) (found : Option Libc.Bytes) (params : List C.Param)
    (fallback : Option Str) (key said : Str) : Prop :=
  match found, fallback with
  | some message, _ => C.Prints bits message params said
  | none, some template => C.Prints bits (cBytes template) params said
  | none, none => said = key

/-- The translator renders with the catalog's own messages. -/
theorem speaks_of_found (bits : Nat) (hc : c.Valid u) (hencodable : ∀ s ∈ c.strings, Python.Encodable s)
    {found : Option Found} (hfound : ∀ x ∈ found, c.template x.2.1 x.2.2 = some x.1)
    {params : List (Str × Str)} (hp : ∀ e ∈ params, CText e.1 ∧ CText e.2)
    {get : Str → Option Value} (hget : Passes params get) {fallback : Option Str}
    (hfallback : ∀ f ∈ fallback, CText f ∧ (parseTemplate u f).2 = []) (key : Str) :
    C.Speaks bits (found.map Found.template) (toParams params) fallback key
      (Translator.saying u found key get fallback) := by
  cases found with
  | some found =>
    have hmessage := hfound found rfl
    obtain ⟨hmok, -⟩ := hc.of_template hmessage
    obtain ⟨messages, hmessages, hlookup⟩ := Option.bind_eq_some_iff.mp hmessage
    have hentry : (⟨found.2.1, found.2.2, found.1⟩ : HeaderEntry) ∈ c.entries :=
      CHeader.mem_entries.mpr ⟨_, Tables.mem_of_lookup hmessages, _, Tables.mem_of_lookup hlookup, rfl⟩
    have htext : CText found.1 :=
      ⟨((CHeader.encodable_fields hencodable).2.2 _ hentry).2.2, hmok.noNul⟩
    have hprints := prints_of_parses bits htext hmok.parses hp hget
    rw [htext.cBytes_eq] at hprints
    exact hprints
  | none =>
    cases fallback with
    | some template =>
      obtain ⟨htext, hparses⟩ := hfallback template rfl
      exact prints_of_parses bits htext hparses hp hget
    | none => rfl

theorem table_meaning (c : Catalog) : (CHeader.meaning c).toCatalog = entryTable c := by
  simp [CHeader.meaning, entryTable, Catalog.entries, Tables.rows, List.map_flatMap,
    Function.comp_def]

theorem text_of_renderCHeader {symbol text : Str} (h : renderCHeader c symbol = .ok text) :
    cIdentifier.rmatch symbol = true ∧ (∀ s ∈ c.strings, Python.Encodable s) ∧
      text = CHeader.headerText c symbol := by
  have hrender := h
  rw [renderCHeader] at h
  split_ifs at h with hsymbol hstrings
  have hname : cIdentifier.rmatch symbol = true := by simpa using hsymbol
  have hencodable : ∀ s ∈ c.strings, Python.Encodable s := by
    intro s hs
    obtain ⟨bytes, hbytes⟩ := Option.isSome_iff_exists.mp (List.all_eq_true.mp hstrings s hs)
    rw [encodable_iff, utf8_of_encode hbytes, hbytes]
  rw [CHeader.renderCHeader_ok hname hencodable] at hrender
  exact ⟨hname, hencodable, (Except.ok.inj hrender).symm⟩

/-- The category of a locale of the catalog. -/
theorem category_agrees (hc : c.Valid u) {l : Str} (hl : (c.messages.lookup l).isSome = true)
    {count : Int} (hlo : minPlaceholderInteger ≤ count) (hhi : count ≤ maxPlaceholderInteger)
    (hportugal : count = 0 → ∀ tag : LocaleTag, l = tag.text.map ch → ¬MoreThanPortugal tag)
    (canonical : Buffer) :
    pluralCategory u l count = .ok (C.pluralCategory canonical (some (utf8 l)) count) := by
  obtain ⟨messages, hmessages⟩ := Option.isSome_iff_exists.mp hl
  have hlocale := (hc.locales _ (Tables.mem_of_lookup hmessages)).locale
  rw [isLocale, Bool.and_eq_true, decide_eq_true_eq] at hlocale
  obtain ⟨tag, htag, rfl⟩ := locale_iff.mp hlocale.2
  have hlen : tag.text.length < C.localeCapacity := by
    have := hlocale.1
    rw [List.length_map] at this
    exact Nat.lt_succ_of_le this
  rw [C.pluralCategory, Option.bind_some, magnitude_of_bounds hlo hhi, utf8_map_ch (isAscii_text tag)]
  by_cases hposix : tag.text = "posix".toList
  · -- both take the rules of English
    obtain ⟨hpython, hnormal⟩ := normalize_posix (u := u) canonical
    have hname : tag.text.map ch = str "posix" := by rw [hposix]; rfl
    have hbytes : tag.text.map chr = text "posix" := by rw [hposix]; rfl
    rw [hname, hbytes, hnormal, Option.getD_none,
      pluralCategory_of_tag (t := english) (by rw [hpython]; rfl) hlo hhi]
    refine congrArg Except.ok ((cardinal_eq_iff (t := english) rfl _).mpr fun h => ?_)
    exact absurd h.2.1 (by decide)
  · rw [C.normalized_text htag hposix hlen, Option.getD_some,
      pluralCategory_of_tag (t := tag) (by rw [normalizeLocale_text htag hposix]; rfl) hlo hhi]
    refine congrArg Except.ok ((cardinal_eq_iff htag _).mpr fun h => ?_)
    exact hportugal (Int.natAbs_eq_zero.mp h.1) tag rfl h.2

/-- The two searches, from any locale but the one that only the C SDK rejects. -/
theorem lookups_selected (h : fromMapping p document = .ok c) (canonical : Buffer) {locale : Str}
    (hagree : NormalizersAgree p.unicode locale) (hset : ¬Unset p.unicode c locale) {key : Str}
    (hkey : Python.Encodable key) (hne : key ≠ []) (categoryOf : Libc.Bytes → Int → Category)
    (count : Int) {t : Translator} (ht : t.catalog = c) (environ : Str → Option Str) :
    let selected := (t.setLocale p.unicode (some locale) environ).2
    C.lookup canonical (entryTable c) (some (utf8 locale)) (utf8 key) =
        (selected.resolve [key]).map Found.template ∧
      ∃ found, selected.resolveCount (fun l => categoryOf (utf8 l) count) key = .ok found ∧
        C.lookupPlural categoryOf canonical (entryTable c) (some (utf8 locale)) (utf8 key) count =
          found.map Found.template := by
  obtain ⟨_, -, hok⟩ := fromMapping_ok h
  have hc := fromMapping_valid h
  have hcatalog : (t.setLocale p.unicode (some locale) environ).2.catalog = c :=
    (Translator.setLocale_chainOk (by rw [ht]; exact hok.present) _ _).1.trans ht
  have hbytes : utf8 key ≠ [] := fun hnil => hne ((utf8_inj hkey (List.forall_mem_nil _)).mp hnil)
  obtain ⟨hunset, -⟩ | ⟨-, candidate, hrequested, hfind⟩ :=
    search_cases hc hok.present canonical hagree ht environ
  · exact absurd hunset hset
  have hlookup : C.lookup canonical (entryTable c) (some (utf8 locale)) (utf8 key) =
      ((t.setLocale p.unicode (some locale) environ).2.resolve [key]).map Found.template := by
    rw [C.lookup, C.lookupKeys, if_neg hbytes, hrequested, Translator.resolve, hcatalog]
    exact hfind _ _ (sameFind_lookup hc hkey)
  refine ⟨hlookup, _, resolveCount_eq _ _ key, ?_⟩
  rw [C.lookupPlural, if_neg hbytes, hrequested, Option.bind_some, hlookup,
    hfind _ _ (sameFind_plural hc hkey categoryOf count), ← Option.map_or, hcatalog]

/-- What both are asked: for a locale that both read alike, a key, its parameters and what to say
instead of a missing message, a template. C strings hold all of these texts. -/
structure Question (u : UnicodeData) (c : Catalog) where
  locale : Str
  key : Str
  params : List (Str × Str)
  get : Str → Option Value
  fallback : Option Str
  agree : NormalizersAgree u locale
  set : ¬Unset u c locale
  localeText : CText locale
  keyText : CText key
  keyNonempty : key ≠ []
  paramsText : ∀ e ∈ params, CText e.1 ∧ CText e.2
  passes : Passes params get
  fallbackParses : ∀ f ∈ fallback, CText f ∧ (parseTemplate u f).2 = []

/-- The count as one more parameter, which hides another of its name. -/
def Question.counted (q : Question u c) (count : Int) : List (Str × Str) :=
  (str "count", intText count) :: q.params

theorem cText_intText (i : Int) : CText (intText i) := by
  have hdigits : CText (natRepr i.natAbs) := by
    refine cText_map_ch (List.all_eq_true.mpr fun c hc => ?_)
    have hdigit := Nat.isDigit_of_mem_toDigits (by decide) (by decide) hc
    obtain ⟨hlo, hhi⟩ := Char.isDigit_iff_toNat.mp hdigit
    rw [Bool.and_eq_true, decide_eq_true_eq, decide_eq_true_eq]
    exact ⟨lt_of_lt_of_le (by decide) hlo, lt_of_le_of_lt hhi (by decide)⟩
  rw [intText]
  split_ifs
  · exact (@cText_map_ch ['-'] rfl).append hdigits
  · exact hdigits

theorem Question.counted_text (q : Question u c) (count : Int) :
    ∀ e ∈ q.counted count, CText e.1 ∧ CText e.2 := by
  exact List.forall_mem_cons.mpr ⟨⟨cText_map_ch rfl, cText_intText count⟩, q.paramsText⟩

/-- Whatever the generator makes of a catalog without trigraphs, a C program that is compiled with
it says what the translator says since it was last given the locale, in every run. -/
theorem program_speaks (bits : Nat) (h : fromMapping p document = .ok c) {symbol text : Str}
    (hrender : renderCHeader c symbol = .ok text) (husable : CHeader.usable symbol = true)
    (hclear : ∀ e ∈ c.entries, C11.hasTrigraph e.value = false) :
    ∃ header, CHeader.readHeader symbol text = some header ∧
      ∀ (q : Question p.unicode c) (t₀ t : Translator) (environ : Str → Option Str),
        t₀.catalog = c →
        Transition.Reach (Translator.step p.unicode) Translator.Keeps
          (t₀.setLocale p.unicode (some q.locale) environ).2 t → ∀ canonical : Buffer,
        C.Speaks bits (C.lookup canonical header.toCatalog (some (cBytes q.locale)) (cBytes q.key))
          (toParams q.params) q.fallback q.key
          (t.text p.unicode q.key (.mapping q.get) q.fallback).1 ∧
        ∀ count : Int, minPlaceholderInteger ≤ count → count ≤ maxPlaceholderInteger →
          (count = 0 → ∀ e ∈ c.messages, ∀ tag : LocaleTag, e.1 = tag.text.map ch →
            ¬MoreThanPortugal tag) →
          ∃ said, (t.plural p.unicode q.key count (.mapping q.get) q.fallback).map Prod.fst =
              .ok said ∧
            C.Speaks bits (C.lookupPlural (fun l n => C.pluralCategory canonical (some l) n)
              canonical header.toCatalog (some (cBytes q.locale)) (cBytes q.key) count)
              (toParams (q.counted count)) q.fallback q.key said := by
  obtain ⟨hsymbol, hencodable, rfl⟩ := text_of_renderCHeader hrender
  have hc := fromMapping_valid h
  refine ⟨_, CHeader.readHeader_of_noTrigraph (CHeader.name_symbol hsymbol)
    (CHeader.fromMapping_wellformed h) hencodable husable hclear,
    fun q t₀ t environ ht hrun canonical => ?_⟩
  obtain ⟨_, -, hok⟩ := fromMapping_ok h
  obtain ⟨hcatalog₀, hchain⟩ := Translator.setLocale_chainOk (u := p.unicode)
    (t := t₀) (by rw [ht]; exact hok.present) (some q.locale) environ
  obtain ⟨hsameCatalog, hsameChain⟩ := Translator.reach_same hrun
  have hcatalog : t.catalog = c := hsameCatalog.trans (hcatalog₀.trans ht)
  have hresolve : (t₀.setLocale p.unicode (some q.locale) environ).2.resolve [q.key] =
      t.resolve [q.key] := by
    rw [Translator.resolve, Translator.resolve, hsameCatalog, hsameChain]
  rw [table_meaning, q.localeText.cBytes_eq, q.keyText.cBytes_eq]
  constructor
  · obtain ⟨hlookup, -⟩ := lookups_selected h canonical q.agree q.set q.keyText.encodable q.keyNonempty
      (fun _ _ => .other) 0 ht environ
    rw [hlookup, hresolve, Translator.text_fst]
    refine speaks_of_found bits hc hencodable (fun x hx => ?_) q.paramsText q.passes
      q.fallbackParses q.key
    rw [← hcatalog]
    exact Translator.resolve_template hx
  · intro count hlo hhi hportugal
    obtain ⟨-, found, hfound, hlookup⟩ := lookups_selected h canonical q.agree q.set
      q.keyText.encodable q.keyNonempty (fun l n => C.pluralCategory canonical (some l) n) count ht environ
    have hsame : t.resolveCount (fun l => C.pluralCategory canonical (some (utf8 l)) count) q.key =
        .ok found := by
      rw [← hfound, Translator.resolveCount, Translator.resolveCount, hresolve, hsameCatalog,
        hsameChain]
    have hcategories : ∀ l ∈ t.chain, pluralCategory p.unicode l count =
        .ok (C.pluralCategory canonical (some (utf8 l)) count) := by
      intro l hl
      have havailable := hchain.available l (hsameChain ▸ hl)
      rw [hcatalog₀, ht] at havailable
      refine category_agrees hc havailable hlo hhi (fun hzero tag htag => ?_) canonical
      obtain ⟨messages, hmessages⟩ := Option.isSome_iff_exists.mp havailable
      exact hportugal hzero _ (Tables.mem_of_lookup hmessages) tag htag
    refine ⟨_, Translator.plural_fst t hcategories hsame q.get q.fallback, ?_⟩
    rw [hlookup]
    refine speaks_of_found bits hc hencodable (fun x hx => ?_) (q.counted_text count)
      (q.passes.count hlo hhi) q.fallbackParses q.key
    rw [← hcatalog]
    exact Translator.resolveCount_template (hsame.trans (congrArg Except.ok hx))

/-- `Hello` for a visitor from Canada. -/
def greetingQuestion : Question .ascii greetings where
  locale := str "fr_CA"
  key := str "greeting"
  params := [(str "name", str "Ada")]
  get := arguments [(str "name", str "Ada")]
  fallback := none
  agree := agree_of_reads_eq (ascii_of_all rfl) (by decide) (by decide)
  set := fun h => absurd h.1 (by decide)
  localeText := cText_map_ch rfl
  keyText := cText_map_ch rfl
  keyNonempty := by decide
  paramsText := List.forall_mem_singleton.mpr ⟨cText_map_ch rfl, cText_map_ch rfl⟩
  passes := rendered_arguments _
  fallbackParses := by simp

theorem program_speaks_greeting : ∃ header,
    CHeader.readHeader (str "msys_catalog") (CHeader.headerText greetings (str "msys_catalog")) =
        some header ∧
      C.Speaks 32 (C.lookup (fun _ => 0) header.toCatalog (some (cBytes (str "fr_CA")))
          (cBytes (str "greeting"))) (toParams [(str "name", str "Ada")]) none (str "greeting")
        ((Translator.init .ascii greetings (some (str "fr_CA")) (fun _ => none) 8).text .ascii
          (str "greeting") (.mapping (arguments [(str "name", str "Ada")])) none).1 := by
  have hrender : renderCHeader greetings (str "msys_catalog") =
      .ok (CHeader.headerText greetings (str "msys_catalog")) :=
    CHeader.renderCHeader_ok (by decide +kernel) (CHeader.encodable_of_all (by decide +kernel))
  obtain ⟨header, hread, hprogram⟩ :=
    program_speaks 32 greetings_accepted hrender (by decide +kernel) (by decide +kernel)
  exact ⟨header, hread, (hprogram greetingQuestion ⟨greetings, 8, [], [], str "en", [str "en"]⟩ _
    (fun _ => none) rfl .start fun _ => 0).1⟩

end Msys.I18n
