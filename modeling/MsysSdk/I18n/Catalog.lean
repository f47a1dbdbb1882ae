import MsysSdk.I18n.Template
import MsysSdk.Text.Tables

/-! `Catalog.from_mapping`. A document without issues is a catalog whose overlays ask for the same
parameters as the default locale. -/

namespace Msys.I18n
open Python

def catalogSchema : Str := str "msys.i18n.catalog.v1"
def catalogMetaSchema : Str := str "https://msys.local/schemas/i18n-catalog.v1.json"

def rootFields : List Str :=
  [str "$schema", str "schema", str "id", str "description", str "default_locale", str "messages"]

/-- `k in d` -/
def hasKey (d : Dict) (k : Value) : Bool := d.any fun e => e.1 = k

def isKnownField : Value → Bool
  | .str field => rootFields.contains field || extensionField.rmatch field
  | _ => false

def isCatalogId : Value → Bool
  | .str s => s.length ≤ 160 && catalogId.rmatch s
  | _ => false

def isDescription : Value → Bool
  | .none => true
  | .str s => s ≠ [] && s.length ≤ 256
  | _ => false

def isLocale : Value → Bool
  | .str s => s.length ≤ 63 && locale.rmatch s
  | _ => false

def isMessageKey : Value → Bool
  | .str s => s.length ≤ 160 && messageKey.rmatch s
  | _ => false

/-- The names of the placeholders among the tokens. -/
def placeholderNames (tokens : List Token) : List Str :=
  tokens.filterMap fun
    | .literal _ => none
    | .placeholder name => some name

/-- The `TypeError` of a lookup with a key that has no hash. -/
def hashError : Value → Option Str
  | .list _ => some (str "unhashable type: 'list'")
  | .dict _ | .cyclic => some (str "unhashable type: 'dict'")
  | _ => none

/-- An issue, if the test fails. -/
def check (ok : Bool) (issue : Str) : List Str := if ok then [] else [issue]

section Validate

variable (p : Printer)

/-- The issues that are found before the messages are looked at. -/
def rootIssues (d : Dict) : List Str :=
  d.flatMap (fun e => check (isKnownField e.1) (str "unknown field " ++ p.repr e.1)) ++
    [str "schema", str "id", str "default_locale", str "messages"].flatMap (fun field =>
      check (hasKey d (.str field)) (str "missing required field " ++ p.unicode.repr field)) ++
    check (Dict.get d (str "schema") = .str catalogSchema)
      (str "schema must equal " ++ p.unicode.repr catalogSchema) ++
    check (!hasKey d (.str (str "$schema")) || Dict.get d (str "$schema") = .str catalogMetaSchema)
      (str "$schema must equal " ++ p.unicode.repr catalogMetaSchema) ++
    check (isCatalogId (Dict.get d (str "id"))) (str "invalid catalog id") ++
    check (isDescription (Dict.get d (str "description")))
      (str "description must contain 1..256 characters") ++
    check (isLocale (Dict.get d (str "default_locale"))) (str "invalid canonical default_locale")

abbrev Placeholders := List (Value × Finset Str)

/-- The loop over the messages of a locale; their keys differ, so each placeholder set is new. -/
def messageIssues (locale : Value) : Dict → List Str × Placeholders
  | [] => ([], [])
  | (key, template) :: rest =>
    let label := p.str locale ++ str "." ++ p.str key
    let keyIssue := check (isMessageKey key)
      (str "invalid message key " ++ p.repr key ++ str " in locale " ++ p.repr locale)
    let (issues, placeholders) := messageIssues locale rest
    match template with
    | .str s =>
      let (tokens, errors) := parseTemplate p.unicode s
      (keyIssue ++ check (s.length ≤ 16384 && !s.contains (ch '\x00'))
          (str "message " ++ label ++ str " is too long or contains NUL") ++
        errors.map (fun error => str "message " ++ label ++ str ": " ++ error) ++ issues,
        (key, (placeholderNames tokens).toFinset) :: placeholders)
    | _ => (keyIssue ++ [str "message " ++ label ++ str " must be a string"] ++ issues, placeholders)

/-- The loop over the locales. -/
def localeIssues : Dict → List Str × List (Value × Placeholders)
  | [] => ([], [])
  | (locale, messageMap) :: rest =>
    let localeIssue := check (isLocale locale) (str "invalid canonical locale " ++ p.repr locale)
    let (issues, placeholders) := localeIssues rest
    match messageMap with
    | .dict (message :: messages) =>
      let (messageIssues, sets) := messageIssues p locale (message :: messages)
      (localeIssue ++ check ((message :: messages).length ≤ 20000)
          (str "locale " ++ p.repr locale ++ str " contains more than 20000 messages") ++
        messageIssues ++ issues, (locale, sets) :: placeholders)
    | _ => (localeIssue ++ [str "locale " ++ p.repr locale ++
        str " must contain a non-empty message object"] ++ issues, placeholders)

/-- What a message of an overlay is checked for against the default locale. -/
def overlayIssue (defaults : Dict) (defaultSets sets : Placeholders) (locale key : Value) :
    List Str :=
  if !hasKey defaults key then
    [str "message " ++ p.str locale ++ str "." ++ p.str key ++
      str " is absent from the default locale"]
  else
    check (sets.lookup key = defaultSets.lookup key)
      (str "message " ++ p.str locale ++ str "." ++ p.str key ++
        str " placeholders do not match the default locale")

def overlayIssues (defaultLocale : Value) (placeholders : List (Value × Placeholders))
    (messages : Dict) : List Str :=
  match messages.lookup defaultLocale with
  | some (.dict defaults) =>
    let defaultSets := (placeholders.lookup defaultLocale).getD []
    messages.flatMap fun
      | (locale, .dict messageMap) =>
        if locale = defaultLocale then []
        else messageMap.flatMap fun e =>
          overlayIssue p defaults defaultSets ((placeholders.lookup locale).getD []) locale e.1
      | _ => []
  | _ => []

def defaultAbsent (defaultLocale : Value) (messages : Dict) : List Str :=
  match defaultLocale with
  | .str l => check (hasKey messages (.str l))
      (str "default_locale " ++ p.unicode.repr l ++ str " is absent from messages")
  | _ => []

/-- `_validate_catalog`; the error is the text of a `TypeError`. -/
def validateCatalog : Value → Except Str (List Str)
  | .dict d =>
    let defaultLocale := Dict.get d (str "default_locale")
    match Dict.get d (str "messages") with
    | .dict (first :: rest) =>
      let messages := first :: rest
      let (issues, placeholders) := localeIssues p messages
      match hashError defaultLocale with
      | some error => .error error
      | none => .ok (rootIssues p d ++
          check (messages.length ≤ 128) (str "messages supports at most 128 locales") ++
          defaultAbsent p defaultLocale messages ++ issues ++
          overlayIssues p defaultLocale placeholders messages)
    | _ => .ok (rootIssues p d ++ [str "messages must be a non-empty object"])
  | _ => .ok [str "catalog must be an object"]

end Validate

/-- A value as Python can build it. -/
structure Document where
  value : Value
  distinct : value.distinct = true

structure Catalog where
  id : Str
  defaultLocale : Str
  messages : List (Str × List (Str × Str))
  description : Option Str
deriving DecidableEq

inductive LoadError
  | catalog (issues : List Str)
  | type (text : Str)
deriving DecidableEq

def LoadError.text : LoadError → Str
  | .catalog issues => str "invalid i18n catalog: " ++ (str "; ").intercalate issues
  | .type text => text

def asString : Value → Option Str
  | .str s => some s
  | _ => none

def copyMessageMap (d : Dict) : List (Str × Str) :=
  d.filterMap fun e => (asString e.1).bind fun key => (asString e.2).map (key, ·)

def copyMessages (d : Dict) : List (Str × List (Str × Str)) :=
  d.filterMap fun
    | (.str locale, .dict messageMap) => some (locale, copyMessageMap messageMap)
    | _ => none

/-- `Catalog.from_mapping`; the copies lose nothing, since by then all keys and templates are
strings. -/
def fromMapping (p : Printer) (document : Document) : Except LoadError Catalog :=
  match validateCatalog p document.value, document.value with
  | .error text, _ => .error (.type text)
  | .ok [], .dict d => .ok
    { id := (asString (Dict.get d (str "id"))).getD []
      defaultLocale := (asString (Dict.get d (str "default_locale"))).getD []
      messages :=
        match Dict.get d (str "messages") with
        | .dict messages => copyMessages messages
        | _ => []
      description := asString (Dict.get d (str "description")) }
  | .ok issues, _ => .error (.catalog issues)

/-! ### What the validator lets pass -/

variable {p : Printer}

theorem check_eq_nil {ok : Bool} {issue : Str} : check ok issue = [] ↔ ok = true := by
  cases ok <;> simp [check]

/-- The names of a template. -/
def namesOf (u : UnicodeData) (template : Str) : List Str :=
  placeholderNames (parseTemplate u template).1

structure MessageOk (u : UnicodeData) (e : Str × Str) : Prop where
  key : isMessageKey (.str e.1) = true
  length : e.2.length ≤ 16384
  noNul : ch '\x00' ∉ e.2
  parses : (parseTemplate u e.2).2 = []

def embedMessageMap (m : List (Str × Str)) : Dict := m.map fun e => (.str e.1, .str e.2)

def embedMessages (ms : List (Str × List (Str × Str))) : Dict :=
  ms.map fun e => (.str e.1, .dict (embedMessageMap e.2))

def placeholderSets (u : UnicodeData) (m : List (Str × Str)) : Placeholders :=
  m.map fun e => (.str e.1, (namesOf u e.2).toFinset)

theorem messageIssues_nil {locale : Value} {d : Dict} (h : (messageIssues p locale d).1 = []) :
    ∃ m, d = embedMessageMap m ∧ (∀ e ∈ m, MessageOk p.unicode e) ∧
      (messageIssues p locale d).2 = placeholderSets p.unicode m := by
  induction d with
  | nil => exact ⟨[], rfl, by simp, rfl⟩
  | cons e d ih =>
    obtain ⟨key, template⟩ := e
    simp only [messageIssues] at h ⊢
    cases template with
    | str s =>
      simp only [List.append_eq_nil_iff, check_eq_nil, List.map_eq_nil_iff, Bool.and_eq_true,
        Bool.not_eq_true', decide_eq_true_eq] at h
      obtain ⟨⟨⟨hkey, hlen, hnul⟩, herrors⟩, hrest⟩ := h
      obtain ⟨m, rfl, hm, hsets⟩ := ih hrest
      cases key with
      | str k =>
        refine ⟨(k, s) :: m, rfl, List.forall_mem_cons.mpr ⟨⟨hkey, hlen, ?_, herrors⟩, hm⟩, ?_⟩
        · simpa using hnul
        · rw [hsets]
          rfl
      | _ => cases hkey
    | _ => simp at h

structure LocaleOk (u : UnicodeData) (e : Str × List (Str × Str)) : Prop where
  locale : isLocale (.str e.1) = true
  nonempty : e.2 ≠ []
  length : e.2.length ≤ 20000
  messages : ∀ m ∈ e.2, MessageOk u m

theorem localeIssues_nil {d : Dict} (h : (localeIssues p d).1 = []) :
    ∃ ms, d = embedMessages ms ∧ (∀ e ∈ ms, LocaleOk p.unicode e) ∧
      (localeIssues p d).2 = ms.map fun e => (.str e.1, placeholderSets p.unicode e.2) := by
  induction d with
  | nil => exact ⟨[], rfl, by simp, rfl⟩
  | cons e d ih =>
    obtain ⟨locale, messageMap⟩ := e
    simp only [localeIssues] at h ⊢
    cases messageMap with
    | dict messages =>
      cases messages with
      | nil => simp at h
      | cons message messages =>
        simp only [List.append_eq_nil_iff, check_eq_nil, decide_eq_true_eq] at h
        obtain ⟨⟨⟨hlocale, hlen⟩, hmessages⟩, hrest⟩ := h
        obtain ⟨ms, rfl, hms, hsets⟩ := ih hrest
        obtain ⟨m, hm, hok, hplaceholders⟩ := messageIssues_nil hmessages
        cases locale with
        | str l =>
          refine ⟨(l, m) :: ms, ?_, List.forall_mem_cons.mpr ⟨⟨hlocale, ?_, ?_, hok⟩, hms⟩, ?_⟩
          · rw [hm]
            rfl
          · rintro rfl
            cases hm
          · rwa [hm, embedMessageMap, List.length_map] at hlen
          · simp only [hsets, hplaceholders, List.map_cons]
        | _ => cases hlocale
    | _ => simp at h

theorem str_injective : Function.Injective Value.str := fun _ _ h => Value.str.inj h

theorem lookup_embedMessages (ms : List (Str × List (Str × Str))) (l : Str) :
    (embedMessages ms).lookup (.str l) = (ms.lookup l).map fun m => .dict (embedMessageMap m) :=
  Tables.lookup_map str_injective (fun m => Value.dict (embedMessageMap m)) ms l

theorem lookup_placeholderSets {u : UnicodeData} (m : List (Str × Str)) (k : Str) :
    (placeholderSets u m).lookup (.str k) =
      (m.lookup k).map fun template => (namesOf u template).toFinset :=
  Tables.lookup_map str_injective (fun template => (namesOf u template).toFinset) m k

theorem hasKey_embed {β : Type} {f : β → Value} {l : List (Str × β)} {k : Str} :
    hasKey (l.map fun e => (.str e.1, f e.2)) (.str k) = true ↔ (l.lookup k).isSome = true := by
  rw [hasKey, List.any_map, List.lookup_isSome_iff]
  simp only [List.any_eq_true, Function.comp_apply, decide_eq_true_eq, Value.str.injEq, beq_iff_eq]
  exact exists_congr fun e => and_congr_right fun _ => eq_comm

/-- The overlays have only keys of the default locale, with the same placeholders. -/
theorem overlayIssues_nil {u : UnicodeData} {ms : List (Str × List (Str × Str))} {l : Str}
    {defaults : List (Str × Str)} (hdefaults : ms.lookup l = some defaults)
    (h : overlayIssues p (.str l) (ms.map fun e => (.str e.1, placeholderSets u e.2))
      (embedMessages ms) = []) {e : Str × List (Str × Str)} (he : e ∈ ms) (hne : e.1 ≠ l)
    {m : Str × Str} (hm : m ∈ e.2) : (defaults.lookup m.1).isSome = true ∧
      (((ms.lookup e.1).getD []).lookup m.1).map (fun t => (namesOf u t).toFinset) =
        (defaults.lookup m.1).map fun t => (namesOf u t).toFinset := by
  have hsets : ∀ k, ((ms.map fun e => (Value.str e.1, placeholderSets u e.2)).lookup (.str k)).getD
      [] = placeholderSets u ((ms.lookup k).getD []) := fun k => by
    rw [Tables.lookup_map str_injective]
    cases ms.lookup k <;> rfl
  rw [overlayIssues, lookup_embedMessages, hdefaults] at h
  have hentry := List.flatMap_eq_nil_iff.mp h (.str e.1, .dict (embedMessageMap e.2))
    (List.mem_map_of_mem he)
  simp only [Value.str.injEq, if_neg hne] at hentry
  have hissue := List.flatMap_eq_nil_iff.mp hentry (.str m.1, .str m.2) (List.mem_map_of_mem hm)
  rw [overlayIssue] at hissue
  by_cases hkey : hasKey (embedMessageMap defaults) (.str m.1) = true
  · rw [hkey, Bool.not_true, if_neg Bool.false_ne_true, check_eq_nil, decide_eq_true_eq, hsets,
      hsets, hdefaults, Option.getD_some, lookup_placeholderSets, lookup_placeholderSets] at hissue
    exact ⟨hasKey_embed.mp hkey, hissue⟩
  · rw [Bool.not_eq_true] at hkey
    simp [hkey] at hissue

/-- What an accepted document says about its messages. -/
structure Accepted (p : Printer) (d : Dict) (l : Str) (ms : List (Str × List (Str × Str))) :
    Prop where
  default : Dict.get d (str "default_locale") = .str l
  messages : Dict.get d (str "messages") = .dict (embedMessages ms)
  locales : ∀ e ∈ ms, LocaleOk p.unicode e
  present : (ms.lookup l).isSome = true
  overlays : overlayIssues p (.str l)
    (ms.map fun e => (.str e.1, placeholderSets p.unicode e.2)) (embedMessages ms) = []

theorem validateCatalog_nil {d : Dict} (h : validateCatalog p (.dict d) = .ok []) :
    ∃ l ms, Accepted p d l ms := by
  rw [validateCatalog] at h
  split at h
  next first rest hmessages =>
    simp only at h
    split at h
    · cases h
    · have hnil := Except.ok.inj h
      simp only [rootIssues, List.append_eq_nil_iff, check_eq_nil] at hnil
      obtain ⟨⟨⟨⟨⟨-, hlocale⟩, -⟩, hpresent⟩, hissues⟩, hoverlays⟩ := hnil
      obtain ⟨ms, hms, hlocales, hsets⟩ := localeIssues_nil hissues
      generalize hdefault : Dict.get d (str "default_locale") = default at *
      cases default with
      | str l =>
        rw [hsets, hms] at hoverlays
        refine ⟨l, ms, hdefault, hms ▸ hmessages, hlocales, ?_, hoverlays⟩
        rw [defaultAbsent, check_eq_nil, hms] at hpresent
        exact (hasKey_embed (f := fun m => .dict (embedMessageMap m))).mp hpresent
      | _ => cases hlocale
  next => simp at h

/-- The message of a locale for a key. -/
def Catalog.template (c : Catalog) (l key : Str) : Option Str :=
  (c.messages.lookup l).bind (·.lookup key)

structure Catalog.Valid (u : UnicodeData) (c : Catalog) : Prop where
  locales : ∀ e ∈ c.messages, LocaleOk u e
  distinctLocales : (c.messages.map Prod.fst).Nodup
  distinctKeys : ∀ e ∈ c.messages, (e.2.map Prod.fst).Nodup
  default : ∃ m, (c.defaultLocale, m) ∈ c.messages
  overlays : ∀ e ∈ c.messages, ∀ m ∈ e.2, ∃ t, c.template c.defaultLocale m.1 = some t ∧
    ∀ n, n ∈ namesOf u m.2 ↔ n ∈ namesOf u t

theorem copyMessageMap_embed (m : List (Str × Str)) : copyMessageMap (embedMessageMap m) = m := by
  rw [copyMessageMap, embedMessageMap, List.filterMap_map]
  exact List.filterMap_some

theorem copyMessages_embed (ms : List (Str × List (Str × Str))) :
    copyMessages (embedMessages ms) = ms := by
  rw [copyMessages, embedMessages, List.filterMap_map]
  refine (List.filterMap_congr fun e _ => ?_).trans List.filterMap_some
  simp only [Function.comp_apply, copyMessageMap_embed]

theorem fromMapping_ok {document : Document} {c : Catalog} (h : fromMapping p document = .ok c) :
    ∃ d, document.value = .dict d ∧ Accepted p d c.defaultLocale c.messages := by
  rw [fromMapping] at h
  split at h
  · cases h
  next d hissues hvalue =>
    obtain ⟨l, ms, hok⟩ := validateCatalog_nil (hvalue ▸ hissues)
    cases h
    refine ⟨d, hvalue, ?_⟩
    simpa only [hok.default, hok.messages, asString, Option.getD_some, copyMessages_embed] using hok
  · cases h

theorem distinct_of_get {d : Dict} (h : distinctEntries d = true) {k : Str} {v : Value}
    (hv : Dict.get d k = v) : v.distinct = true := by
  rw [Dict.get] at hv
  split at hv
  next e he => exact hv ▸ distinctEntries_iff.mp h e (List.mem_of_find?_eq_some he)
  next =>
    rw [← hv]
    rfl

theorem nodup_embed {β : Type} {f : β → Value} {l : List (Str × β)}
    (h : (Value.dict (l.map fun e => (.str e.1, f e.2))).distinct = true) :
    (l.map Prod.fst).Nodup ∧ ∀ e ∈ l, (f e.2).distinct = true := by
  rw [Value.distinct, Bool.and_eq_true, decide_eq_true_eq, List.map_map, distinctEntries_iff,
    List.forall_mem_map] at h
  refine ⟨List.Nodup.of_map Value.str ?_, h.2⟩
  rw [List.map_map]
  exact h.1

/-- Two templates with the same set of placeholders. -/
theorem mem_names_iff {u : UnicodeData} {s t : Str}
    (h : (namesOf u s).toFinset = (namesOf u t).toFinset) (n : Str) :
    n ∈ namesOf u s ↔ n ∈ namesOf u t := by
  rw [← List.mem_toFinset, h, List.mem_toFinset]

theorem fromMapping_valid {document : Document} {c : Catalog}
    (h : fromMapping p document = .ok c) : c.Valid p.unicode := by
  obtain ⟨d, hvalue, hok⟩ := fromMapping_ok h
  have hdistinct := document.distinct
  rw [hvalue, Value.distinct, Bool.and_eq_true] at hdistinct
  obtain ⟨hlocales, hmaps⟩ := nodup_embed (f := fun m => .dict (embedMessageMap m))
    (distinct_of_get hdistinct.2 hok.messages)
  have hkeys : ∀ e ∈ c.messages, (e.2.map Prod.fst).Nodup := fun e he =>
    (nodup_embed (hmaps e he)).1
  obtain ⟨defaults, hdefaults⟩ := Option.isSome_iff_exists.mp hok.present
  refine ⟨hok.locales, hlocales, hkeys, ⟨defaults, Tables.mem_of_lookup hdefaults⟩,
    fun e he m hm => ?_⟩
  have hself := Tables.lookup_of_mem hlocales he
  have hmessage := Tables.lookup_of_mem (hkeys e he) hm
  rw [Catalog.template, hdefaults, Option.bind_some]
  by_cases hne : e.1 = c.defaultLocale
  · rw [hne, hdefaults] at hself
    obtain rfl := Option.some.inj hself
    exact ⟨m.2, hmessage, fun _ => Iff.rfl⟩
  · obtain ⟨hsome, hsame⟩ := overlayIssues_nil hdefaults hok.overlays he hne hm
    obtain ⟨t, ht⟩ := Option.isSome_iff_exists.mp hsome
    rw [hself, Option.getD_some, hmessage, ht, Option.map_some, Option.map_some] at hsame
    exact ⟨t, ht, mem_names_iff (Option.some.inj hsame)⟩

end Msys.I18n
