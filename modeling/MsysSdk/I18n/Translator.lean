import MsysSdk.I18n.Catalog
import MsysSdk.I18n.Plural
import MsysSdk.Runs.Transition

/-! The translator. The chain it searches always ends in the default locale of its catalog, so a
key of that locale is found, and with it the parameters that the default template asks for. -/

namespace Msys.I18n
open Python

/-- `I18nDiagnostic` -/
structure Diagnostic where
  code : Code
  catalogId : Str
  locale : Str
  key : Option Str
  detail : Str

/-- The `emitted` diagnostics are all that `_emit` was given, in the order in which the handler
sees them; `diagnostics` keeps the last of them. -/
structure Translator where
  catalog : Catalog
  diagnosticLimit : Nat
  diagnostics : List Diagnostic
  emitted : List Diagnostic
  requestedLocale : Str
  chain : List Str

def environmentLocaleKeys : List Str :=
  [str "MSYS_LOCALE", str "LC_ALL", str "LC_MESSAGES", str "LANG"]

/-- The loop of `locale_candidates`; the parent of a locale is shorter. -/
def parents : Nat → Str → List Str → List Str
  | 0, _, candidates => candidates
  | fuel + 1, current, candidates =>
    if current = [] then candidates
    else parents fuel (beforeLast (ch '-') current)
      (if current ∈ candidates then candidates else candidates ++ [current])

def localeCandidates (u : UnicodeData) (requested defaultLocale : Str) : List Str :=
  let normalized := (normalizeLocale u requested).getD defaultLocale
  let candidates := parents normalized.length normalized []
  if defaultLocale ∈ candidates then candidates else candidates ++ [defaultLocale]

def selectsDefault (u : UnicodeData) (value : Str) : Bool :=
  let raw := upTo (ch '.') (upTo (ch '@') (strip value))
  raw = [] || u.upper raw = str "C" || u.upper raw = str "POSIX"

/-- The first variable that is set to more than white space, with its value. -/
def environmentLocale (environ : Str → Option Str) : Option (Str × Str) :=
  environmentLocaleKeys.findSome? fun name =>
    match environ name with
    | some value => if strip value ≠ [] then some (name, value) else none
    | none => none

/-- The value to use, and the source that a diagnostic names. -/
def rawLocale (locale : Option Str) (environ : Str → Option Str) : Option (Str × Str) :=
  match locale with
  | some raw => some (raw, str "explicit locale")
  | none => (environmentLocale environ).map fun (name, value) => (value, name)

/-- The `params` argument: left out, a mapping as its `get`, or any other value. -/
inductive Params
  | none
  | mapping (get : Str → Option Value)
  | other

namespace Translator

def emit (t : Translator) (code : Code) (key : Option Str) (detail : Str)
    (locale : Option Str) : Translator :=
  let diagnostic : Diagnostic :=
    { code
      catalogId := t.catalog.id
      locale := match locale with
        | some (c :: l) => c :: l
        | _ => t.requestedLocale
      key
      detail }
  let diagnostics := t.diagnostics ++ [diagnostic]
  { t with
    diagnostics := diagnostics.drop (diagnostics.length - t.diagnosticLimit)
    emitted := t.emitted ++ [diagnostic] }

variable (u : UnicodeData)

/-- The locale that is asked for, before it is looked for. -/
def request (t : Translator) (locale : Option Str) (environ : Str → Option Str) :
    Str × Translator :=
  match rawLocale locale environ with
  | none => (t.catalog.defaultLocale, t)
  | some (raw, source) =>
    if selectsDefault u raw then (t.catalog.defaultLocale, t)
    else match normalizeLocale u raw with
      | some requested => (requested, t)
      | none => (t.catalog.defaultLocale, t.emit .invalidLocale none
          (source ++ str " value " ++ u.repr raw ++ str " is invalid; using " ++
            t.catalog.defaultLocale) (some t.catalog.defaultLocale))

/-- The part of the chain that the catalog has. -/
def available (t : Translator) (requested : Str) : List Str :=
  let found := (localeCandidates u requested t.catalog.defaultLocale).filter fun item =>
    (t.catalog.messages.lookup item).isSome
  if found = [] then [t.catalog.defaultLocale] else found

/-- `set_locale` from the requested locale on. -/
def select (t : Translator) (requested : Str) : Str × Translator :=
  let available := t.available u requested
  let t := { t with requestedLocale := requested, chain := available }
  let first := available.headD []
  if first ≠ requested then
    (first, t.emit .localeFallback none
      (str "locale " ++ requested ++ str " is unavailable; using " ++ first) (some requested))
  else (first, t)

/-- `set_locale`; the environment is the mapping given or that of the process. -/
def setLocale (t : Translator) (locale : Option Str) (environ : Str → Option Str) :
    Str × Translator :=
  (t.request u locale environ).2.select u (t.request u locale environ).1

/-- The constructor. -/
def init (catalog : Catalog) (locale : Option Str) (environ : Str → Option Str)
    (diagnosticLimit : Nat) : Translator :=
  (setLocale u
    { catalog
      diagnosticLimit
      diagnostics := []
      emitted := []
      requestedLocale := catalog.defaultLocale
      chain := [catalog.defaultLocale] } locale environ).2

/-- The message of one locale under the first of the keys that it has. -/
def findMessage (catalog : Catalog) (candidate : Str) (keys : List Str) : Option (Str × Str × Str) :=
  keys.findSome? fun key =>
    (catalog.template candidate key).map fun message => (message, candidate, key)

/-- `_resolve`: the message, its locale and its key. -/
def resolve (t : Translator) (keys : List Str) : Option (Str × Str × Str) :=
  t.chain.findSome? fun candidate => findMessage t.catalog candidate keys

def pluralKeys (key : Str) (category : Category) : List Str :=
  let other := key ++ str ".other"
  if category = .other then [other] else [key ++ str "." ++ str category.text, other]

/-- The loop of `_resolve_plural`, with the category function as a parameter. -/
def resolvePlural (catalog : Catalog) (categoryOf : Str → Except Str Category) (key : Str) :
    List Str → Except Str (Option (Str × Str × Str))
  | [] => .ok none
  | candidate :: chain => do
    let category ← categoryOf candidate
    match findMessage catalog candidate (pluralKeys key category) with
    | some found => return some found
    | none => resolvePlural catalog categoryOf key chain

/-- `_render`, with what it emits. -/
def render (t : Translator) (template : Str) (params : Str → Option Value) (key locale : Str) :
    Str × Translator :=
  let (output, emitted) := I18n.render u template params
  (output, emitted.foldl (fun t e => t.emit e.1 (some key) e.2 (some locale)) t)

/-- The mapping that is safe to use for `params`. -/
def safeParams (t : Translator) (params : Params) (key locale : Str) :
    (Str → Option Value) × Translator :=
  match params with
  | .none => (fun _ => none, t)
  | .mapping get => (get, t)
  | .other => (fun _ => none, t.emit .invalidParameters (some key)
      (str "params must be a mapping; treating it as empty") (some locale))

def text (t : Translator) (key : Str) (params : Params) (fallback : Option Str) :
    Str × Translator :=
  match t.resolve [key] with
  | some (template, locale, _) =>
    let (safe, t) := t.safeParams params key locale
    t.render u template safe key locale
  | none =>
    let t := t.emit .missingKey (some key)
      (str "key is absent from locales " ++ (str ", ").intercalate t.chain) none
    match fallback with
    | none => (key, t)
    | some template =>
      let (safe, t) := t.safeParams params key t.requestedLocale
      t.render u template safe key t.requestedLocale

/-- The end of `plural`: the count joins the parameters. -/
def renderPlural (t : Translator) (key : Str) (count : Int) (params : Params)
    (template usedKey locale : Str) : Str × Translator :=
  let (safe, t) := t.safeParams params key locale
  t.render u template (Function.update safe (str "count") (some (.int count))) usedKey locale

/-- `plural`; the error is that of `plural_category`. -/
def plural (t : Translator) (key : Str) (count : Int) (params : Params) (fallback : Option Str) :
    Except Str (Str × Translator) :=
  match resolvePlural t.catalog (fun locale => pluralCategory u locale count) key t.chain with
  | .error text => .error text
  | .ok found =>
    match found.or (t.resolve [key]) with
    | some (template, locale, usedKey) =>
      .ok (t.renderPlural u key count params template usedKey locale)
    | none =>
      let t := t.emit .missingKey (some key)
        (str "plural forms for " ++ key ++ str " are absent from locales " ++
          (str ", ").intercalate t.chain) none
      match fallback with
      | none => .ok (key, t)
      | some template => .ok (t.renderPlural u key count params template key t.requestedLocale)

def clearDiagnostics (t : Translator) : Translator := { t with diagnostics := [] }

/-- What an application does with a translator. -/
inductive Action
  | setLocale (locale : Option Str) (environ : Str → Option Str)
  | text (key : Str) (params : Params) (fallback : Option Str)
  | plural (key : Str) (count : Int) (params : Params) (fallback : Option Str)
  | clearDiagnostics

/-- A call that raises changes nothing. -/
def step (t : Translator) : Action → Option Translator
  | .setLocale locale environ => some (t.setLocale u locale environ).2
  | .text key params fallback => some (t.text u key params fallback).2
  | .plural key count params fallback =>
    match t.plural u key count params fallback with
    | .ok (_, t) => some t
    | .error _ => some t
  | .clearDiagnostics => some t.clearDiagnostics

end Translator

end Msys.I18n
