import MsysSdk.I18n.Translator
import MsysSdk.Python.JsonHooks

/-! The catalog of a package, as its file says it. A file is refused with a CatalogError, which the
constructor catches, as long as the default locale can be looked up among the messages. -/

namespace Msys.I18n
open Python

/-- What `Catalog.load` raises. -/
inductive FileError
  | load (error : LoadError)
  | recursion (text : Str)
deriving DecidableEq

/-- What a process sees: its files, `str(Path(p))` of a path, and `os.environ`. A file that cannot
be opened gives the text of the exception. -/
structure Process where
  read : Str → Except Str Bytes
  pathText : Str → Str
  environ : List (Str × Str)

/-- The loop of `_strict_object`. -/
def strictObject (u : UnicodeData) : Dict → List (Str × Value) → Except Str Value
  | result, [] => .ok (.dict result)
  | result, (key, value) :: pairs =>
    if hasKey result (.str key) then .error (str "duplicate JSON member " ++ u.repr key)
    else strictObject u (result.set key value) pairs

/-- The hooks of `_load_json`. -/
def catalogHooks (u : UnicodeData) : Hooks where
  objectPairs := strictObject u []
  parseConstant name := .error (str "non-JSON numeric constant " ++ name)

/-- The newlines of a text file, as text mode reads them. -/
def newlines : Bool → Str → Str
  | _, [] => []
  | afterReturn, c :: s =>
    if c = ch '\r' then ch '\n' :: newlines true s
    else if c = ch '\n' && afterReturn then newlines false s
    else c :: newlines false s

theorem set_of_absent {d : Dict} {k : Str} (h : hasKey d (.str k) = false) (v : Value) :
    d.set k v = d ++ [(.str k, v)] := by
  induction d with
  | nil => rfl
  | cons e d ih =>
    simp only [hasKey, List.any_cons, Bool.or_eq_false_iff, decide_eq_false_iff_not] at h
    have hkey : ¬ e.1.isKey k = true := fun hk => h.1 (Value.isKey_iff.mp hk)
    rw [Dict.set, if_neg hkey, ih h.2]
    rfl

theorem strictObject_distinct {u : UnicodeData} {result : Dict} {pairs : List (Str × Value)}
    {v : Value} (hkeys : (result.map Prod.fst).Nodup)
    (hvalues : ∀ e ∈ result, e.2.distinct = true) (hpairs : ∀ e ∈ pairs, e.2.distinct = true)
    (h : strictObject u result pairs = .ok v) : v.distinct = true := by
  induction pairs generalizing result with
  | nil =>
    cases h
    rw [Value.distinct, Bool.and_eq_true, decide_eq_true_eq, distinctEntries_iff]
    exact ⟨hkeys, hvalues⟩
  | cons e pairs ih =>
    obtain ⟨key, value⟩ := e
    obtain ⟨hvalue, hrest⟩ := List.forall_mem_cons.mp hpairs
    rw [strictObject] at h
    split_ifs at h with hkey
    rw [Bool.not_eq_true] at hkey
    rw [set_of_absent hkey] at h
    refine ih ?_ ?_ hrest h
    · rw [List.map_append, List.map_singleton, ← List.concat_eq_append]
      refine hkeys.concat fun hmem => ?_
      obtain ⟨e, he, heq⟩ := List.mem_map.mp hmem
      have := List.any_eq_false.mp hkey e he
      simp [heq] at this
    · exact List.forall_mem_append.mpr ⟨hvalues, List.forall_mem_singleton.mpr hvalue⟩

theorem catalogHooks_distinct (u : UnicodeData) : (catalogHooks u).Distinct where
  objectPairs _ _ hpairs h := by
    have hkeys : (([] : Dict).map Prod.fst).Nodup := List.nodup_nil
    exact strictObject_distinct hkeys (List.forall_mem_nil _) hpairs h
  parseConstant _ _ h := by cases h

section Load

variable (p : Printer) (py : Interpreter) (process : Process)

/-- `_load_json` -/
def loadJson (path : Str) : Except FileError Document :=
  let issue (text : Str) : FileError :=
    .load (.catalog [process.pathText path ++ str ": " ++ text])
  match process.read path with
  | .error text => .error (issue text)
  | .ok data =>
    match decodeUtf8 data with
    | none => .error (issue (py.loadsText data .unicode))
    | some s =>
      match h : hookedLoads py (catalogHooks p.unicode) (newlines false s) with
      -- a RecursionError is no ValueError
      | .error (.loads .recursion) => .error (.recursion (py.loadsText data .recursion))
      | .error (.loads error) => .error (issue (py.loadsText data error))
      | .error (.raised text) => .error (issue text)
      | .ok (.dict d) =>
        .ok ⟨.dict d, hookedLoads_distinct (catalogHooks_distinct p.unicode) h⟩
      | .ok _ => .error (issue (str "catalog must be an object"))

def Catalog.load (path : Str) : Except FileError Catalog := do
  let document ← loadJson p py process path
  (fromMapping p document).mapError .load

structure PackageI18n where
  catalogPath : Str
  fallback : List (Str × Str)
  loadError : Str
  translator : Option Translator

namespace PackageI18n

/-- The path that the constructor settles on. -/
def configuredPath (catalogPath : Str) (environ : Option (List (Str × Str))) : Str :=
  let environ := match environ with
    | some (e :: es) => e :: es
    | _ => process.environ
  match environ.lookup (str "MSYS_I18N_CATALOG") with
  | some (c :: configured) => c :: configured
  | _ => catalogPath

/-- The constructor, up to what it does not catch. -/
def init (catalogPath : Str) (fallback : List (Str × Str)) (locale : Option Str)
    (environ : Option (List (Str × Str))) : Except FileError PackageI18n :=
  let path := configuredPath process catalogPath environ
  match Catalog.load p py process path with
  | .ok catalog => .ok
    { catalogPath := path
      fallback
      loadError := []
      translator := some (Translator.init p.unicode catalog locale
        (fun name => (environ.getD process.environ).lookup name) 64) }
  | .error (.load (.catalog issues)) => .ok
    { catalogPath := path
      fallback
      loadError := (LoadError.catalog issues).text
      translator := none }
  | .error error => .error error

end PackageI18n

end Load

/-! ### The exceptions of loading -/

variable {p : Printer} {py : Interpreter} {process : Process}

/-- Where `messages` is a mapping that is not empty, the default locale can be looked up in it. -/
def DefaultHashable : Value → Prop
  | .dict d => ∀ first rest, Dict.get d (str "messages") = .dict (first :: rest) →
      hashError (Dict.get d (str "default_locale")) = none
  | _ => True

theorem validateCatalog_ok_iff (p : Printer) {v : Value} :
    (∃ issues, validateCatalog p v = .ok issues) ↔ DefaultHashable v := by
  cases v with
  | dict d =>
    rw [validateCatalog]
    split
    next first rest hmessages =>
      dsimp only
      cases hhash : hashError (Dict.get d (str "default_locale")) with
      | none => exact iff_of_true ⟨_, rfl⟩ fun _ _ _ => hhash
      | some error =>
        apply iff_of_false
        · rintro ⟨issues, hok⟩
          cases hok
        · intro h
          rw [h first rest hmessages] at hhash
          cases hhash
    next hmessages => exact iff_of_true ⟨_, rfl⟩ fun first rest h => absurd h (hmessages first rest)
  | _ => exact iff_of_true ⟨_, rfl⟩ trivial

theorem fromMapping_cases (p : Printer) (document : Document) :
    (∃ text, validateCatalog p document.value = .error text ∧
      fromMapping p document = .error (.type text)) ∨
    ∃ issues, validateCatalog p document.value = .ok issues ∧
      ((∃ c, fromMapping p document = .ok c) ∨ fromMapping p document = .error (.catalog issues)) := by
  rw [fromMapping]
  cases hv : validateCatalog p document.value with
  | error text => exact .inl ⟨text, rfl, rfl⟩
  | ok issues =>
    refine .inr ⟨issues, rfl, ?_⟩
    cases issues with
    | nil =>
      cases hvalue : document.value with
      | dict d => exact .inl ⟨_, rfl⟩
      | _ => exact .inr rfl
    | cons issue issues => exact .inr rfl

/-- `Catalog.from_mapping` returns or raises a CatalogError. -/
def Validates (p : Printer) (document : Document) : Prop :=
  (∃ c, fromMapping p document = .ok c) ∨
    ∃ issues, fromMapping p document = .error (.catalog issues)

theorem validates_iff (document : Document) :
    Validates p document ↔ DefaultHashable document.value := by
  rw [← validateCatalog_ok_iff p, Validates]
  rcases fromMapping_cases p document with ⟨text, hv, hf⟩ | ⟨issues, hv, hf⟩
  · rw [hv, hf]
    simp
  · rw [hv]
    refine iff_of_true (hf.imp_right fun h => ⟨issues, h⟩) ⟨issues, rfl⟩

theorem catalogText_ne_nil (issues : List Str) : (LoadError.catalog issues).text ≠ [] := by
  rw [LoadError.text, str]
  simp

theorem load_eq (path : Str) : Catalog.load p py process path =
    loadJson p py process path >>= fun document => (fromMapping p document).mapError .load := rfl

/-- What the constructor catches is a CatalogError. -/
inductive Caught : Except FileError Catalog → Prop
  | loaded (catalog : Catalog) : Caught (.ok catalog)
  | issues (issues : List Str) : Caught (.error (.load (.catalog issues)))

theorem loadJson_cases (p : Printer) (py : Interpreter) (process : Process) (path : Str) :
    (∃ document, loadJson p py process path = .ok document) ∨
      (∃ issues, loadJson p py process path = .error (.load (.catalog issues))) ∨
      ∃ text, loadJson p py process path = .error (.recursion text) := by
  rw [loadJson]
  dsimp only
  split
  · exact .inr (.inl ⟨_, rfl⟩)
  split
  · exact .inr (.inl ⟨_, rfl⟩)
  split
  · exact .inr (.inr ⟨_, rfl⟩)
  · exact .inr (.inl ⟨_, rfl⟩)
  · exact .inr (.inl ⟨_, rfl⟩)
  · exact .inl ⟨_, rfl⟩
  · exact .inr (.inl ⟨_, rfl⟩)

theorem caught_iff (path : Str) : Caught (Catalog.load p py process path) ↔
    (∀ text, loadJson p py process path ≠ .error (.recursion text)) ∧
      ∀ document, loadJson p py process path = .ok document → DefaultHashable document.value := by
  rw [load_eq]
  rcases loadJson_cases p py process path with
    ⟨document, h⟩ | ⟨issues, h⟩ | ⟨text, h⟩
  · have hcaught : Caught ((fromMapping p document).mapError .load) ↔ Validates p document := by
      rw [Validates]
      cases fromMapping p document with
      | ok c => exact iff_of_true (.loaded c) (.inl ⟨c, rfl⟩)
      | error e =>
        cases e with
        | catalog issues => exact iff_of_true (.issues issues) (.inr ⟨issues, rfl⟩)
        | type text => 
          refine iff_of_false (fun hc => by cases hc) (by simp)
    rw [h]
    refine hcaught.trans ((validates_iff document).trans ?_)
    simp
  · rw [h]
    exact iff_of_true (.issues issues) (by simp)
  · rw [h]
    refine iff_of_false (fun hc => by cases hc) (by simp)

namespace PackageI18n

/-- The constructor turns a catalog that cannot be loaded into an error text. -/
def Recovers (p : Printer) (py : Interpreter) (process : Process) (catalogPath : Str)
    (fallback : List (Str × Str)) (locale : Option Str) (environ : Option (List (Str × Str))) :
    Prop :=
  ∃ package, init p py process catalogPath fallback locale environ = .ok package ∧
    (package.translator = none ↔ package.loadError ≠ []) ∧
    (package.translator = none ↔
      ∀ c, Catalog.load p py process (configuredPath process catalogPath environ) ≠ .ok c)

theorem recovers_iff_caught {catalogPath : Str} {fallback : List (Str × Str)}
    {locale : Option Str} {environ : Option (List (Str × Str))} :
    Recovers p py process catalogPath fallback locale environ ↔
      Caught (Catalog.load p py process (configuredPath process catalogPath environ)) := by
  rw [Recovers, init]
  cases Catalog.load p py process (configuredPath process catalogPath environ) with
  | ok c => exact iff_of_true ⟨_, rfl, by simp, by simp⟩ (.loaded c)
  | error e =>
    cases e with
    | recursion text => exact iff_of_false (by simp) fun h => by cases h
    | load e =>
      cases e with
      | catalog issues =>
        exact iff_of_true ⟨_, rfl, by simp [catalogText_ne_nil], by simp⟩ (.issues issues)
      | type text => exact iff_of_false (by simp) fun h => by cases h

end PackageI18n

/-- Validation raises nothing but a CatalogError, and the constructor catches what loading a
catalog raises, exactly where the default locale can be looked up among the messages and the
json module does not run into the recursion limit. -/
theorem validation_total (p : Printer) :
    (∀ document, Validates p document ↔ DefaultHashable document.value) ∧
      ∀ py process catalogPath fallback locale environ,
        PackageI18n.Recovers p py process catalogPath fallback locale environ ↔
          let path := PackageI18n.configuredPath process catalogPath environ
          (∀ text, loadJson p py process path ≠ .error (.recursion text)) ∧
            ∀ document, loadJson p py process path = .ok document →
              DefaultHashable document.value :=
  ⟨validates_iff, fun _ _ _ _ _ _ => PackageI18n.recovers_iff_caught.trans (caught_iff _)⟩

/-- A printer that knows ASCII strings only. -/
def asciiPrinter : Printer := ⟨.ascii, fun _ => [], fun _ => []⟩

/-- A catalog whose default locale is a list. -/
def listDefault : Process where
  read _ := .ok (bytes
    "\x7b\"default_locale\": [], \"messages\": \x7b\"en\": \x7b\"k\": \"v\"\x7d\x7d\x7d")
  pathText := id
  environ := []

theorem list_default_raises :
    (∃ document, loadJson asciiPrinter plain listDefault (str "c.json") = .ok document ∧
      fromMapping asciiPrinter document = .error (.type (str "unhashable type: 'list'"))) ∧
    ¬ PackageI18n.Recovers asciiPrinter plain listDefault (str "c.json") [] none none := by
  have hload : Catalog.load asciiPrinter plain listDefault (str "c.json") =
      .error (.load (.type (str "unhashable type: 'list'"))) := by decide +kernel
  constructor
  · rw [load_eq] at hload
    obtain ⟨document, h⟩ | ⟨issues, h⟩ | ⟨text, h⟩ :=
      loadJson_cases asciiPrinter plain listDefault (str "c.json") <;> rw [h] at hload
    · refine ⟨document, h, ?_⟩
      have hmap : (fromMapping asciiPrinter document).mapError FileError.load = _ := hload
      cases hf : fromMapping asciiPrinter document with
      | ok c =>
        rw [hf] at hmap
        cases hmap
      | error e =>
        rw [hf] at hmap
        cases hmap
        rfl
    · cases hload
    · cases hload
  · rw [PackageI18n.recovers_iff_caught]
    have hpath : PackageI18n.configuredPath listDefault (str "c.json") none = str "c.json" := rfl
    rw [hpath, hload]
    rintro ⟨⟩

end Msys.I18n
