import MsysSdk.I18n.Translator

/-! What the translator finds. Whatever locale is selected, a key of the default locale has a
message, and the message asks for the parameters of the default one. -/

namespace Msys.I18n
open Python

variable {u : UnicodeData}

namespace Translator

/-! ### The chain -/

structure ChainOk (t : Translator) : Prop where
  nonempty : t.chain ≠ []
  available : ∀ l ∈ t.chain, (t.catalog.messages.lookup l).isSome = true
  default : t.catalog.defaultLocale ∈ t.chain

/-- What no action but `set_locale` changes. -/
def Same (t t' : Translator) : Prop := t'.catalog = t.catalog ∧ t'.chain = t.chain

theorem Same.trans {t t' t'' : Translator} (h : Same t t') (h' : Same t' t'') : Same t t'' :=
  ⟨h'.1.trans h.1, h'.2.trans h.2⟩

theorem same_emit (t : Translator) (code : Code) (key : Option Str) (detail : Str)
    (locale : Option Str) : Same t (t.emit code key detail locale) := ⟨rfl, rfl⟩

theorem same_render (t : Translator) (template : Str) (params : Str → Option Value)
    (key locale : Str) : Same t (t.render u template params key locale).2 := by
  have fold : ∀ (emitted : List (Code × Str)) (t : Translator),
      Same t (emitted.foldl (fun t e => t.emit e.1 (some key) e.2 (some locale)) t) := by
    intro emitted
    induction emitted with
    | nil => exact fun t => ⟨rfl, rfl⟩
    | cons e emitted ih => exact fun t => (same_emit t ..).trans (ih _)
  exact fold _ t

theorem same_safeParams (t : Translator) (params : Params) (key locale : Str) :
    Same t (t.safeParams params key locale).2 := by
  cases params <;> exact ⟨rfl, rfl⟩

theorem same_text (t : Translator) (key : Str) (params : Params) (fallback : Option Str) :
    Same t (t.text u key params fallback).2 := by
  rw [text]
  split
  · exact (same_safeParams ..).trans (same_render ..)
  · cases fallback with
    | none => exact same_emit ..
    | some template => exact (same_emit ..).trans ((same_safeParams ..).trans (same_render ..))

theorem same_plural {t t' : Translator} {key : Str} {count : Int} {params : Params}
    {fallback : Option Str} {output : Str}
    (h : t.plural u key count params fallback = .ok (output, t')) : Same t t' := by
  have rendered : ∀ {t₀ : Translator} {template usedKey locale : Str}, Same t t₀ →
      Except.ok (t₀.renderPlural u key count params template usedKey locale) =
        (.ok (output, t') : Except Str (Str × Translator)) → Same t t' := by
    intro t₀ template usedKey locale hsame h
    have hrendered := (same_safeParams t₀ params key locale).trans (same_render (u := u) _ template
      (Function.update (t₀.safeParams params key locale).1 (str "count") (some (.int count)))
      usedKey locale)
    have heq : (t₀.renderPlural u key count params template usedKey locale).2 = t' :=
      congrArg Prod.snd (Except.ok.inj h)
    exact heq ▸ hsame.trans hrendered
  rw [plural] at h
  split at h
  · cases h
  split at h
  · exact rendered ⟨rfl, rfl⟩ h
  cases fallback with
  | none =>
    cases h
    exact same_emit ..
  | some template => exact rendered (same_emit ..) h

theorem default_mem_candidates (requested defaultLocale : Str) :
    defaultLocale ∈ localeCandidates u requested defaultLocale := by
  rw [localeCandidates]
  split_ifs with h
  · exact h
  · simp

theorem request_catalog (t : Translator) (locale : Option Str) (environ : Str → Option Str) :
    (t.request u locale environ).2.catalog = t.catalog := by
  rw [request]
  split
  · rfl
  · split_ifs
    · rfl
    · split <;> rfl

def HasDefault (c : Catalog) : Prop := (c.messages.lookup c.defaultLocale).isSome = true

theorem available_ok {t : Translator} (h : HasDefault t.catalog) (requested : Str) :
    t.catalog.defaultLocale ∈ t.available u requested ∧
      ∀ l ∈ t.available u requested, (t.catalog.messages.lookup l).isSome = true := by
  have hmem : t.catalog.defaultLocale ∈
      (localeCandidates u requested t.catalog.defaultLocale).filter
        fun item => (t.catalog.messages.lookup item).isSome :=
    List.mem_filter.mpr ⟨default_mem_candidates _ _, h⟩
  rw [available, if_neg (List.ne_nil_of_mem hmem)]
  exact ⟨hmem, fun l hl => (List.mem_filter.mp hl).2⟩

theorem select_chain (t : Translator) (requested : Str) :
    (t.select u requested).2.catalog = t.catalog ∧
      (t.select u requested).2.chain = t.available u requested := by
  rw [select]
  split_ifs <;> exact ⟨rfl, rfl⟩

theorem setLocale_chainOk {t : Translator} (h : HasDefault t.catalog) (locale : Option Str)
    (environ : Str → Option Str) : (t.setLocale u locale environ).2.catalog = t.catalog ∧
      (t.setLocale u locale environ).2.ChainOk := by
  have hrequest := request_catalog (u := u) t locale environ
  rw [← hrequest] at h
  obtain ⟨hcatalog, hchain⟩ := select_chain (u := u) (t.request u locale environ).2
    (t.request u locale environ).1
  obtain ⟨hdefault, havailable⟩ := available_ok (u := u) h (t.request u locale environ).1
  refine ⟨hcatalog.trans hrequest, ?_, ?_, ?_⟩
  · rw [setLocale, hchain]
    exact List.ne_nil_of_mem hdefault
  · rw [setLocale, hchain, hcatalog]
    exact havailable
  · rw [setLocale, hchain, hcatalog]
    exact hdefault

theorem ChainOk.of_same {t t' : Translator} (h : t.ChainOk) (hs : Same t t') : t'.ChainOk := by
  obtain ⟨hcatalog, hchain⟩ := hs
  refine ⟨?_, ?_, ?_⟩
  · rw [hchain]
    exact h.nonempty
  · rw [hchain, hcatalog]
    exact h.available
  · rw [hchain, hcatalog]
    exact h.default

/-- Every action leaves the catalog and keeps the chain in order. -/
theorem step_chainOk {t t' : Translator} {a : Action} (hc : HasDefault t.catalog) (h : t.ChainOk)
    (hstep : t.step u a = some t') : t'.catalog = t.catalog ∧ t'.ChainOk := by
  cases a with
  | setLocale locale environ =>
    cases hstep
    exact setLocale_chainOk hc locale environ
  | text key params fallback =>
    cases hstep
    exact ⟨(same_text ..).1, h.of_same (same_text ..)⟩
  | plural key count params fallback =>
    rw [step] at hstep
    split at hstep
    next hok =>
      cases hstep
      exact ⟨(same_plural hok).1, h.of_same (same_plural hok)⟩
    next =>
      cases hstep
      exact ⟨rfl, h⟩
  | clearDiagnostics =>
    cases hstep
    exact ⟨rfl, h.of_same ⟨rfl, rfl⟩⟩

/-- The states that a translator reaches. -/
abbrev Reach (u : UnicodeData) (t t' : Translator) : Prop :=
  Transition.Reach (step u) Transition.Any t t'

theorem reach_chainOk {c : Catalog} (hc : HasDefault c) {locale : Option Str}
    {environ : Str → Option Str} {limit : Nat} {t : Translator}
    (h : Reach u (init u c locale environ limit) t) : t.catalog = c ∧ t.ChainOk := by
  refine h.invariant (P := fun t => t.catalog = c ∧ t.ChainOk)
    (setLocale_chainOk (by exact hc) locale environ) ?_
  rintro s a s' ⟨rfl, hok⟩ - hstep
  exact step_chainOk hc hok hstep

/-! ### What is reported -/

/-- Exactly the placeholders that the arguments lack are reported as missing, each once. -/
theorem renderTokens_missing (params : Str → Option Value) (reported : List Str)
    (tokens : List Token) : ∃ names : List Str, names.Nodup ∧
      (∀ n, n ∈ names ↔ n ∈ placeholderNames tokens ∧ params n = none ∧ n ∉ reported) ∧
      (renderTokens u params reported tokens).2.filter (·.1 = .missingPlaceholder) =
        names.map fun n => placeholderProblem u n none := by
  induction tokens generalizing reported with
  | nil => exact ⟨[], List.nodup_nil, by simp [placeholderNames], rfl⟩
  | cons token tokens ih =>
    cases token with
    | literal value => exact ih reported
    | placeholder value =>
      have hnames : placeholderNames (.placeholder value :: tokens) =
          value :: placeholderNames tokens := rfl
      simp only [hnames, List.mem_cons, renderTokens]
      -- a name that has an argument, or was reported before, adds nothing
      have skip : (params value ≠ none ∨ value ∈ reported) →
          ∀ n, n ∈ placeholderNames tokens ∧ params n = none ∧ n ∉ reported ↔
            (n = value ∨ n ∈ placeholderNames tokens) ∧ params n = none ∧ n ∉ reported := by
        intro hskip n
        refine ⟨fun h => ⟨.inr h.1, h.2⟩, ?_⟩
        rintro ⟨rfl | hn, hparams, hreported⟩
        · rcases hskip with hskip | hskip
          · exact absurd hparams hskip
          · exact absurd hskip hreported
        · exact ⟨hn, hparams, hreported⟩
      cases hrendered : rendered (params value) with
      | some text =>
        obtain ⟨names, hnodup, hmem, hfilter⟩ := ih reported
        refine ⟨names, hnodup, fun n => (hmem n).trans (skip (.inl fun hnone => ?_) n), hfilter⟩
        rw [hnone] at hrendered
        cases hrendered
      | none =>
        dsimp only
        by_cases hreported : value ∈ reported
        · obtain ⟨names, hnodup, hmem, hfilter⟩ := ih reported
          rw [if_pos hreported]
          exact ⟨names, hnodup, fun n => (hmem n).trans (skip (.inr hreported) n), hfilter⟩
        rw [if_neg hreported]
        obtain ⟨names, hnodup, hmem, hfilter⟩ := ih (value :: reported)
        cases hparams : params value with
        | none =>
          refine ⟨value :: names, ?_, fun n => ?_, ?_⟩
          · refine List.nodup_cons.mpr ⟨fun hn => ?_, hnodup⟩
            exact ((hmem value).mp hn).2.2 List.mem_cons_self
          · rw [List.mem_cons, hmem, List.mem_cons]
            by_cases hn : n = value
            · subst hn
              simp [hparams, hreported]
            · simp [hn]
          · rw [List.filter_cons_of_pos (by simp [placeholderProblem]), hfilter, List.map_cons]
        | some argument =>
          refine ⟨names, hnodup, fun n => (hmem n).trans ?_, ?_⟩
          · rw [← skip (.inl (by simp [hparams])) n, List.mem_cons, not_or]
            refine and_congr_right fun _ => and_congr_right fun hn => and_iff_right ?_
            rintro rfl
            rw [hparams] at hn
            cases hn
          · rw [List.filter_cons_of_neg (by simp [placeholderProblem]), hfilter]

theorem renderTokens_codes (params : Str → Option Value) (reported : List Str)
    (tokens : List Token) : ∀ e ∈ (renderTokens u params reported tokens).2,
      e.1 = .missingPlaceholder ∨ e.1 = .invalidPlaceholderValue := by
  have problem : ∀ (name : Str) (argument : Option Value),
      (placeholderProblem u name argument).1 = .missingPlaceholder ∨
        (placeholderProblem u name argument).1 = .invalidPlaceholderValue := by
    intro name argument
    cases argument
    · exact .inl rfl
    · exact .inr rfl
  induction tokens generalizing reported with
  | nil => simp [renderTokens]
  | cons token tokens ih =>
    cases token with
    | literal value => exact ih reported
    | placeholder value =>
      rw [renderTokens]
      cases rendered (params value) with
      | some text => exact ih reported
      | none =>
        dsimp only
        split_ifs
        · exact ih reported
        · exact List.forall_mem_cons.mpr ⟨problem _ _, ih _⟩

/-- The handler sees what `_render` emits, in that order. -/
theorem emitted_render (t : Translator) (template : Str) (params : Str → Option Value)
    (key locale : Str) : ∃ reports,
      (t.render u template params key locale).2.emitted = t.emitted ++ reports ∧
        reports.map (fun d => (d.code, d.detail)) = (I18n.render u template params).2 := by
  have fold : ∀ (emitted : List (Code × Str)) (t : Translator), ∃ reports,
      (emitted.foldl (fun t e => t.emit e.1 (some key) e.2 (some locale)) t).emitted =
        t.emitted ++ reports ∧ reports.map (fun d => (d.code, d.detail)) = emitted := by
    intro emitted
    induction emitted with
    | nil => exact fun t => ⟨[], (List.append_nil _).symm, rfl⟩
    | cons e emitted ih =>
      intro t
      obtain ⟨reports, hemitted, hmap⟩ := ih (t.emit e.1 (some key) e.2 (some locale))
      rw [List.foldl_cons, hemitted]
      exact ⟨_, List.append_assoc .., congrArg (e :: ·) hmap⟩
  exact fold _ t

/-- The names that the diagnostics report as missing, each once, are the required ones. -/
def ReportsMissing (u : UnicodeData) (reports : List Diagnostic) (required : Str → Prop) : Prop :=
  ∃ names : List Str, names.Nodup ∧ (∀ n, n ∈ names ↔ required n) ∧
    (reports.filter (·.code = .missingPlaceholder)).map (·.detail) =
      names.map fun n => (placeholderProblem u n none).2

/-- A template without errors asks for its own placeholders and does nothing worse. -/
theorem render_reports (t : Translator) {template : Str}
    (hparses : (parseTemplate u template).2 = []) (params : Str → Option Value)
    (key locale : Str) : ∃ reports,
      (t.render u template params key locale).2.emitted = t.emitted ++ reports ∧
        (∀ d ∈ reports, d.code ≠ .missingKey ∧ d.code ≠ .invalidTemplate) ∧
        ReportsMissing u reports fun n => n ∈ namesOf u template ∧ params n = none := by
  obtain ⟨reports, hemitted, hmap⟩ := emitted_render (u := u) t template params key locale
  have hrender : (I18n.render u template params).2 =
      (renderTokens u params [] (parseTemplate u template).1).2 := by
    simp only [I18n.render, hparses, ne_eq, not_true_eq_false, if_false]
  rw [hrender] at hmap
  refine ⟨reports, hemitted, fun d hd => ?_, ?_⟩
  · have hcode := renderTokens_codes (u := u) params [] (parseTemplate u template).1
      (d.code, d.detail) (hmap ▸ List.mem_map_of_mem hd)
    rcases hcode with hcode | hcode <;> dsimp only at hcode <;> rw [hcode] <;> simp
  · obtain ⟨names, hnodup, hmem, hfilter⟩ :=
      renderTokens_missing (u := u) params [] (parseTemplate u template).1
    refine ⟨names, hnodup, fun n => by simpa [namesOf] using hmem n, ?_⟩
    rw [← hmap, List.filter_map] at hfilter
    have hdetails := congrArg (List.map Prod.snd) hfilter
    rwa [List.map_map, List.map_map] at hdetails
end Translator

theorem Catalog.Valid.of_template {c : Catalog} (h : c.Valid u) {l key message : Str}
    (hmessage : c.template l key = some message) : MessageOk u (key, message) ∧
      ∃ t, c.template c.defaultLocale key = some t ∧
        ∀ n, n ∈ namesOf u message ↔ n ∈ namesOf u t := by
  obtain ⟨messages, hmessages, hlookup⟩ := Option.bind_eq_some_iff.mp hmessage
  have hlocale := Tables.mem_of_lookup hmessages
  have hkey := Tables.mem_of_lookup hlookup
  exact ⟨(h.locales _ hlocale).messages _ hkey, h.overlays _ hlocale _ hkey⟩

namespace Translator

theorem findMessage_one (c : Catalog) (l key : Str) :
    findMessage c l [key] = (c.template l key).map fun message => (message, l, key) := by
  rw [findMessage, List.findSome?_cons, List.findSome?_nil]
  cases c.template l key <;> rfl

/-- A key of the default locale is found in every chain. -/
theorem resolve_default {t : Translator} (h : t.ChainOk) {key template : Str}
    (hkey : t.catalog.template t.catalog.defaultLocale key = some template) :
    ∃ message l, t.resolve [key] = some (message, l, key) ∧
      t.catalog.template l key = some message := by
  have hsome : (t.resolve [key]).isSome = true := by
    rw [resolve, List.findSome?_isSome_iff]
    refine ⟨_, h.default, ?_⟩
    rw [findMessage_one, hkey]
    rfl
  obtain ⟨found, hfound⟩ := Option.isSome_iff_exists.mp hsome
  obtain ⟨l, -, hl⟩ := List.exists_of_findSome?_eq_some hfound
  rw [findMessage_one] at hl
  obtain ⟨message, hmessage, rfl⟩ := Option.map_eq_some_iff.mp hl
  exact ⟨message, l, hfound, hmessage⟩

end Translator

/-- Whatever locale is selected, a key of the default locale has a message that parses and that
asks for the placeholders of the default one. -/
theorem text_requires {p : Printer} {document : Document} {c : Catalog}
    (h : fromMapping p document = .ok c) {locale : Option Str} {environ : Str → Option Str}
    {limit : Nat} {t : Translator}
    (ht : Translator.Reach p.unicode (.init p.unicode c locale environ limit) t) :
    (t.chain ≠ [] ∧ c.defaultLocale ∈ t.chain ∧
      ∀ l ∈ t.chain, (c.messages.lookup l).isSome = true) ∧
    ∀ key template, c.template c.defaultLocale key = some template →
      ∀ (params : Str → Option Value) (fallback : Option Str), ∃ reports,
        (t.text p.unicode key (.mapping params) fallback).2.emitted = t.emitted ++ reports ∧
          (∀ d ∈ reports, d.code ≠ .missingKey ∧ d.code ≠ .invalidTemplate) ∧
          Translator.ReportsMissing p.unicode reports fun n =>
            n ∈ namesOf p.unicode template ∧ params n = none := by
  obtain ⟨d, -, hok⟩ := fromMapping_ok h
  have hvalid := fromMapping_valid h
  obtain ⟨rfl, hchain⟩ := Translator.reach_chainOk hok.present ht
  refine ⟨⟨hchain.nonempty, hchain.default, hchain.available⟩, fun key template hkey params _ => ?_⟩
  obtain ⟨message, l, hresolve, hmessage⟩ := Translator.resolve_default hchain hkey
  obtain ⟨hmok, t', ht', hnames⟩ := hvalid.of_template hmessage
  obtain rfl := Option.some.inj (hkey.symm.trans ht')
  obtain ⟨reports, hemitted, hcodes, hmissing⟩ :=
    Translator.render_reports t hmok.parses params key l
  refine ⟨reports, ?_, hcodes, ?_⟩
  · rw [Translator.text, hresolve]
    exact hemitted
  · simpa only [hnames] using hmissing

/-- A catalog in two languages. -/
def greetings : Catalog where
  id := str "org.msys.greetings"
  defaultLocale := str "en"
  messages :=
    [(str "en", [(str "greeting", str "Hello, \x7bname\x7d")]),
      (str "fr", [(str "greeting", str "Bonjour, \x7bname\x7d")])]
  description := none

def greetingsDocument : Document where
  value := .dict
    [(.str (str "schema"), .str catalogSchema), (.str (str "id"), .str greetings.id),
      (.str (str "default_locale"), .str greetings.defaultLocale),
      (.str (str "messages"), .dict (embedMessages greetings.messages))]
  distinct := by decide +kernel

theorem greetings_accepted :
    fromMapping ⟨.ascii, fun _ => [], fun _ => []⟩ greetingsDocument = .ok greetings := by
  decide +kernel

theorem text_requires_greetings : ∃ reports,
    ((Translator.init .ascii greetings (some (str "fr_FR.UTF-8")) (fun _ => none) 8).text .ascii
      (str "greeting") (.mapping fun _ => none) none).2.emitted =
        (Translator.init .ascii greetings (some (str "fr_FR.UTF-8")) (fun _ => none) 8).emitted ++
          reports ∧
      Translator.ReportsMissing .ascii reports fun n => n = str "name" := by
  obtain ⟨reports, hemitted, -, hmissing⟩ := (text_requires greetings_accepted .start).2 (str "greeting")
    (str "Hello, \x7bname\x7d") (by decide +kernel) (fun _ => none) none
  have hnames : namesOf .ascii (str "Hello, \x7bname\x7d") = [str "name"] := by decide +kernel
  refine ⟨reports, hemitted, ?_⟩
  simpa only [hnames, List.mem_singleton, and_true] using hmissing

end Msys.I18n
