import MsysSdk.I18n.Package
import MsysSdk.I18n.Printing
import MsysSdk.Text.Replace

/-! `PackageI18n.text` without a catalog. It fills in one parameter after the other, which gives
what the translator renders as long as each name is found nowhere but at its placeholders. -/

namespace Msys.I18n
open Python
open Replace (replaceAll OnlyMarked)

/-- `str` of a parameter that the loop fills in; the error is the text of the ValueError for an
integer with too many digits. -/
def argumentText : Value → Option (Except Str Str)
  | .str s => some (.ok s)
  | .int i =>
    if intMaxStrDigits < (natRepr i.natAbs).length then
      some (.error (str "Exceeds the limit (4300 digits) for integer string conversion; " ++
        str "use sys.set_int_max_str_digits() to increase the limit"))
    else some (.ok (intText i))
  | _ => none

/-- The loop of `PackageI18n.text`. -/
def substitute : List (Str × Value) → Str → Except Str Str
  | [], rendered => .ok rendered
  | (name, value) :: params, rendered =>
    match argumentText value with
    | none => substitute params rendered
    | some (.error text) => .error text
    | some (.ok text) => substitute params (replaceAll (visible name) text rendered)

namespace PackageI18n

/-- The recovery string. -/
def english (package : PackageI18n) (key : Str) (fallback : Option Str) : Str :=
  fallback.getD ((package.fallback.lookup key).getD key)

/-- `text`; the parameters are a mapping in its order, or left out. -/
def text (u : UnicodeData) (package : PackageI18n) (key : Str)
    (params : Option (List (Str × Value))) (fallback : Option Str) :
    Except Str (Str × PackageI18n) :=
  match package.translator with
  | some t =>
    let arguments := match params with
      | some params => Params.mapping fun name => params.lookup name
      | none => .none
    let (output, t) := t.text u key arguments (some (package.english key fallback))
    .ok (output, { package with translator := some t })
  | none => (substitute (params.getD []) (package.english key fallback)).map (·, package)

end PackageI18n

/-! ### Filling in -/

variable {u : UnicodeData}

/-- The pieces of a template that the loop goes through: one with errors stays as it is. -/
def cells (u : UnicodeData) (template : Str) : List Token :=
  if (parseTemplate u template).2 = [] then (parseTemplate u template).1
  else [.literal template]

/-- Filled in with what is there, the name in braces occurs only as its placeholder. -/
def OnlyPlaceholder (tokens : List Token) (filled : Str → Option Value) (name : Str) : Prop :=
  ∀ before after, tokensText (fillWith filled) tokens = before ++ (visible name ++ after) →
    ∃ s t, tokens = s ++ .placeholder name :: t ∧ before = tokensText (fillWith filled) s

/-- The parameter is filled in at its placeholders only, or not at all. -/
def FillsIn (tokens : List Token) (filled : Str → Option Value) (name : Str) (value : Value) :
    Prop :=
  match argumentText value with
  | none => True
  | some (.error _) => False
  | some (.ok _) =>
    if (rendered (some value)).isSome then OnlyPlaceholder tokens filled name
    else ¬ visible name <:+: tokensText (fillWith filled) tokens

/-- No escape of a brace, and each parameter in turn is filled in where the translator does. -/
structure Recoverable (u : UnicodeData) (template : Str) (params : List (Str × Value)) : Prop where
  escapes : (parseTemplate u template).2 = [] →
    ∀ value, .literal value ∈ (parseTemplate u template).1 → ch '{' ∉ value ∧ ch '}' ∉ value
  fillsIn : ∀ before name value after, params = before ++ (name, value) :: after →
    FillsIn (cells u template) (fun n => before.lookup n) name value

theorem visible_ne_nil (name : Str) : visible name ≠ [] := List.cons_ne_nil _ _

/-- What the translator renders is what the loop fills in. -/
theorem rendered_argumentText {value : Value} {text text' : Str}
    (h : argumentText value = some (.ok text)) (h' : rendered (some value) = some text') :
    text' = text := by
  cases value with
  | str s =>
    cases h
    cases h'
    rfl
  | int i =>
    rw [argumentText] at h
    rw [rendered] at h'
    split_ifs at h h'
    · cases h
    · exact (Option.some.inj h').symm.trans (Except.ok.inj (Option.some.inj h))
  | _ => cases h

theorem rendered_eq_none {value : Value} (h : argumentText value = none) :
    rendered (some value) = none := by
  cases value with
  | str s => cases h
  | int i =>
    rw [argumentText] at h
    split_ifs at h
  | _ => rfl

/-- A name that is not filled in yet stands there as it is. -/
theorem fillWith_none {filled : Str → Option Value} {name : Str}
    (h : rendered (filled name) = none) : fillWith filled name = visible name := by
  rw [fillWith, h]
  rfl

section Step

variable {tokens : List Token} {filled : Str → Option Value} {name : Str} {value : Value}

/-- A parameter that the translator does not render changes nothing. -/
theorem fillWith_update_none (hname : filled name = none) (h : rendered (some value) = none) :
    fillWith (Function.update filled name (some value)) = fillWith filled := by
  funext n
  by_cases hn : n = name
  · rw [hn, fillWith_none (by rwa [Function.update_self]), fillWith_none (by rw [hname]; rfl)]
  · rw [fillWith, fillWith, Function.update_of_ne hn]

theorem replaceAll_tokens (hname : filled name = none) {text : Str}
    (htext : rendered (some value) = some text) (h : OnlyPlaceholder tokens filled name) :
    replaceAll (visible name) text (tokensText (fillWith filled) tokens) =
      tokensText (fillWith (Function.update filled name (some value))) tokens := by
  have hvisible : fillWith filled name = visible name := fillWith_none (by rw [hname]; rfl)
  have hmarked : ∀ t : Token, decide (t = .placeholder name) = true →
      t.text (fillWith filled) = visible name := fun t ht => by
    rw [of_decide_eq_true ht]
    exact hvisible
  have honly : OnlyMarked (Token.text (fillWith filled)) (fun t => decide (t = .placeholder name))
      (visible name) tokens := fun before after hsplit => by
    obtain ⟨s, t, htokens, hbefore⟩ := h before after hsplit
    exact ⟨s, .placeholder name, t, htokens, decide_eq_true rfl, hbefore⟩
  rw [tokensText, Replace.replaceAll_pieces (visible_ne_nil name) hmarked honly, tokensText]
  refine List.flatMap_congr fun t _ => ?_
  cases t with
  | literal value => rfl
  | placeholder n =>
    rw [Token.text, Token.text]
    by_cases hn : n = name
    · rw [hn, if_pos (decide_eq_true rfl), fillWith, Function.update_self, htext]
      rfl
    · have hne : ¬ decide (Token.placeholder n = .placeholder name) = true := by simpa using hn
      rw [if_neg hne, fillWith, fillWith, Function.update_of_ne hn]

/-- A round of the loop. -/
theorem substitute_cons (hname : filled name = none) (h : FillsIn tokens filled name value)
    (params : List (Str × Value)) :
    substitute ((name, value) :: params) (tokensText (fillWith filled) tokens) =
      substitute params
        (tokensText (fillWith (Function.update filled name (some value))) tokens) := by
  rw [substitute]
  rw [FillsIn] at h
  cases hargument : argumentText value with
  | none => rw [fillWith_update_none hname (rendered_eq_none hargument)]
  | some argument =>
    rw [hargument] at h
    cases argument with
    | error text => exact h.elim
    | ok text =>
      dsimp only at h ⊢
      cases hrendered : rendered (some value) with
      | some text' =>
        rw [hrendered, if_pos Option.isSome_some] at h
        obtain rfl := rendered_argumentText hargument hrendered
        rw [replaceAll_tokens hname hrendered h]
      | none =>
        rw [hrendered, if_neg (by simp)] at h
        rw [fillWith_update_none hname hrendered, Replace.replaceAll_of_absent h]

end Step

theorem lookup_absent {before : List (Str × Value)} {name : Str}
    (h : name ∉ before.map Prod.fst) : before.lookup name = none := by
  refine List.lookup_eq_none_iff.mpr fun e he => ?_
  have hne : name ≠ e.1 := fun heq => h (heq ▸ List.mem_map_of_mem he)
  simpa using hne

theorem lookup_snoc {before : List (Str × Value)} {name : Str}
    (h : name ∉ before.map Prod.fst) (value : Value) :
    (fun n => (before ++ [(name, value)]).lookup n) =
      Function.update (fun n => before.lookup n) name (some value) := by
  funext n
  rw [List.lookup_append]
  by_cases hn : n = name
  · rw [hn, Function.update_self, lookup_absent h, Option.none_or, List.lookup_cons_self]
  · have hne : (n == name) = false := by simpa using hn
    rw [Function.update_of_ne hn, List.lookup_cons, hne, List.lookup_nil, Option.or_none]

/-- The loop fills in what is left of the parameters. -/
theorem substitute_eq {tokens : List Token} {before params : List (Str × Value)}
    (hkeys : ((before ++ params).map Prod.fst).Nodup)
    (h : ∀ init name value rest, before ++ params = init ++ (name, value) :: rest →
      FillsIn tokens (fun n => init.lookup n) name value) :
    substitute params (tokensText (fillWith fun n => before.lookup n) tokens) =
      .ok (tokensText (fillWith fun n => (before ++ params).lookup n) tokens) := by
  induction params generalizing before with
  | nil =>
    rw [List.append_nil]
    rfl
  | cons e params ih =>
    obtain ⟨name, value⟩ := e
    have hsnoc : before ++ (name, value) :: params = before ++ [(name, value)] ++ params := by simp
    have hname : name ∉ before.map Prod.fst := fun hmem => by
      rw [List.map_append, List.nodup_append] at hkeys
      exact hkeys.2.2 name hmem name List.mem_cons_self rfl
    rw [substitute_cons (lookup_absent hname) (h before name value params rfl), ← lookup_snoc hname, hsnoc]
    rw [hsnoc] at hkeys h
    exact ih hkeys h

/-! ### The template as it stands -/

theorem printLiteral_plain {value : Str} (h : ch '{' ∉ value ∧ ch '}' ∉ value) :
    printLiteral value = value := by
  induction value with
  | nil => rfl
  | cons c value ih =>
    rw [List.mem_cons, not_or, List.mem_cons, not_or] at h
    have hrest : printLiteral value = value := ih ⟨h.1.2, h.2.2⟩
    rw [printLiteral, List.flatMap_cons, printChar_plain (Ne.symm h.1.1) (Ne.symm h.2.1),
      ← printLiteral, hrest]
    rfl

theorem tokensText_cells {template : Str} {params : List (Str × Value)}
    (h : Recoverable u template params) :
    tokensText (fillWith fun n => ([] : List (Str × Value)).lookup n) (cells u template) =
      template := by
  rw [cells]
  split_ifs with herrors
  · refine Eq.trans ?_ (print_parseTemplate herrors).1
    refine List.flatMap_congr fun t ht => ?_
    cases t with
    | literal value => exact (printLiteral_plain (h.escapes herrors value ht)).symm
    | placeholder name => rfl
  · exact List.append_nil _

theorem render_cells (template : Str) (params : Str → Option Value) :
    (render u template params).1 = tokensText (fillWith params) (cells u template) := by
  rw [render, cells]
  generalize parseTemplate u template = parsed
  obtain ⟨tokens, errors⟩ := parsed
  dsimp only
  by_cases herrors : errors = []
  · rw [if_neg (not_not.mpr herrors), if_pos herrors, renderTokens_output]
  · rw [if_pos herrors, if_neg herrors]
    exact (List.append_nil _).symm

/-- The loop gives what the translator renders. -/
theorem substitute_render {template : Str} {params : List (Str × Value)}
    (hkeys : (params.map Prod.fst).Nodup) (h : Recoverable u template params) :
    substitute params template = .ok (render u template fun n => params.lookup n).1 := by
  have hloop : substitute params (tokensText _ (cells u template)) = _ :=
    @substitute_eq (cells u template) [] params hkeys h.fillsIn
  rwa [tokensText_cells h, ← render_cells] at hloop

/-- A placeholder on its own. -/
theorem recoverable_visible {name : Str} (h : placeholder.rmatch name = true) (s : Str) :
    Recoverable u (visible name) [(name, .str s)] := by
  have hcanonical : Canonical [.placeholder name] :=
    ⟨List.forall_mem_singleton.mpr h, List.isChain_singleton _⟩
  have hparse : parseTemplate u (visible name) = ([.placeholder name], []) := by
    rw [← parseTemplate_print hcanonical]
    exact congrArg _ (List.append_nil _).symm
  refine ⟨fun _ value hmem => ?_, fun before n value after hsplit => ?_⟩
  · rw [hparse] at hmem
    cases List.mem_singleton.mp hmem
  · cases before with
    | cons e before => cases before <;> cases hsplit
    | nil =>
      obtain ⟨⟨rfl, rfl⟩, rfl⟩ : (name = n ∧ .str s = value) ∧ after = [] := by simpa using hsplit
      rw [cells, hparse, if_pos rfl]
      intro before after hoccurs
      have hlen := congrArg List.length hoccurs
      have htext : tokensText (fillWith fun m => ([] : List (Str × Value)).lookup m)
          [.placeholder name] = visible name := List.append_nil _
      rw [htext, List.length_append, List.length_append] at hlen
      obtain rfl : before = [] := List.eq_nil_of_length_eq_zero (by omega)
      exact ⟨[], [], rfl, rfl⟩

namespace Translator

/-- A key that is not found gives the recovery string, rendered. -/
theorem text_missing {t : Translator} {key : Str} (h : t.resolve [key] = none)
    (get : Str → Option Value) (fallback : Str) :
    (t.text u key (.mapping get) (some fallback)).1 = (I18n.render u fallback get).1 := by
  rw [text, h]
  rfl

theorem text_missing_none {t : Translator} {key : Str} (h : t.resolve [key] = none)
    (fallback : Str) : (t.text u key .none (some fallback)).1 =
      (I18n.render u fallback fun _ => none).1 := by
  rw [text, h]
  rfl

end Translator

namespace PackageI18n

theorem text_normal {package : PackageI18n} {t : Translator} (ht : package.translator = some t)
    {key : Str} (hkey : t.resolve [key] = none) (params : Option (List (Str × Value)))
    (fallback : Option Str) : (package.text u key params fallback).map Prod.fst =
      .ok (render u (package.english key fallback) fun n => (params.getD []).lookup n).1 := by
  unfold text
  rw [ht]
  cases params with
  | none => exact congrArg Except.ok (Translator.text_missing_none hkey _)
  | some params => exact congrArg Except.ok (Translator.text_missing hkey _ _)

/-- Without a translator and with one that lacks the key, the texts are the same: the rendered
recovery string. -/
theorem recovery_renders {recovering package : PackageI18n} (hr : recovering.translator = none)
    {t : Translator} (ht : package.translator = some t)
    (hfallback : recovering.fallback = package.fallback) {key : Str}
    (hkey : t.resolve [key] = none) {params : Option (List (Str × Value))}
    (hparams : ((params.getD []).map Prod.fst).Nodup) {fallback : Option Str}
    (h : Recoverable u (recovering.english key fallback) (params.getD [])) :
    (recovering.text u key params fallback).map Prod.fst =
        (package.text u key params fallback).map Prod.fst ∧
      (recovering.text u key params fallback).map Prod.fst =
        .ok (render u (recovering.english key fallback) fun n => (params.getD []).lookup n).1 := by
  have henglish : recovering.english key fallback = package.english key fallback := by
    rw [english, english, hfallback]
  have hloop : (recovering.text u key params fallback).map Prod.fst =
      .ok (render u (recovering.english key fallback) fun n => (params.getD []).lookup n).1 := by
    unfold text
    rw [hr]
    dsimp only
    rw [substitute_render hparams h]
    rfl
  exact ⟨by rw [hloop, text_normal ht hkey, henglish], hloop⟩

/-- A package whose catalog could not be loaded. -/
def withoutCatalog : PackageI18n := ⟨str "catalog.json", [], str "no such file", none⟩

/-- The same package with a catalog of one message. -/
def withCatalog : PackageI18n where
  catalogPath := str "catalog.json"
  fallback := []
  loadError := []
  translator := some (Translator.init .ascii
    { id := str "org.example"
      defaultLocale := str "en"
      messages := [(str "en", [(str "title", str "Title")])]
      description := none } none (fun _ => none) 64)

theorem recovery_renders_name :
    (withoutCatalog.text .ascii (str "user") (some [(str "name", .str (str "Ada"))])
        (some (visible (str "name")))).map Prod.fst =
      (withCatalog.text .ascii (str "user") (some [(str "name", .str (str "Ada"))])
        (some (visible (str "name")))).map Prod.fst := by
  have hresolve : (withCatalog.translator.bind fun t => t.resolve [str "user"]) = none := by
    decide +kernel
  have hname : placeholder.rmatch (str "name") = true := by decide +kernel
  exact (@recovery_renders .ascii withoutCatalog withCatalog rfl _ rfl rfl (str "user") hresolve
    (some [(str "name", .str (str "Ada"))]) (List.nodup_singleton _)
    (some (visible (str "name"))) (recoverable_visible hname (str "Ada"))).1

/-- Without a catalog, an escaped brace stays doubled. -/
theorem recovery_keeps_escapes :
    (withoutCatalog.text .ascii (str "set") none (some (str "\x7b\x7bx\x7d\x7d"))).map Prod.fst =
        .ok (str "\x7b\x7bx\x7d\x7d") ∧
      (withCatalog.text .ascii (str "set") none (some (str "\x7b\x7bx\x7d\x7d"))).map Prod.fst =
        .ok (str "\x7bx\x7d") := by
  decide +kernel

end PackageI18n

end Msys.I18n
