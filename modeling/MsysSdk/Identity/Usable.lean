import MsysSdk.Identity.Agreement
import MsysSdk.Python.Truncate

/-! When the identity of a window can be used. What the identifiers are cut from decides: they are
trimmed before the NULs leave them, cut before their case is folded, and no step is repeated. -/

namespace Msys.UiIdentity
open Python
open Msys.AppManifest

def nul : CodePoint := ch '\x00'

/-- The characters of a text that `_clean` keeps. -/
def cut (s : Str) : Str := cutTo maxIdentityBytes s

/-- An identifier of a window as X11 takes it. -/
structure Usable (s : Str) : Prop where
  visible : strip s ≠ []
  noNul : nul ∉ s
  encodes : ∃ b, encodeUtf8 s = some b ∧ b.length ≤ maxIdentityBytes

structure WindowIdentity.Usable (w : WindowIdentity) : Prop where
  appId : UiIdentity.Usable w.appId
  componentId : UiIdentity.Usable w.componentId
  role : UiIdentity.Usable w.role
  wmClass : UiIdentity.Usable w.wmClass
  wmInstance : UiIdentity.Usable w.wmInstance

/-- Full case folding: every character folds on its own, to characters that stay when they are
folded again. Blanks, surrogates, the NUL and the colon take no part in it. -/
structure CaseFold.Full (f : CaseFold) (fold : CodePoint → Str) : Prop where
  casefold : ∀ s, f.casefold s = s.flatMap fold
  nonempty : ∀ c, fold c ≠ []
  folded : ∀ c, ∀ d ∈ fold c, fold d = [d]
  blank : ∀ c, ∀ d ∈ fold c, isWhitespace d = isWhitespace c
  surrogate : ∀ c, ∀ d ∈ fold c, d.isSurrogate = c.isSurrogate
  mark : ∀ c, ∀ d ∈ fold c, d = nul ∨ d = ch ':' → c = d

/-! ### Blanks -/

def Visible (s : Str) : Prop := ∃ c ∈ s, isWhitespace c = false

theorem strip_sublist (s : Str) : (strip s).Sublist s :=
  (List.rdropWhile_prefix _ _).sublist.trans (List.dropWhile_sublist _)

theorem mem_strip {s : Str} {c : CodePoint} (hc : c ∈ s) (hblank : isWhitespace c = false) :
    c ∈ strip s := by
  rw [← List.takeWhile_append_dropWhile (p := isWhitespace) (l := s), List.mem_append] at hc
  rcases hc with hc | hc
  · rw [List.mem_takeWhile_imp hc] at hblank
    cases hblank
  rw [← List.rdropWhile_append_rtakeWhile (p := isWhitespace) (l := s.dropWhile isWhitespace),
    List.mem_append] at hc
  rcases hc with hc | hc
  · exact hc
  · rw [List.mem_rtakeWhile_imp hc] at hblank
    cases hblank

theorem strip_ne_nil {s : Str} : strip s ≠ [] ↔ Visible s := by
  constructor
  · intro h
    by_contra hblank
    have hall : ∀ c ∈ s, isWhitespace c = true := fun c hc => by
      by_contra hc'
      exact hblank ⟨c, hc, Bool.eq_false_of_not_eq_true hc'⟩
    rw [strip, List.dropWhile_eq_nil_iff.mpr hall] at h
    exact h rfl
  · rintro ⟨c, hc, hblank⟩
    exact List.ne_nil_of_mem (mem_strip hc hblank)

/-! ### What is cleaned -/

/-- A value without what surrounds it, and then without its NULs. -/
def trimmed (value : Option Str) : Str := (strip (value.getD [])).filter (· ≠ nul)

theorem cleanText_eq (value : Option Str) (fallback : Str) :
    cleanText value fallback = if trimmed value = [] then fallback else trimmed value := rfl

theorem nul_not_mem_trimmed (value : Option Str) : nul ∉ trimmed value := by
  simp [trimmed]

theorem trimmed_sublist (s : Str) : (trimmed (some s)).Sublist s :=
  List.filter_sublist.trans (strip_sublist s)

/-- With no NUL in it a text is not left blank. -/
theorem trimmed_of_noNul {s : Str} (h : nul ∉ s) : trimmed (some s) = strip s := by
  refine List.filter_eq_self.mpr fun c hc => ?_
  have hne : c ≠ nul := by
    rintro rfl
    exact h ((strip_sublist s).subset hc)
  simpa using hne

theorem trimmed_ne_nil {s : Str} (h : nul ∉ s) : trimmed (some s) ≠ [] ↔ Visible s := by
  rw [trimmed_of_noNul h, strip_ne_nil]

theorem visible_trimmed {s : Str} (h : nul ∉ s) (hne : trimmed (some s) ≠ []) :
    Visible (trimmed (some s)) := by
  obtain ⟨c, hc, hblank⟩ := (trimmed_ne_nil h).mp hne
  rw [trimmed_of_noNul h]
  exact ⟨c, mem_strip hc hblank, hblank⟩

theorem clean_iff {value : Option Str} {fallback s : Str} :
    clean value fallback = some s ↔
      Encodable (cleanText value fallback) ∧ s = cut (cleanText value fallback) := by
  rw [clean, Option.map_eq_some_iff]
  constructor
  · rintro ⟨b, hb, rfl⟩
    have hencodable : Encodable (cleanText value fallback) := by
      rw [encodable_iff, hb, utf8_of_encode hb]
    rw [← utf8_of_encode hb, decodeIgnore_cut hencodable]
    exact ⟨hencodable, rfl⟩
  · rintro ⟨hencodable, rfl⟩
    exact ⟨_, encodable_iff.mp hencodable, decodeIgnore_cut hencodable _⟩

theorem canonicalToken_iff {f : CaseFold} {value : Option Str} {fallback s : Str} :
    canonicalToken f value fallback = some s ↔
      Encodable (cleanText value fallback) ∧ s = f.casefold (cut (cleanText value fallback)) := by
  rw [canonicalToken, Option.map_eq_some_iff]
  simp only [clean_iff]
  constructor
  · rintro ⟨t, ⟨hencodable, rfl⟩, rfl⟩
    exact ⟨hencodable, rfl⟩
  · rintro ⟨hencodable, rfl⟩
    exact ⟨_, ⟨hencodable, rfl⟩, rfl⟩

/-! ### Folding -/

section Folding

variable {f : CaseFold} {fold : CodePoint → Str}

theorem CaseFold.Full.mem_casefold (hf : f.Full fold) {s : Str} {d : CodePoint} :
    d ∈ f.casefold s ↔ ∃ c ∈ s, d ∈ fold c := by
  rw [hf.casefold, List.mem_flatMap]

theorem CaseFold.Full.visible (hf : f.Full fold) {s : Str} :
    Visible (f.casefold s) ↔ Visible s := by
  constructor
  · rintro ⟨d, hd, hblank⟩
    obtain ⟨c, hc, hdc⟩ := hf.mem_casefold.mp hd
    exact ⟨c, hc, by rw [← hf.blank c d hdc, hblank]⟩
  · rintro ⟨c, hc, hblank⟩
    obtain ⟨d, hd⟩ := List.exists_mem_of_ne_nil _ (hf.nonempty c)
    exact ⟨d, hf.mem_casefold.mpr ⟨c, hc, hd⟩, by rw [hf.blank c d hd, hblank]⟩

theorem CaseFold.Full.fold_mark (hf : f.Full fold) {c : Char} (hascii : c.toNat < 0x80)
    (hlower : c.toLower = c) : fold (ch c) = [ch c] := by
  have hone := f.ascii [c] (by simpa using hascii)
  rwa [hf.casefold, List.map_singleton, List.flatMap_singleton, List.map_singleton, hlower,
    List.map_singleton] at hone

theorem CaseFold.Full.mem_mark (hf : f.Full fold) {c : CodePoint} (hc : c = nul ∨ c = ch ':')
    {s : Str} : c ∈ f.casefold s ↔ c ∈ s := by
  have hone : fold c = [c] := by
    rcases hc with rfl | rfl <;> exact hf.fold_mark (by decide) (by decide)
  rw [hf.mem_casefold]
  constructor
  · rintro ⟨d, hd, hcd⟩
    rwa [← hf.mark d c hcd hc]
  · intro hmem
    exact ⟨c, hmem, by simp [hone]⟩

theorem CaseFold.Full.encodable (hf : f.Full fold) {s : Str} (h : Encodable s) :
    Encodable (f.casefold s) := by
  intro d hd
  obtain ⟨c, hc, hdc⟩ := hf.mem_casefold.mp hd
  rw [hf.surrogate c d hdc, h c hc]

theorem CaseFold.Full.fixed (hf : f.Full fold) {s : Str} (h : ∀ c ∈ s, fold c = [c]) :
    f.casefold s = s := by
  rw [hf.casefold, List.flatMap_congr h, List.flatMap_singleton']

theorem CaseFold.Full.casefold_folded (hf : f.Full fold) (s : Str) :
    ∀ d ∈ f.casefold s, fold d = [d] := by
  intro d hd
  obtain ⟨c, -, hdc⟩ := hf.mem_casefold.mp hd
  exact hf.folded c d hdc

theorem CaseFold.Full.afterLast_casefold (hf : f.Full fold) (s : Str) :
    afterLast (ch ':') (f.casefold s) = f.casefold (afterLast (ch ':') s) := by
  simp only [hf.casefold]
  induction s using List.reverseRecOn with
  | nil => rfl
  | append_singleton s c ih =>
    rw [List.flatMap_append, List.flatMap_singleton]
    by_cases hc : c = ch ':'
    · subst hc
      rw [hf.fold_mark (by decide) (by decide), afterLast, afterLast,
        List.rtakeWhile_concat_neg _ _ _ (by simp), List.rtakeWhile_concat_neg _ _ _ (by simp)]
      rfl
    · have hfold : ∀ d ∈ fold c, d ≠ ch ':' := by
        rintro d hd rfl
        exact hc (hf.mark c _ hd (.inr rfl))
      have hone : ∀ d ∈ [c], d ≠ ch ':' := by simpa using hc
      rw [afterLast_append_of_ne hfold, afterLast_append_of_ne hone, ih, List.flatMap_append,
        List.flatMap_singleton]

theorem CaseFold.Full.componentInstance_casefold (hf : f.Full fold) (s : Str) :
    componentInstance (f.casefold s) = f.casefold (componentInstance s) := by
  rw [componentInstance, componentInstance]
  have hmem := hf.mem_mark (.inr rfl) (s := s)
  by_cases hc : ch ':' ∈ s
  · rw [if_pos (List.contains_iff_mem.mpr (hmem.mpr hc)), if_pos (List.contains_iff_mem.mpr hc),
      hf.afterLast_casefold]
  · rw [if_neg (mt List.contains_iff_mem.mp (mt hmem.mp hc)),
      if_neg (mt List.contains_iff_mem.mp hc), hf.casefold]
    rfl

/-! ### What is left of one text -/

/-- A text of which something is seen within the bytes that are kept. -/
structure Name (t : Str) : Prop where
  encodable : Encodable t
  visible : Visible (cut t)
  noNul : nul ∉ cut t

/-- The bytes that the characters take when each is folded. -/
def foldedWidth (fold : CodePoint → Str) (s : Str) : Nat :=
  (s.map fun c => (utf8 (fold c)).length).sum

/-- A name whose characters do not take too many bytes folded. -/
structure Token (fold : CodePoint → Str) (t : Str) : Prop where
  name : Name t
  fits : foldedWidth fold (cut t) ≤ maxIdentityBytes

theorem CaseFold.Full.width (hf : f.Full fold) (s : Str) :
    (utf8 (f.casefold s)).length = foldedWidth fold s := by
  rw [hf.casefold]
  induction s with
  | nil => rfl
  | cons c s ih =>
    rw [List.flatMap_cons, utf8_append, List.length_append, ih]
    rfl

theorem usable_iff {s : Str} (h : Encodable s) :
    Usable s ↔ Visible s ∧ nul ∉ s ∧ (utf8 s).length ≤ maxIdentityBytes := by
  rw [encodable_iff] at h
  constructor
  · rintro ⟨hvisible, hnul, b, hb, hlength⟩
    rw [h, Option.some.injEq] at hb
    exact ⟨strip_ne_nil.mp hvisible, hnul, hb ▸ hlength⟩
  · rintro ⟨hvisible, hnul, hlength⟩
    exact ⟨strip_ne_nil.mpr hvisible, hnul, _, h, hlength⟩

theorem cut_encodable {t : Str} (h : Encodable t) : Encodable (cut t) :=
  fun c hc => h c ((cutTo_isPrefix _ _).subset hc)

theorem usable_cut {t : Str} (h : Encodable t) : Usable (cut t) ↔ Name t := by
  rw [usable_iff (cut_encodable h)]
  constructor
  · rintro ⟨hvisible, hnul, -⟩
    exact ⟨h, hvisible, hnul⟩
  · rintro ⟨-, hvisible, hnul⟩
    exact ⟨hvisible, hnul, length_utf8_cutTo _ _⟩

theorem usable_casefold (hf : f.Full fold) {t : Str} (h : Encodable t) :
    Usable (f.casefold (cut t)) ↔ Token fold t := by
  rw [usable_iff (hf.encodable (cut_encodable h)), hf.visible, hf.mem_mark (.inl rfl),
    hf.width]
  constructor
  · rintro ⟨hvisible, hnul, hfits⟩
    exact ⟨⟨h, hvisible, hnul⟩, hfits⟩
  · rintro ⟨⟨-, hvisible, hnul⟩, hfits⟩
    exact ⟨hvisible, hnul, hfits⟩

/-- A folded text stays as it is, apart from the cut. -/
theorem token_of_folded (hf : f.Full fold) {t : Str} (h : Encodable t)
    (hfolded : ∀ c ∈ t, fold c = [c]) (hnul : nul ∉ t) : Token fold t ↔ Visible (cut t) := by
  have hkept := cutTo_isPrefix maxIdentityBytes t
  refine ⟨fun ht => ht.name.visible, fun hvisible => ⟨⟨h, hvisible, ?_⟩, ?_⟩⟩
  · exact fun hmem => hnul (hkept.subset hmem)
  · rw [← hf.width, hf.fixed (s := cut t) fun c hc => hfolded c (hkept.subset hc)]
    exact length_utf8_cutTo _ _

/-- What a token becomes is left alone by all that follows. -/
theorem Token.again (hf : f.Full fold) {t : Str} (h : Token fold t) :
    cut (f.casefold (cut t)) = f.casefold (cut t) ∧ Token fold (f.casefold (cut t)) := by
  obtain ⟨⟨hencodable, hvisible, hnul⟩, hfits⟩ := h
  have hcut : cut (f.casefold (cut t)) = f.casefold (cut t) := cutTo_of_fits (by rwa [hf.width])
  refine ⟨hcut, (token_of_folded hf (hf.encodable (cut_encodable hencodable))
    (hf.casefold_folded _) ?_).mpr ?_⟩
  · rwa [hf.mem_mark (.inl rfl)]
  · rwa [hcut, hf.visible]

end Folding

/-! ### The five fields -/

def componentText (environ : Str → Option Str) : Str := trimmed (environ (str "MSYS_COMPONENT_ID"))

def roleText (environ : Str → Option Str) : Str := trimmed (environ (str "MSYS_WINDOW_ROLE"))

def classText (environ : Str → Option Str) : Str := trimmed (environ (str "MSYS_WINDOW_IDENTITY"))

def appText (environ : Str → Option Str) : Str :=
  trimmed (orElse (environ (str "MSYS_APP_ID")) (environ (str "MSYS_WINDOW_IDENTITY")))

def defaultText (defaultAppId : Str) : Str :=
  if trimmed (some defaultAppId) = [] then str "unknown" else trimmed (some defaultAppId)

/-- The default app id in the place of an app id: folded and cut. -/
def defaultAppText (fold : CodePoint → Str) (defaultAppId : Str) : Str :=
  cut ((cut (defaultText defaultAppId)).flatMap fold)

/-- The text of the app id, which falls back on the folded default. -/
def appSource (f : CaseFold) (defaultAppId : Str) (environ : Str → Option Str) : Str :=
  cleanText (orElse (environ (str "MSYS_APP_ID")) (environ (str "MSYS_WINDOW_IDENTITY")))
    (f.casefold (cut (cleanText (some defaultAppId) (str "unknown"))))

/-- Where the name of an instance is looked for. -/
def instanceSource (fold : CodePoint → Str) (defaultAppId : Str)
    (environ : Str → Option Str) : Str :=
  if componentText environ ≠ [] then cut (componentText environ)
  else if appText environ ≠ [] then cut (appText environ)
  else defaultAppText fold defaultAppId

def instanceText (fold : CodePoint → Str) (defaultAppId : Str)
    (environ : Str → Option Str) : Str :=
  trimmed (some (componentInstance (instanceSource fold defaultAppId environ)))

/-- Values and defaults that make a usable identity. -/
structure Supplied (fold : CodePoint → Str) (defaultAppId defaultRole defaultInstance : Str)
    (environ : Str → Option Str) : Prop where
  defaultApp : Encodable (trimmed (some defaultAppId))
  app : appText environ ≠ [] → Token fold (appText environ)
  noApp : appText environ = [] → Visible (defaultAppText fold defaultAppId)
  component : componentText environ ≠ [] → Name (componentText environ)
  role : roleText environ ≠ [] → Token fold (roleText environ)
  noRole : roleText environ = [] → Token fold defaultRole
  wmClass : classText environ ≠ [] → Token fold (classText environ)
  ownInstance : componentText environ ≠ [] → instanceText fold defaultAppId environ ≠ [] →
    foldedWidth fold (instanceText fold defaultAppId environ) ≤ maxIdentityBytes
  noInstance : instanceText fold defaultAppId environ = [] → Token fold defaultInstance

theorem cleanText_iff {P : Str → Prop} (value : Option Str) (fallback : Str) :
    P (cleanText value fallback) ↔
      (trimmed value ≠ [] → P (trimmed value)) ∧ (trimmed value = [] → P fallback) := by
  rw [cleanText_eq]
  by_cases h : trimmed value = []
  · simp [h]
  · simp [h]

section Fields

variable {f : CaseFold} {fold : CodePoint → Str} {defaultAppId defaultRole defaultInstance : Str}
  {environ : Str → Option Str}

theorem clean_usable {value : Option Str} {fallback s : Str} :
    (clean value fallback = some s ∧ Usable s) ↔
      Name (cleanText value fallback) ∧ s = cut (cleanText value fallback) := by
  rw [clean_iff]
  constructor
  · rintro ⟨⟨hencodable, rfl⟩, husable⟩
    exact ⟨(usable_cut hencodable).mp husable, rfl⟩
  · rintro ⟨hname, rfl⟩
    exact ⟨⟨hname.encodable, rfl⟩, (usable_cut hname.encodable).mpr hname⟩

theorem canonicalToken_usable (hf : f.Full fold) {value : Option Str} {fallback s : Str} :
    (canonicalToken f value fallback = some s ∧ Usable s) ↔
      Token fold (cleanText value fallback) ∧ s = f.casefold (cut (cleanText value fallback)) := by
  rw [canonicalToken_iff]
  constructor
  · rintro ⟨⟨hencodable, rfl⟩, husable⟩
    exact ⟨(usable_casefold hf hencodable).mp husable, rfl⟩
  · rintro ⟨htoken, rfl⟩
    have hencodable := htoken.name.encodable
    exact ⟨⟨hencodable, rfl⟩, (usable_casefold hf hencodable).mpr htoken⟩

/-- The fields one after the other, with the fallbacks as `window_identity` passes them on. -/
theorem windowIdentity_usable (hf : f.Full fold) :
    (∃ w, windowIdentity f defaultAppId defaultRole defaultInstance environ = some w ∧ w.Usable) ↔
      ∃ fallbackApp appId componentId,
        canonicalToken f (some defaultAppId) (str "unknown") = some fallbackApp ∧
        (canonicalToken f
          (orElse (environ (str "MSYS_APP_ID")) (environ (str "MSYS_WINDOW_IDENTITY"))) fallbackApp =
            some appId ∧ Usable appId) ∧
        (clean (environ (str "MSYS_COMPONENT_ID")) appId = some componentId ∧ Usable componentId) ∧
        Token fold (cleanText (environ (str "MSYS_WINDOW_ROLE")) defaultRole) ∧
        Token fold (cleanText (environ (str "MSYS_WINDOW_IDENTITY")) appId) ∧
        Token fold (cleanText (some (componentInstance componentId)) defaultInstance) := by
  constructor
  · rintro ⟨w, hw, happ, hcomponent, hrole, hclass, hinstance⟩
    simp only [windowIdentity, Option.bind_eq_bind, Option.bind_eq_some_iff, Option.pure_def,
      Option.some.injEq] at hw
    obtain ⟨fallbackApp, hfallback, appId, happ', componentId, hcomponent', role, hrole', wmClass,
      hclass', wmInstance, hinstance', rfl⟩ := hw
    exact ⟨fallbackApp, appId, componentId, hfallback, ⟨happ', happ⟩, ⟨hcomponent', hcomponent⟩,
      ((canonicalToken_usable hf).mp ⟨hrole', hrole⟩).1,
      ((canonicalToken_usable hf).mp ⟨hclass', hclass⟩).1,
      ((canonicalToken_usable hf).mp ⟨hinstance', hinstance⟩).1⟩
  · rintro ⟨fallbackApp, appId, componentId, hfallback, ⟨happ', happ⟩, ⟨hcomponent', hcomponent⟩,
      hrole, hclass, hinstance⟩
    obtain ⟨hrole', hrole⟩ := (canonicalToken_usable hf).mpr ⟨hrole, rfl⟩
    obtain ⟨hclass', hclass⟩ := (canonicalToken_usable hf).mpr ⟨hclass, rfl⟩
    obtain ⟨hinstance', hinstance⟩ := (canonicalToken_usable hf).mpr ⟨hinstance, rfl⟩
    refine ⟨⟨appId, componentId, _, _, _⟩, ?_, happ, hcomponent, hrole, hclass, hinstance⟩
    simp only [windowIdentity, Option.bind_eq_bind, hfallback, happ', hcomponent', hrole', hclass',
      hinstance', Option.bind_some]
    rfl

/-! ### The fallbacks -/

theorem encodable_default :
    Encodable (cleanText (some defaultAppId) (str "unknown")) ↔
      Encodable (trimmed (some defaultAppId)) := by
  have hunknown : Encodable (str "unknown") := encodable_iff.mpr (by decide +kernel)
  rw [cleanText_iff (P := Encodable)]
  constructor
  · intro h
    by_cases hblank : trimmed (some defaultAppId) = []
    · rw [hblank]
      exact fun c hc => absurd hc (List.not_mem_nil)
    · exact h.1 hblank
  · exact fun h => ⟨fun _ => h, fun _ => hunknown⟩

theorem nul_not_mem_default : nul ∉ cleanText (some defaultAppId) (str "unknown") :=
  (cleanText_iff (P := (nul ∉ ·)) _ _).mpr
    ⟨fun _ => nul_not_mem_trimmed _, fun _ => by decide +kernel⟩

theorem token_app (hf : f.Full fold) (h : Encodable (trimmed (some defaultAppId))) :
    Token fold (appSource f defaultAppId environ) ↔
      (appText environ ≠ [] → Token fold (appText environ)) ∧
        (appText environ = [] → Visible (defaultAppText fold defaultAppId)) := by
  have hencodable := hf.encodable (cut_encodable (encodable_default.mpr h))
  have hnul : nul ∉ f.casefold (cut (cleanText (some defaultAppId) (str "unknown"))) := by
    rw [hf.mem_mark (.inl rfl)]
    exact fun hmem => nul_not_mem_default ((cutTo_isPrefix _ _).subset hmem)
  rw [appSource, cleanText_iff (P := Token fold),
    token_of_folded hf hencodable (hf.casefold_folded _) hnul, defaultAppText, ← hf.casefold]
  rfl

/-- With no component of its own a window falls back on an app id that is usable already. -/
theorem name_component (hf : f.Full fold) {t : Str} (h : Token fold t) :
    Name (cleanText (environ (str "MSYS_COMPONENT_ID")) (f.casefold (cut t))) ↔
      (componentText environ ≠ [] → Name (componentText environ)) := by
  rw [cleanText_iff (P := Name)]
  exact and_iff_left fun _ => (h.again hf).2.name

theorem token_class (hf : f.Full fold) {t : Str} (h : Token fold t) :
    Token fold (cleanText (environ (str "MSYS_WINDOW_IDENTITY")) (f.casefold (cut t))) ↔
      (classText environ ≠ [] → Token fold (classText environ)) := by
  rw [cleanText_iff (P := Token fold)]
  exact and_iff_left fun _ => (h.again hf).2

/-! ### The instance -/

theorem componentInstance_sublist (s : Str) : (componentInstance s).Sublist s := by
  rw [componentInstance]
  split_ifs
  · exact (List.rtakeWhile_suffix _ _).sublist
  · exact List.nil_sublist s

theorem length_utf8_le {s t : Str} (h : s.Sublist t) : (utf8 s).length ≤ (utf8 t).length := by
  induction h with
  | slnil => exact Nat.le_refl _
  | cons c _ ih =>
    rw [utf8_cons, List.length_append]
    omega
  | cons_cons c _ ih =>
    rw [utf8_cons, utf8_cons, List.length_append, List.length_append]
    omega

/-- The part of a short identifier that names the instance is a name if it is not blank. -/
theorem name_instance {s : Str} (h : Encodable s) (hnul : nul ∉ s)
    (hfits : (utf8 s).length ≤ maxIdentityBytes)
    (hne : trimmed (some (componentInstance s)) ≠ []) :
    cut (trimmed (some (componentInstance s))) = trimmed (some (componentInstance s)) ∧
      Name (trimmed (some (componentInstance s))) := by
  have hsub := (trimmed_sublist (componentInstance s)).trans (componentInstance_sublist s)
  have hcut : cut (trimmed (some (componentInstance s))) = trimmed (some (componentInstance s)) :=
    cutTo_of_fits ((length_utf8_le hsub).trans hfits)
  have hinner : nul ∉ componentInstance s := fun hmem =>
    hnul ((componentInstance_sublist s).subset hmem)
  refine ⟨hcut, fun c hc => h c (hsub.subset hc), ?_, ?_⟩
  · rw [hcut]
    exact visible_trimmed hinner hne
  · rw [hcut]
    exact nul_not_mem_trimmed _

theorem visible_instance (hf : f.Full fold) {s : Str} (hnul : nul ∉ s) :
    trimmed (some (componentInstance (f.casefold s))) = [] ↔
      trimmed (some (componentInstance s)) = [] := by
  have hsub := componentInstance_sublist s
  have hinner : nul ∉ componentInstance s := fun hmem => hnul (hsub.subset hmem)
  have houter : nul ∉ f.casefold (componentInstance s) := by rwa [hf.mem_mark (.inl rfl)]
  rw [hf.componentInstance_casefold, ← not_iff_not, ← ne_eq, ← ne_eq, trimmed_ne_nil houter,
    trimmed_ne_nil hinner, hf.visible]

/-- An instance named in a folded identifier is usable. -/
theorem token_folded_instance (hf : f.Full fold) {t : Str} (h : Token fold t)
    (hne : trimmed (some (componentInstance (f.casefold (cut t)))) ≠ []) :
    Token fold (trimmed (some (componentInstance (f.casefold (cut t))))) := by
  have hnul : nul ∉ f.casefold (cut t) := by
    rw [hf.mem_mark (.inl rfl)]
    exact h.name.noNul
  have hencodable := hf.encodable (cut_encodable h.name.encodable)
  obtain ⟨hcut, hname⟩ := name_instance hencodable hnul (by rw [hf.width]; exact h.fits) hne
  have hsub := (trimmed_sublist (componentInstance (f.casefold (cut t)))).trans
    (componentInstance_sublist _)
  have hfolded := fun c hc => hf.casefold_folded (cut t) c (hsub.subset hc)
  exact (token_of_folded hf hname.encodable hfolded (nul_not_mem_trimmed _)).mpr hname.visible

theorem instanceText_of_component (h : componentText environ ≠ []) (appId : Str) :
    trimmed (some (componentInstance
        (cut (cleanText (environ (str "MSYS_COMPONENT_ID")) appId)))) =
      instanceText fold defaultAppId environ := by
  have hsource : instanceSource fold defaultAppId environ = cut (componentText environ) := if_pos h
  have hclean : cleanText (environ (str "MSYS_COMPONENT_ID")) appId = componentText environ :=
    if_neg h
  rw [instanceText, hsource, hclean]

theorem instanceText_of_app (hf : f.Full fold) (h : componentText environ = [])
    (ht : Token fold (appSource f defaultAppId environ)) :
    trimmed (some (componentInstance (f.casefold (cut (appSource f defaultAppId environ))))) = [] ↔
      instanceText fold defaultAppId environ = [] := by
  have hnul := ht.name.noNul
  rw [instanceText, instanceSource, if_neg (not_not.mpr h)]
  by_cases happ : appText environ = []
  · have hclean : appSource f defaultAppId environ =
        f.casefold (cut (cleanText (some defaultAppId) (str "unknown"))) := if_pos happ
    rw [hclean] at hnul ⊢
    rw [if_neg (not_not.mpr happ), defaultAppText, ← hf.casefold]
    exact visible_instance hf hnul
  · have hclean : appSource f defaultAppId environ = appText environ := if_neg happ
    rw [hclean] at hnul ⊢
    rw [if_pos happ]
    exact visible_instance hf hnul

theorem token_instance (hf : f.Full fold)
    (ht : Token fold (appSource f defaultAppId environ)) {componentId : Str}
    (hcomponent : clean (environ (str "MSYS_COMPONENT_ID"))
      (f.casefold (cut (appSource f defaultAppId environ))) = some componentId)
    (husable : Usable componentId) :
    Token fold (cleanText (some (componentInstance componentId)) defaultInstance) ↔
      (componentText environ ≠ [] → instanceText fold defaultAppId environ ≠ [] →
        foldedWidth fold (instanceText fold defaultAppId environ) ≤ maxIdentityBytes) ∧
      (instanceText fold defaultAppId environ = [] → Token fold defaultInstance) := by
  obtain ⟨hname, rfl⟩ := clean_usable.mp ⟨hcomponent, husable⟩
  have hencodable := cut_encodable hname.encodable
  rw [cleanText_iff (P := Token fold)]
  by_cases h : componentText environ = []
  · have hclean : ∀ appId, cleanText (environ (str "MSYS_COMPONENT_ID")) appId = appId :=
      fun appId => if_pos h
    rw [hclean, (ht.again hf).1]
    have hblank := instanceText_of_app hf h ht
    rw [ne_eq, hblank]
    constructor
    · exact fun hboth => ⟨fun hne => absurd h hne, hboth.2⟩
    · exact fun hboth => ⟨fun hne => token_folded_instance hf ht (mt hblank.mp hne), hboth.2⟩
  · have htext : ∀ appId, trimmed (some (componentInstance
        (cut (cleanText (environ (str "MSYS_COMPONENT_ID")) appId)))) =
          instanceText fold defaultAppId environ := instanceText_of_component h
    have hown := fun hne => name_instance hencodable hname.noNul (length_utf8_cutTo _ _) hne
    rw [htext] at hown ⊢
    refine and_congr_left fun _ => ⟨fun htoken _ hne => ?_, fun hfits hne => ?_⟩
    · have hlength := (htoken hne).fits
      rwa [(hown hne).1] at hlength
    · refine ⟨(hown hne).2, ?_⟩
      rw [(hown hne).1]
      exact hfits h hne

/-- A window has a usable identity exactly if every text that one of its fields comes from leaves
something of it: it can be encoded, is not blank within the bytes that are kept, and does not
outgrow them when its case is folded. -/
theorem windowIdentity_usable_iff (hf : f.Full fold) :
    (∃ w, windowIdentity f defaultAppId defaultRole defaultInstance environ = some w ∧ w.Usable) ↔
      Supplied fold defaultAppId defaultRole defaultInstance environ := by
  rw [windowIdentity_usable hf]
  constructor
  · rintro ⟨fallbackApp, appId, componentId, hfallback, happ, hcomponent, hrole, hclass, hinstance⟩
    obtain ⟨hdefault, rfl⟩ := canonicalToken_iff.mp hfallback
    obtain ⟨htoken, rfl⟩ := (canonicalToken_usable hf).mp happ
    have hencodable := encodable_default.mp hdefault
    have hname := (clean_usable.mp hcomponent).1
    obtain ⟨happ, hnoApp⟩ := (token_app hf hencodable).mp htoken
    obtain ⟨hown, hnone⟩ := (token_instance hf htoken hcomponent.1 hcomponent.2).mp hinstance
    obtain ⟨hrole, hnoRole⟩ := (cleanText_iff (P := Token fold) _ _).mp hrole
    exact ⟨hencodable, happ, hnoApp, (name_component hf htoken).mp hname, hrole, hnoRole,
      (token_class hf htoken).mp hclass, hown, hnone⟩
  · intro h
    have happ := (token_app hf h.defaultApp).mpr ⟨h.app, h.noApp⟩
    have hname := (name_component hf happ).mpr h.component
    have happ' := (canonicalToken_usable hf).mpr ⟨happ, rfl⟩
    have hcomponent := clean_usable.mpr ⟨hname, rfl⟩
    have hrole := (cleanText_iff (P := Token fold) _ _).mpr ⟨h.role, h.noRole⟩
    exact ⟨_, _, _, canonicalToken_iff.mpr ⟨encodable_default.mpr h.defaultApp, rfl⟩, happ',
      hcomponent, hrole, (token_class hf happ).mpr h.wmClass,
      (token_instance hf happ hcomponent.1 hcomponent.2).mpr ⟨h.ownInstance, h.noInstance⟩⟩

/-! ### ASCII identifiers -/

theorem lowerChar_cases (c : CodePoint) :
    UnicodeData.lowerChar c = c ∨
      (65 ≤ c.val ∧ c.val ≤ 90) ∧ (UnicodeData.lowerChar c).val = c.val + 32 := by
  rw [UnicodeData.lowerChar]
  split_ifs with h
  · simp only [Ascii.isUpper, Bool.and_eq_true, decide_eq_true_eq] at h
    exact .inr ⟨h, ofNat_val (by omega)⟩
  · exact .inl rfl

theorem asciiFold_full : asciiFold.Full fun c => [UnicodeData.lowerChar c] where
  casefold s := (List.flatMap_pure_eq_map _ s).symm
  nonempty c := List.cons_ne_nil _ _
  folded c d hd := by
    rw [List.mem_singleton.mp hd]
    rcases lowerChar_cases c with h | ⟨hc, h⟩
    · rw [h, h]
    · rcases lowerChar_cases (UnicodeData.lowerChar c) with h' | ⟨hc', -⟩
      · rw [h']
      · omega
  blank c d hd := by
    rw [List.mem_singleton.mp hd]
    rcases lowerChar_cases c with h | ⟨hc, h⟩
    · rw [h]
    · rw [Bool.eq_iff_iff]
      simp only [isWhitespace, Bool.or_eq_true, Bool.and_eq_true, decide_eq_true_eq]
      omega
  surrogate c d hd := by
    rw [List.mem_singleton.mp hd]
    rcases lowerChar_cases c with h | ⟨hc, h⟩
    · rw [h]
    · rw [Bool.eq_iff_iff]
      simp only [CodePoint.isSurrogate, Bool.and_eq_true, decide_eq_true_eq]
      omega
  mark c d hd hmark := by
    rw [List.mem_singleton.mp hd] at hmark ⊢
    rcases lowerChar_cases c with h | ⟨hc, h⟩
    · exact h.symm
    · have hnul : nul.val = 0 := rfl
      have hcolon : (ch ':').val = 58 := rfl
      rcases hmark with hmark | hmark
      · rw [hmark, hnul] at h
        omega
      · rw [hmark, hcolon] at h
        omega

theorem token_plain (hf : f.Full fold) {s : Str} (h : Plain s) (hne : s ≠ [])
    (hlength : s.length ≤ maxIdentityBytes) : Token fold s := by
  have hascii : ∀ c ∈ s, c.val < 0x80 := fun c hc => (h c hc).2.1
  have hbytes : (utf8 s).length ≤ maxIdentityBytes := by rwa [length_utf8_ascii hascii]
  have hcut : cut s = s := cutTo_of_fits hbytes
  refine ⟨⟨encodable_of_ascii hascii, ?_, ?_⟩, ?_⟩
  · obtain ⟨c, hc⟩ := List.exists_mem_of_ne_nil _ hne
    exact ⟨c, by rwa [hcut], h.not_space c hc⟩
  · rw [hcut]
    exact fun hmem => absurd (h _ hmem).1 (by decide)
  · rwa [hcut, ← hf.width, casefold_plain f h]

end Fields

/-- An environment that names the component of a window. -/
def viewerEnviron (name : Str) : Option Str :=
  if name = str "MSYS_APP_ID" then some (str "org.example.notes")
  else if name = str "MSYS_COMPONENT_ID" then some (str "org.example.notes:viewer")
  else none

theorem plain_iff {s : Str} : Plain s ↔
    s.all (fun c => 0x21 ≤ c.val && c.val < 0x80 && !Ascii.isUpper c.val) = true := by
  simp [Plain, and_assoc]

theorem windowIdentity_usable_viewer :
    ∃ w, windowIdentity asciiFold (str "org.example.app") (str "application") (str "main")
      viewerEnviron = some w ∧ w.Usable := by
  apply (windowIdentity_usable_iff asciiFold_full).mpr
  refine ⟨encodable_iff.mpr (by decide +kernel), fun _ => ?_, fun h => ?_, fun _ => ?_, fun h => ?_,
    fun _ => ?_, fun h => ?_, fun _ _ => by decide +kernel, fun h => ?_⟩
  · exact token_plain asciiFold_full (plain_iff.mpr (by decide +kernel)) (by decide +kernel)
      (by decide +kernel)
  · exact absurd h (by decide +kernel)
  · exact (token_plain asciiFold_full (plain_iff.mpr (by decide +kernel)) (by decide +kernel)
      (by decide +kernel)).name
  · exact absurd h (by decide +kernel)
  · exact token_plain asciiFold_full (plain_iff.mpr (by decide +kernel)) (by decide +kernel)
      (by decide +kernel)
  · exact absurd h (by decide +kernel)
  · exact absurd h (by decide +kernel)

/-- An app id that is one byte `0xFF`, as `os.environ` decodes it. -/
def undecodableEnviron (name : Str) : Option Str :=
  if name = str "MSYS_APP_ID" then some [CodePoint.ofNat 0xDCFF] else none

/-- Whatever folds the case, the byte that came in cannot go out again. -/
theorem undecodable_app_id_raises :
    (strip (str "org.example.app") ≠ [] ∧ strip (str "application") ≠ [] ∧
      strip (str "main") ≠ []) ∧
    ¬∃ (f : CaseFold) (w : WindowIdentity), windowIdentity f (str "org.example.app")
      (str "application") (str "main") undecodableEnviron = some w := by
  refine ⟨by decide +kernel, ?_⟩
  rintro ⟨f, w, hw⟩
  simp only [windowIdentity, Option.bind_eq_bind, Option.bind_eq_some_iff] at hw
  obtain ⟨fallbackApp, -, appId, happ, -⟩ := hw
  have hencodable := encodable_iff.mp (canonicalToken_iff.mp happ).1
  have hnone : encodeUtf8 [CodePoint.ofNat 0xDCFF] = none := by decide +kernel
  have htext : cleanText (orElse (undecodableEnviron (str "MSYS_APP_ID"))
      (undecodableEnviron (str "MSYS_WINDOW_IDENTITY"))) fallbackApp = [CodePoint.ofNat 0xDCFF] := by
    rw [cleanText_eq, if_neg (by decide +kernel)]
    decide +kernel
  rw [htext, hnone] at hencodable
  cases hencodable

end Msys.UiIdentity
