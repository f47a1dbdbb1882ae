import MsysSdk.I18n.Normalizers
import MsysSdk.I18n.Translator

/-! The locale of the environment. Python passes over a variable that is blank, the C SDK only over
one that is empty. -/

namespace Msys.I18n
open Python hiding Bytes
open Libc LocaleTag

/-- `locale_from_environment` -/
def localeFromEnvironment (u : UnicodeData) (environ : Str → Option Str) : Option Str :=
  let raw := environmentLocaleKeys.findSome? fun name =>
    match environ name with
    | some raw => if strip raw ≠ [] then some raw else none
    | none => none
  raw.bind (normalizeLocale u)

namespace C

/-- The loop of `msys_i18n_locale_from_environment`. -/
def sampleEnvironment (getenv : Str → Option Bytes) (output : Buffer) (capacity : Nat) :
    List Str → Result × Buffer
  | [] => (.notFound, output)
  | name :: names =>
    match getenv name with
    | some (b :: value) => normalizeLocale (b :: value) output capacity
    | _ => sampleEnvironment getenv output capacity names

/-- `msys_i18n_locale_from_environment` -/
def localeFromEnvironment (getenv : Str → Option Bytes) (output : Buffer) (capacity : Nat) :
    Result × Buffer :=
  if capacity = 0 then (.invalidArgument, output)
  else sampleEnvironment getenv output capacity environmentLocaleKeys

end C

/-- The environment of a process, and how Python decodes its values. -/
structure Environment where
  getenv : Str → Option Bytes
  decode : Bytes → Str
  decode_nil : decode [] = []

namespace Environment

variable (e : Environment)

/-- `os.environ` -/
def environ (name : Str) : Option Str := (e.getenv name).map e.decode

/-- The value of the first variable whose value meets the test. -/
def firstValue (p : Bytes → Bool) : Option Bytes :=
  environmentLocaleKeys.findSome? fun name => (e.getenv name).filter p

def isSet (value : Bytes) : Bool := value ≠ []

def isFilled (value : Bytes) : Bool := strip (e.decode value) ≠ []

end Environment

/-- The C SDK has put the locale into the buffer, or there is none. -/
def Chooses (r : C.Result × Buffer) (locale : Option Str) : Prop :=
  (∀ t, (r.1 = .ok ∧ Holds r.2 t) ↔ locale = some t) ∧ (r.1 ≠ .ok ↔ locale = none)

/-- The two normalisers agree on a value of the environment. -/
def AgreeOn (u : UnicodeData) (e : Environment) (value : Bytes) : Prop :=
  ∀ output : Buffer, Chooses (C.normalizeLocale value output C.localeCapacity)
    (normalizeLocale u (e.decode value))

/-- The two sides choose the same locale, or both choose none. -/
def EnvironmentsAgree (u : UnicodeData) (e : Environment) : Prop :=
  ∀ output : Buffer, Chooses (C.localeFromEnvironment e.getenv output C.localeCapacity)
    (localeFromEnvironment u e.environ)

variable {u : UnicodeData} {e : Environment}

theorem localeFromEnvironment_eq : localeFromEnvironment u e.environ =
    (e.firstValue e.isFilled).bind fun value => normalizeLocale u (e.decode value) := by
  rw [localeFromEnvironment, Environment.firstValue]
  generalize environmentLocaleKeys = names
  induction names with
  | nil => rfl
  | cons name names ih =>
    rw [List.findSome?_cons, List.findSome?_cons, Environment.environ]
    cases e.getenv name with
    | none => exact ih
    | some value =>
      rw [Option.map_some, Option.filter_some, Environment.isFilled]
      by_cases hblank : strip (e.decode value) = []
      · simpa [hblank] using ih
      · simp [hblank]

theorem C.sampleEnvironment_eq (output : Buffer) (capacity : Nat) (names : List Str) :
    C.sampleEnvironment e.getenv output capacity names =
      (names.findSome? fun name => (e.getenv name).filter Environment.isSet).elim
        (.notFound, output) fun value => C.normalizeLocale value output capacity := by
  induction names with
  | nil => rfl
  | cons name names ih =>
    rw [C.sampleEnvironment, List.findSome?_cons]
    cases e.getenv name with
    | none => exact ih
    | some value =>
      cases value with
      | nil => exact ih
      | cons b value => rfl

theorem C.localeFromEnvironment_eq (output : Buffer) :
    C.localeFromEnvironment e.getenv output C.localeCapacity =
      (e.firstValue Environment.isSet).elim (.notFound, output) fun value =>
        C.normalizeLocale value output C.localeCapacity := by
  rw [C.localeFromEnvironment, if_neg (by decide), C.sampleEnvironment_eq]
  rfl

/-- A value is that of a variable. -/
theorem Environment.firstValue_mem {p : Bytes → Bool} {value : Bytes}
    (h : e.firstValue p = some value) : p value = true ∧
      ∃ name ∈ environmentLocaleKeys, e.getenv name = some value := by
  obtain ⟨name, hname, hvalue⟩ := List.exists_of_findSome?_eq_some h
  obtain ⟨hget, hp⟩ := Option.filter_eq_some_iff.mp hvalue
  exact ⟨hp, name, hname, hget⟩

/-- A blank value is no locale. -/
theorem normalizeLocale_blank {s : Str} (h : strip s = []) : normalizeLocale u s = none := by
  rw [normalizeLocale, if_pos h]

/-- What is filled is set. -/
theorem Environment.isSet_of_isFilled {value : Bytes} (h : e.isFilled value = true) :
    Environment.isSet value = true := by
  refine decide_eq_true fun hnil => ?_
  rw [hnil, Environment.isFilled, e.decode_nil] at h
  cases h

/-- Where the first set value is filled, it is the first filled value, too. -/
theorem Environment.firstValue_filled {value : Bytes}
    (h : e.firstValue Environment.isSet = some value) (hfilled : e.isFilled value = true) :
    e.firstValue e.isFilled = some value := by
  rw [Environment.firstValue] at h ⊢
  generalize environmentLocaleKeys = names at h ⊢
  induction names with
  | nil => cases h
  | cons name names ih =>
    rw [List.findSome?_cons] at h ⊢
    cases hget : e.getenv name with
    | none =>
      rw [hget] at h
      exact ih h
    | some v =>
      rw [hget, Option.filter_some] at h
      rw [Option.filter_some]
      by_cases hset : Environment.isSet v = true
      · rw [if_pos hset] at h
        obtain rfl := Option.some.inj h
        rw [if_pos hfilled]
      · rw [if_neg hset] at h
        rw [if_neg (mt isSet_of_isFilled hset)]
        exact ih h

theorem Environment.firstValue_none (h : e.firstValue Environment.isSet = none) :
    e.firstValue e.isFilled = none := by
  rw [Environment.firstValue, List.findSome?_eq_none_iff] at h ⊢
  refine fun name hname => Option.filter_eq_none_iff.mpr fun v hv hfilled => ?_
  exact Option.filter_eq_none_iff.mp (h name hname) v hv (isSet_of_isFilled hfilled)

theorem chooses_none {r : C.Result × Buffer} (h : r.1 ≠ .ok) {locale : Option Str} :
    Chooses r locale ↔ locale = none := by
  refine ⟨fun hchooses => hchooses.2.mp h, ?_⟩
  rintro rfl
  exact ⟨fun t => iff_of_false (fun hok => h hok.1) (by simp), iff_of_true h rfl⟩

/-- Where the normalisers agree on the variables, the two sides agree exactly if the first value
that is not empty is not blank either, or the first one that is not blank is no locale. -/
theorem environments_agree (h : ∀ name ∈ environmentLocaleKeys, ∀ value,
      e.getenv name = some value → AgreeOn u e value) :
    EnvironmentsAgree u e ↔
      (∀ value, e.firstValue Environment.isSet = some value → e.isFilled value = true) ∨
        ∀ value, e.firstValue e.isFilled = some value →
          normalizeLocale u (e.decode value) = none := by
  simp only [EnvironmentsAgree, C.localeFromEnvironment_eq, localeFromEnvironment_eq]
  cases hset : e.firstValue Environment.isSet with
  | none =>
    rw [Environment.firstValue_none hset]
    exact iff_of_true (fun output => (chooses_none (by simp)).mpr rfl) (.inl fun _ h => by cases h)
  | some value =>
    obtain ⟨-, name, hname, hget⟩ := Environment.firstValue_mem hset
    have hvalue := h name hname value hget
    by_cases hfilled : e.isFilled value = true
    · rw [Environment.firstValue_filled hset hfilled]
      refine iff_of_true (fun output => hvalue output) (.inl fun v hv => ?_)
      exact Option.some.inj hv ▸ hfilled
    · -- the C SDK gives up on a blank value
      have hblank : normalizeLocale u (e.decode value) = none :=
        normalizeLocale_blank (by simpa [Environment.isFilled] using hfilled)
      have hresult : ∀ output, (C.normalizeLocale value output C.localeCapacity).1 ≠ .ok :=
        fun output => (hvalue output).2.mpr hblank
      have hnot : ¬ ∀ v, some value = some v → e.isFilled v = true := fun hall =>
        hfilled (hall value rfl)
      rw [or_iff_right hnot, ← Option.bind_eq_none_iff]
      constructor
      · exact fun hchooses => (chooses_none (hresult _)).mp (hchooses fun _ => 0)
      · exact fun hnone output => (chooses_none (hresult output)).mpr hnone

/-! ### Two variables -/

theorem agreeOn_utf8 {s : Str} (h : NormalizersAgree u s) (hs : e.decode (utf8 s) = s) :
    AgreeOn u e (utf8 s) := by
  intro output
  have hagree := h output
  rw [hs]
  generalize C.normalizeLocale (utf8 s) output C.localeCapacity = r at hagree ⊢
  obtain ⟨result, output⟩ := r
  obtain ⟨hsome, hnone⟩ := hagree
  refine ⟨hsome, ⟨fun hnot => ?_, fun hpython hok => ?_⟩⟩
  · exact Option.eq_none_iff_forall_ne_some.mpr fun t ht => hnot ((hsome t).mpr ht).1
  · cases (hnone.mpr hpython).symm.trans hok

/-- `MSYS_LOCALE` in front of a German `LANG`. -/
def beforeGerman (locale : String) : Environment where
  getenv name :=
    if name = str "MSYS_LOCALE" then some (text locale)
    else if name = str "LANG" then some (text "de_DE.UTF-8")
    else none
  decode value := value.map fun b => CodePoint.ofNat b.toNat
  decode_nil := rfl

theorem decode_text {s : Chars} (h : IsAscii s) (locale : String) :
    (beforeGerman locale).decode (utf8 (s.map ch)) = s.map ch := by
  have hdecode : ∀ value, (beforeGerman locale).decode value =
      value.map fun b => CodePoint.ofNat b.toNat := fun _ => rfl
  rw [hdecode, utf8_map_ch h, List.map_map]
  refine List.map_congr_left fun c hc => ?_
  rw [Function.comp_apply, toNat_chr ((h c hc).trans (by decide))]
  rfl

theorem beforeGerman_agree {locale : String} (hascii : IsAscii locale.toList)
    (h : NormalizersAgree .ascii (locale.toList.map ch)) : ∀ name ∈ environmentLocaleKeys,
      ∀ value, (beforeGerman locale).getenv name = some value →
        AgreeOn .ascii (beforeGerman locale) value := by
  rintro name - value hget
  have hgerman : NormalizersAgree .ascii ("de_DE.UTF-8".toList.map ch) :=
    (normalizers_agree (by decide) (by decide)).mpr (.inl (by decide))
  rw [beforeGerman] at hget
  dsimp only at hget
  split_ifs at hget
  · obtain rfl := Option.some.inj hget
    have hagree := agreeOn_utf8 h (decode_text hascii locale)
    rwa [utf8_map_ch hascii] at hagree
  · obtain rfl := Option.some.inj hget
    exact agreeOn_utf8 hgerman (decode_text (by decide) locale)

theorem environments_agree_portuguese : EnvironmentsAgree .ascii (beforeGerman "pt_BR") := by
  have hnormalizers : NormalizersAgree .ascii ("pt_BR".toList.map ch) :=
    (normalizers_agree (by decide) (by decide)).mpr (.inl (by decide))
  refine (environments_agree (beforeGerman_agree (by decide) hnormalizers)).mpr (.inl ?_)
  have hfirst : (beforeGerman "pt_BR").firstValue Environment.isSet = some (text "pt_BR") := by
    decide +kernel
  rw [hfirst]
  rintro value ⟨rfl⟩
  decide +kernel

/-- A blank variable hides the others from the C SDK only. -/
theorem blank_locale_disagrees :
    (∀ name ∈ environmentLocaleKeys, ∀ value, (beforeGerman " ").getenv name = some value →
      AgreeOn .ascii (beforeGerman " ") value) ∧
    ¬ EnvironmentsAgree .ascii (beforeGerman " ") := by
  have hnormalizers : NormalizersAgree .ascii (" ".toList.map ch) :=
    (normalizers_agree (by decide) (by decide)).mpr (.inl (by decide))
  refine ⟨beforeGerman_agree (by decide) hnormalizers, fun hagree => ?_⟩
  have hpython : localeFromEnvironment .ascii (beforeGerman " ").environ = some (str "de-DE") := by
    decide +kernel
  have hc : (C.localeFromEnvironment (beforeGerman " ").getenv (fun _ => 0) C.localeCapacity).1 =
      .invalidLocale := by decide +kernel
  have hchooses := (hagree fun _ => 0).2
  rw [hpython, hc] at hchooses
  cases hchooses.mp (by decide)

end Msys.I18n
