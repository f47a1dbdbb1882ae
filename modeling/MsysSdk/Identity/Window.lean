import MsysSdk.Manifest.Create
import MsysSdk.Python.Truncate

/-! `window_identity` of `ui_identity.py`, and what it makes of the identifiers of a manifest. -/

namespace Msys.UiIdentity
open Python RegularExpression
open Msys.AppManifest
open Msys.I18n (Pattern lit lowers digits nameWord)

/-- `str.casefold`, of which only the ASCII part is fixed. -/
structure CaseFold where
  casefold : Str → Str
  ascii : ∀ cs : List Char, (∀ c ∈ cs, c.toNat < 0x80) →
    casefold (cs.map ch) = (cs.map Char.toLower).map ch

def maxIdentityBytes : Nat := 192

/-- The text of `_clean` before it is cut. -/
def cleanText (value : Option Str) (fallback : Str) : Str :=
  let text := (strip (value.getD [])).filter (· ≠ ch '\x00')
  if text = [] then fallback else text

/-- `_clean`; `none` stands for UnicodeEncodeError. -/
def clean (value : Option Str) (fallback : Str) : Option Str :=
  (encodeUtf8 (cleanText value fallback)).map fun b => decodeIgnore (b.take maxIdentityBytes)

def canonicalToken (f : CaseFold) (value : Option Str) (fallback : Str) : Option Str :=
  (clean value fallback).map f.casefold

structure WindowIdentity where
  appId : Str
  componentId : Str
  role : Str
  wmClass : Str
  wmInstance : Str
deriving DecidableEq

/-- `a or b` of two lookups. -/
def orElse (a b : Option Str) : Option Str :=
  match a with
  | some (c :: cs) => some (c :: cs)
  | _ => b

def componentInstance (componentId : Str) : Str :=
  if componentId.contains (ch ':') then afterLast (ch ':') componentId else []

def windowIdentity (f : CaseFold) (defaultAppId defaultRole defaultInstance : Str)
    (environ : Str → Option Str) : Option WindowIdentity := do
  let fallbackApp ← canonicalToken f (some defaultAppId) (str "unknown")
  let appId ← canonicalToken f
    (orElse (environ (str "MSYS_APP_ID")) (environ (str "MSYS_WINDOW_IDENTITY"))) fallbackApp
  let componentId ← clean (environ (str "MSYS_COMPONENT_ID")) appId
  let role ← canonicalToken f (environ (str "MSYS_WINDOW_ROLE")) defaultRole
  let wmClass ← canonicalToken f (environ (str "MSYS_WINDOW_IDENTITY")) appId
  let wmInstance ← canonicalToken f (some (componentInstance componentId)) defaultInstance
  return ⟨appId, componentId, role, wmClass, wmInstance⟩

/-! ### Plain text -/

/-- ASCII without blanks, controls and upper case letters. -/
def Plain (s : Str) : Prop := ∀ c ∈ s, 0x21 ≤ c.val ∧ c.val < 0x80 ∧ Ascii.isUpper c.val = false

theorem Plain.append {s t : Str} (hs : Plain s) (ht : Plain t) : Plain (s ++ t) :=
  List.forall_mem_append.mpr ⟨hs, ht⟩

theorem Plain.take {s : Str} (h : Plain s) (n : Nat) : Plain (s.take n) :=
  fun c hc => h c (List.mem_of_mem_take hc)

theorem Plain.not_space {s : Str} (h : Plain s) : ∀ c ∈ s, isWhitespace c = false := by
  intro c hc
  obtain ⟨hlo, hhi, -⟩ := h c hc
  simp only [isWhitespace, Bool.or_eq_false_iff, Bool.and_eq_false_iff, decide_eq_false_iff_not]
  omega

theorem strip_plain {s : Str} (h : Plain s) : strip s = s := by
  have hspace := h.not_space
  have hdrop : s.dropWhile isWhitespace = s := by
    cases s with
    | nil => rfl
    | cons c s => exact List.dropWhile_cons_of_neg (by simp [hspace c])
  rw [strip, hdrop, List.rdropWhile_eq_self_iff]
  intro hne
  simp [hspace _ (List.getLast_mem hne)]

theorem cleanText_plain {s : Str} (h : Plain s) (hne : s ≠ []) (fallback : Str) :
    cleanText (some s) fallback = s := by
  have hfilter : s.filter (· ≠ ch '\x00') = s := by
    refine List.filter_eq_self.mpr fun c hc => ?_
    have hlo := (h c hc).1
    have hne : c ≠ ch '\x00' := by
      rintro rfl
      exact absurd hlo (by decide)
    simpa using hne
  rw [cleanText, Option.getD_some, strip_plain h, hfilter]
  exact if_neg hne

theorem clean_plain {s : Str} (h : Plain s) (hne : s ≠ []) (fallback : Str) :
    clean (some s) fallback = some (s.take maxIdentityBytes) := by
  have hascii : ∀ c ∈ s, c.val < 0x80 := fun c hc => (h c hc).2.1
  rw [clean, cleanText_plain h hne, encodable_iff.mp (encodable_of_ascii hascii), Option.map_some,
    decodeIgnore_take hascii]

theorem casefold_plain (f : CaseFold) {s : Str} (h : Plain s) : f.casefold s = s := by
  have hchars : (s.map ofCode).map ch = s := by
    rw [List.map_map]
    exact (List.map_congr_left fun c hc => ch_ofCode (h c hc).2.1).trans (List.map_id s)
  have hlower : (s.map ofCode).map Char.toLower = s.map ofCode := by
    rw [List.map_map]
    refine List.map_congr_left fun c hc => ?_
    obtain ⟨-, hascii, hupper⟩ := h c hc
    apply Char.toLower_eq_of_not_isUpper
    rw [← Ascii.isUpper_toNat, toNat_ofCode hascii, hupper]
    exact Bool.false_ne_true
  have hascii : ∀ c ∈ s.map ofCode, c.toNat < 0x80 := by
    refine List.forall_mem_map.mpr fun c hc => ?_
    rw [toNat_ofCode (h c hc).2.1]
    exact (h c hc).2.1
  calc f.casefold s = f.casefold ((s.map ofCode).map ch) := by rw [hchars]
    _ = ((s.map ofCode).map Char.toLower).map ch := f.ascii _ hascii
    _ = s := by rw [hlower, hchars]

theorem canonicalToken_plain (f : CaseFold) {s : Str} (h : Plain s) (hne : s ≠ [])
    (fallback : Str) : canonicalToken f (some s) fallback = some (s.take maxIdentityBytes) := by
  rw [canonicalToken, clean_plain h hne, Option.map_some, casefold_plain f (h.take _)]

end Msys.UiIdentity
