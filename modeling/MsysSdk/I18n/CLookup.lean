import MsysSdk.I18n.Plural
import MsysSdk.Text.Join

/-! `msys_i18n_lookup` and `msys_i18n_lookup_plural`: a scan of the flat table for the requested
locale, for what is left of it at each dash, and for the default locale. -/

namespace Msys.I18n.C
open Libc LocaleTag

/-- `msys_i18n_entry` -/
structure Entry where
  locale : Bytes
  key : Bytes
  value : Bytes

/-- `msys_i18n_catalog`, all of whose pointers are set. -/
structure Catalog where
  defaultLocale : Bytes
  entries : List Entry

def keyCapacity : Nat := 256

def lookupExact (catalog : Catalog) (locale key : Bytes) : Option Bytes :=
  (catalog.entries.find? fun entry => entry.locale = locale && entry.key = key).map Entry.value

/-- The locale at which the search begins; no locale stands for NULL. -/
def requestedLocale (canonical : Buffer) (catalog : Catalog) (locale : Option Bytes) :
    Option Bytes :=
  match locale.bind fun l => if l = [] then none else normalized canonical l with
  | some requested => some requested
  | none => normalized canonical catalog.defaultLocale

/-- The string that `strrchr` cuts off at its last dash. -/
def beforeLast (s : Bytes) : Option Bytes :=
  if chr '-' ∈ s then some (s.rdropWhile (· ≠ chr '-')).dropLast else none

/-- The loop over a locale and its parents; each round makes the candidate shorter. -/
def searchParents (find : Bytes → Option Bytes) : Nat → Bytes → Option Bytes
  | 0, _ => none
  | fuel + 1, candidate =>
    match find candidate with
    | some value => some value
    | none =>
      match beforeLast candidate with
      | none => none
      | some parent => searchParents find fuel parent

/-- The search for one or two keys. -/
def lookupKeys (canonical : Buffer) (catalog : Catalog) (locale : Option Bytes) (firstKey : Bytes)
    (secondKey : Option Bytes) : Option Bytes :=
  if firstKey = [] then none
  else
    let find (candidate : Bytes) :=
      (lookupExact catalog candidate firstKey).or (secondKey.bind (lookupExact catalog candidate))
    (requestedLocale canonical catalog locale).bind fun candidate =>
      (searchParents find (candidate.length + 1) candidate).or (find catalog.defaultLocale)

/-- `msys_i18n_lookup` -/
def lookup (canonical : Buffer) (catalog : Catalog) (locale : Option Bytes) (key : Bytes) :
    Option Bytes :=
  lookupKeys canonical catalog locale key none

section Plural

-- the category function is a parameter
variable (categoryOf : Bytes → Int → Category)

def lookupPluralExact (catalog : Catalog) (key : Bytes) (count : Int) (locale : Bytes) :
    Option Bytes :=
  let categoryKey := key ++ text "." ++ text (categoryOf locale count).text
  let otherKey := key ++ text ".other"
  if keyCapacity ≤ categoryKey.length || keyCapacity ≤ otherKey.length then none
  else (lookupExact catalog locale categoryKey).or (lookupExact catalog locale otherKey)

/-- `msys_i18n_lookup_plural` -/
def lookupPlural (canonical : Buffer) (catalog : Catalog) (locale : Option Bytes) (key : Bytes)
    (count : Int) : Option Bytes :=
  if key = [] then none
  else
    let find := lookupPluralExact categoryOf catalog key count
    (requestedLocale canonical catalog locale).bind fun candidate =>
      ((searchParents find (candidate.length + 1) candidate).or
        (find catalog.defaultLocale)).or (lookup canonical catalog locale key)

end Plural

/-! ### Parents -/

theorem beforeLast_chr {s : Chars} (hs : IsAscii s) :
    beforeLast (s.map chr) = if '-' ∈ s then some ((parent s).map chr) else none := by
  have hdash : ∀ c ∈ s, chr c = chr '-' ↔ c = '-' := fun c hc =>
    chr_inj ((hs c hc).trans (by decide)) (by decide)
  have hmem : chr '-' ∈ s.map chr ↔ '-' ∈ s := by
    rw [List.mem_map]
    refine ⟨?_, fun h => ⟨'-', h, rfl⟩⟩
    rintro ⟨c, hc, heq⟩
    exact (hdash c hc).mp heq ▸ hc
  have hcut : (s.map chr).rdropWhile (· ≠ chr '-') = (s.rdropWhile (· ≠ '-')).map chr :=
    Encoded.rdropWhile fun c hc => decide_eq_decide.mpr (not_congr (hdash c hc))
  rw [beforeLast, if_congr hmem rfl rfl, hcut, ← List.map_dropLast, parent]

/-! ### The requested locale -/

theorem asciiEqualFold_iff (l r : Bytes) :
    asciiEqualFold l r = true ↔ l.map tolower = r.map tolower := by
  induction l generalizing r with
  | nil => cases r <;> simp [asciiEqualFold]
  | cons a l ih => cases r <;> simp [asciiEqualFold, ih]

theorem normalizePart_zero {saw : Bool} {s : Bytes} {x : Bool × Bytes}
    (h : normalizePart 0 saw s = some x) :
    s.all isalpha = true ∧ s.length ≤ 8 ∧ x.2 = s.map tolower := by
  simp only [normalizePart, if_true] at h
  split_ifs at h with hnil hlen halpha
  obtain rfl := Option.some.inj h
  simp only [Bool.or_eq_true, decide_eq_true_eq, not_or, Nat.not_lt] at hlen
  exact ⟨halpha, hlen.2, rfl⟩

theorem isalpha_ne {b : UInt8} (h : isalpha b = true) : tolower b ≠ 0 ∧ tolower b ≠ chr '-' := by
  have key : ∀ n < 256, isalpha (.ofNat n) = true →
      tolower (.ofNat n) ≠ 0 ∧ tolower (.ofNat n) ≠ chr '-' := by decide +kernel
  have hb := key b.toNat b.toNat_lt
  rw [UInt8.ofNat_toNat] at hb
  exact hb h

theorem normalizeLocale_ok {input : Bytes} {output m : Buffer} {capacity : Nat}
    (h : normalizeLocale input output capacity = (.ok, m)) : ∃ raw parts,
      asciiEqualFold raw (text "POSIX") = false ∧
      normalizeParts 0 false (raw.splitOn (chr '-')) = some parts ∧
      m = output.copy 0 ([chr '-'].intercalate parts ++ [0]) := by
  rw [normalizeLocale] at h
  split_ifs at h
  · cases h
  split at h
  · cases h
  next raw _ =>
    split_ifs at h with hguard
    · cases h
    · cases h
    split at h
    · cases h
    next parts hparts =>
      obtain ⟨-, rfl⟩ := Prod.mk.inj h
      refine ⟨raw, parts, ?_, hparts, rfl⟩
      simp only [Bool.or_eq_true, not_or, Bool.not_eq_true] at hguard
      exact hguard.2

/-- The name of the default locale is never what a string is normalised to. -/
theorem normalized_ne_posix (canonical : Buffer) (locale : Bytes) :
    normalized canonical locale ≠ some (text "posix") := by
  intro h
  rw [normalized] at h
  generalize hr : normalizeLocale locale canonical localeCapacity = r at h
  obtain ⟨result, m⟩ := r
  simp only [Option.ite_none_right_eq_some, Option.some.injEq] at h
  obtain ⟨rfl, hstring⟩ := h
  obtain ⟨raw, parts, hposix, hparts, rfl⟩ := normalizeLocale_ok hr
  obtain ⟨s, rest, hsplit⟩ := List.exists_cons_of_ne_nil (List.splitOn_ne_nil (chr '-') raw)
  have hjoin : [chr '-'].intercalate (raw.splitOn (chr '-')) = raw := List.intercalate_splitOn ..
  rw [hsplit] at hparts hjoin
  obtain ⟨x, more, hx, hmore, rfl⟩ := normalizeParts_cons.mp hparts
  obtain ⟨halpha, hlen, hlower⟩ := normalizePart_zero hx
  have hbytes : ∀ b ∈ x.2, b ≠ 0 ∧ b ≠ chr '-' := by
    rw [hlower, List.forall_mem_map]
    exact fun b hb => isalpha_ne (List.all_eq_true.mp halpha b hb)
  have hzero : (0 : UInt8) ∉ x.2 := fun h => (hbytes 0 h).1 rfl
  have hfits : x.2.length < localeCapacity := by
    rw [hlower, List.length_map]
    exact hlen.trans_lt (by decide)
  rw [Joined.intercalate_singleton] at hstring hjoin
  cases rest with
  | nil =>
    obtain rfl : more = [] := (Option.some.inj hmore).symm
    rw [List.flatMap_nil, List.append_nil] at hstring hjoin
    rw [(Buffer.string_copy canonical hfits hzero).2, hlower, hjoin] at hstring
    have hfold := (asciiEqualFold_iff raw (text "POSIX")).mpr (hstring.trans (by decide))
    rw [hposix] at hfold
    cases hfold
  | cons s' rest =>
    -- a second part puts a dash into the string
    obtain ⟨y, tail, -, -, rfl⟩ := normalizeParts_cons.mp hmore
    rw [List.flatMap_cons, List.append_assoc, List.append_assoc, List.cons_append] at hstring
    obtain ⟨tail, htail, -, hdash⟩ :=
      Buffer.string_append canonical (b := chr '-') (t := _) hfits hzero
    have hmem : chr '-' ∈ text "posix" := by
      rw [← hstring, htail]
      exact List.mem_append_right _ (hdash (by decide))
    exact absurd hmem (by decide)

end Msys.I18n.C
