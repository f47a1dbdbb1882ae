import MsysSdk.Identity.Window

/-! The identity in the manifest against the one that the running component finds. -/

namespace Msys.UiIdentity
open Python RegularExpression
open Msys.AppManifest
open Msys.I18n (Pattern lit lowers digits nameWord)

/-! ### The identifiers of a manifest -/

theorem plain_of_letters {pattern : Pattern}
    (h : pattern.letters.all (fun c => 0x21 ≤ c.val && c.val < 0x80 && !Ascii.isUpper c.val) = true)
    {s : Str} (hs : pattern.rmatch s = true) : Plain s := by
  refine forall_of_letters (fun c hc => ?_) ((rmatch_iff_matches' pattern s).mp hs)
  have hletter := List.all_eq_true.mp h c hc
  simpa only [Bool.and_eq_true, decide_eq_true_eq, Bool.not_eq_true', and_assoc] using hletter

theorem package_plain {s : Str} (h : packageIdRe.rmatch s = true) : Plain s :=
  plain_of_letters (by decide +kernel) h

theorem component_plain {s : Str} (h : componentIdRe.rmatch s = true) : Plain s :=
  plain_of_letters (by decide +kernel) h

theorem component_no_colon {s : Str} (h : componentIdRe.rmatch s = true) : ∀ c ∈ s, c ≠ ch ':' := by
  refine forall_of_letters (fun c hc => ?_) ((rmatch_iff_matches' componentIdRe s).mp h)
  have hall : componentIdRe.letters.all (fun c => c ≠ ch ':') = true := by decide +kernel
  simpa using List.all_eq_true.mp hall c hc

theorem ne_nil_of_rmatch {pattern : Pattern} (hp : pattern.matchEpsilon = false) {s : Str}
    (h : pattern.rmatch s = true) : s ≠ [] := by
  rintro rfl
  have hempty : pattern.matchEpsilon = true := h
  rw [hp] at hempty
  cases hempty

theorem package_ne {args : Args} (h : IdsOk args) : args.packageId ≠ [] :=
  ne_nil_of_rmatch (by decide +kernel) h.package

theorem component_ne {args : Args} (h : IdsOk args) : args.component ≠ [] :=
  ne_nil_of_rmatch (by decide +kernel) h.component

/-! ### The component id -/

theorem afterLast_append_of_ne {c : CodePoint} {t : Str} (h : ∀ d ∈ t, d ≠ c) (s : Str) :
    afterLast c (s ++ t) = afterLast c s ++ t := by
  have hpass : ∀ d ∈ t.reverse, (decide (d ≠ c)) = true := fun d hd =>
    decide_eq_true (h d (List.mem_reverse.mp hd))
  rw [afterLast, List.rtakeWhile, List.reverse_append, List.takeWhile_append_of_pos hpass,
    List.reverse_append, List.reverse_reverse]
  rfl

theorem afterLast_append {c : CodePoint} {s t : Str} (h : ∀ d ∈ t, d ≠ c) :
    afterLast c (s ++ c :: t) = t := by
  have hlast : afterLast c (s ++ [c]) = [] := List.rtakeWhile_concat_neg _ _ _ (by simp)
  rw [List.append_cons, afterLast_append_of_ne h, hlast, List.nil_append]

/-- `f"{package_id}:{component}"` -/
def componentId (args : Args) : Str := args.packageId ++ ch ':' :: args.component

theorem componentId_length (args : Args) :
    (componentId args).length = args.packageId.length + args.component.length + 1 := by
  rw [componentId, List.length_append, List.length_cons]
  rfl

theorem componentId_plain {args : Args} (h : IdsOk args) : Plain (componentId args) := by
  refine (package_plain h.package).append (List.forall_mem_cons.mpr ⟨by decide, ?_⟩)
  exact component_plain h.component

/-- The limits of the manifest leave one pair of lengths too long for the window. -/
theorem fits_iff {args : Args} (h : IdsOk args) :
    (componentId args).length ≤ maxIdentityBytes ↔
      ¬(args.packageId.length = 128 ∧ args.component.length = 64) := by
  have hpackage := h.packageLength
  have hcomponent := h.componentLength
  rw [componentId_length, maxIdentityBytes]
  omega

/-- The environment that the supervisor gives to the component. -/
structure Started (args : Args) (environ : Str → Option Str) : Prop where
  appId : environ (str "MSYS_APP_ID") = some args.packageId
  window : environ (str "MSYS_WINDOW_IDENTITY") = some args.packageId
  component : environ (str "MSYS_COMPONENT_ID") = some (componentId args)

def identityOf (m : Manifest) : Option Identity :=
  (m.components.head?.bind (·.windowing)).map (·.identity)

theorem identityOf_manifest {args : Args} (h : args.graphical = true) (runtime : Runtime) :
    identityOf (args.manifest runtime) =
      some ⟨args.packageId, args.packageId, args.component⟩ := by
  have hwindowing : (args.componentItem runtime).windowing = args.windowing := rfl
  rw [identityOf, Args.manifest, List.head?_cons, Option.bind_some, hwindowing, Args.windowing,
    if_pos h]
  rfl

/-! ### What the component finds -/

section
variable {args : Args}

theorem canonicalToken_package (h : IdsOk args) (f : CaseFold) (fallback : Str) :
    canonicalToken f (some args.packageId) fallback = some args.packageId := by
  have hlength := h.packageLength
  rw [canonicalToken_plain f (package_plain h.package) (package_ne h),
    List.take_of_length_le (by rw [maxIdentityBytes]; omega)]

/-- Cutting the component id leaves the package id and some of the component. -/
theorem componentId_take (h : IdsOk args) : (componentId args).take maxIdentityBytes =
    args.packageId ++ ch ':' :: args.component.take (191 - args.packageId.length) := by
  have hlength := h.packageLength
  have hrest : maxIdentityBytes - args.packageId.length = 191 - args.packageId.length + 1 := by
    rw [maxIdentityBytes]
    omega
  rw [componentId, List.take_append, List.take_of_length_le (by rw [maxIdentityBytes]; omega),
    hrest, List.take_succ_cons]

theorem clean_component (h : IdsOk args) (fallback : Str) :
    clean (some (componentId args)) fallback = some ((componentId args).take maxIdentityBytes) := by
  refine clean_plain (componentId_plain h) ?_ fallback
  simp [componentId]

theorem canonicalToken_instance (h : IdsOk args) (f : CaseFold) (fallback : Str) :
    canonicalToken f (some (componentInstance ((componentId args).take maxIdentityBytes))) fallback =
      some (args.component.take (191 - args.packageId.length)) := by
  have hlength := h.packageLength
  have hcomponent := h.componentLength
  have hplain := (component_plain h.component).take (191 - args.packageId.length)
  have hcolon : ∀ d ∈ args.component.take (191 - args.packageId.length), d ≠ ch ':' :=
    fun d hd => component_no_colon h.component d (List.mem_of_mem_take hd)
  have hne : args.component.take (191 - args.packageId.length) ≠ [] := by
    obtain ⟨c, cs, hcons⟩ := List.exists_cons_of_ne_nil (component_ne h)
    obtain ⟨n, hn⟩ := Nat.exists_eq_add_of_le' (show 1 ≤ 191 - args.packageId.length by omega)
    rw [hcons, hn]
    exact List.cons_ne_nil _ _
  rw [componentId_take h, componentInstance, if_pos (by simp), afterLast_append hcolon,
    canonicalToken_plain f hplain hne, List.take_take, Nat.min_eq_right]
  rw [maxIdentityBytes]
  omega

theorem windowIdentity_eq (h : IdsOk args) (f : CaseFold) {defaultAppId defaultRole defaultInstance : Str}
    {environ : Str → Option Str} (hs : Started args environ) {appId role : Str}
    (happ : canonicalToken f (some defaultAppId) (str "unknown") = some appId)
    (hrole : canonicalToken f (environ (str "MSYS_WINDOW_ROLE")) defaultRole = some role) :
    windowIdentity f defaultAppId defaultRole defaultInstance environ =
      some ⟨args.packageId, (componentId args).take maxIdentityBytes, role, args.packageId,
        args.component.take (191 - args.packageId.length)⟩ := by
  have hor : ∀ b, orElse (some args.packageId) b = some args.packageId := by
    intro b
    obtain ⟨c, cs, hcons⟩ := List.exists_cons_of_ne_nil (package_ne h)
    rw [hcons]
    rfl
  simp only [windowIdentity, happ, hs.appId, hs.window, hs.component, hor, hrole,
    canonicalToken_package h, clean_component h, canonicalToken_instance h, Option.bind_eq_bind,
    Option.bind_some]
  rfl

end

theorem exists_clean_iff {value : Option Str} {fallback : Str} :
    (∃ s, clean value fallback = some s) ↔ Encodable (cleanText value fallback) := by
  constructor
  · rintro ⟨s, hs⟩
    obtain ⟨b, hb, -⟩ := Option.map_eq_some_iff.mp hs
    exact encodable_iff.mpr (by rw [hb, utf8_of_encode hb])
  · intro h
    rw [clean, encodable_iff.mp h]
    exact ⟨_, rfl⟩

theorem exists_canonicalToken_iff {f : CaseFold} {value : Option Str} {fallback : Str} :
    (∃ s, canonicalToken f value fallback = some s) ↔ Encodable (cleanText value fallback) := by
  rw [← exists_clean_iff]
  constructor
  · rintro ⟨s, hs⟩
    obtain ⟨t, ht, -⟩ := Option.map_eq_some_iff.mp hs
    exact ⟨t, ht⟩
  · rintro ⟨t, ht⟩
    rw [canonicalToken, ht]
    exact ⟨_, rfl⟩

/-- What the manifest and the window should agree on. -/
structure Agrees (args : Args) (identity : Identity) (w : WindowIdentity) : Prop where
  appId : w.appId = identity.appId
  wmClass : w.wmClass = identity.x11WmClass
  componentId : w.componentId = UiIdentity.componentId args
  wmInstance : w.wmInstance = identity.x11WmInstance

/-- The component can name itself in UTF-8 where the environment does not do it. -/
def CanEncode (defaultAppId defaultRole : Str) (environ : Str → Option Str) : Prop :=
  Encodable (cleanText (some defaultAppId) (str "unknown")) ∧
    Encodable (cleanText (environ (str "MSYS_WINDOW_ROLE")) defaultRole)

/-- The environment, with nothing else in it. -/
def supervise (args : Args) (name : Str) : Option Str :=
  if name = str "MSYS_APP_ID" ∨ name = str "MSYS_WINDOW_IDENTITY" then some args.packageId
  else if name = str "MSYS_COMPONENT_ID" then some (componentId args)
  else none

theorem started_supervise (args : Args) : Started args (supervise args) where
  appId := if_pos (by decide)
  window := if_pos (by decide)
  component := (if_neg (by decide)).trans (if_pos (by decide))

def asciiFold : CaseFold := ⟨UnicodeData.ascii.lower, UnicodeData.ascii.lower_ascii⟩

theorem identities_agree {u : UnicodeData} {args : Args} {m : Manifest}
    (hm : createApplicationManifest u args = .ok m) (hg : args.graphical = true) (f : CaseFold)
    {defaultAppId defaultRole defaultInstance : Str} {environ : Str → Option Str}
    (hs : Started args environ) :
    ∃ identity, identityOf m = some identity ∧
      ((∃ w, windowIdentity f defaultAppId defaultRole defaultInstance environ = some w ∧
          Agrees args identity w) ↔
        CanEncode defaultAppId defaultRole environ ∧
          ¬(args.packageId.length = 128 ∧ args.component.length = 64)) := by
  obtain ⟨h, runtime, rfl⟩ := create_ok hm
  refine ⟨_, identityOf_manifest hg runtime, ?_⟩
  rw [← fits_iff h]
  constructor
  · rintro ⟨w, hw, hagrees⟩
    have hw' := hw
    simp only [windowIdentity, Option.bind_eq_bind, Option.bind_eq_some_iff] at hw'
    obtain ⟨appId, happ, -, -, -, -, role, hrole, -⟩ := hw'
    rw [windowIdentity_eq h f hs happ hrole] at hw
    cases hw
    refine ⟨⟨exists_canonicalToken_iff.mp ⟨appId, happ⟩,
      exists_canonicalToken_iff.mp ⟨role, hrole⟩⟩, ?_⟩
    exact List.take_eq_self_iff _ |>.mp hagrees.componentId
  · rintro ⟨⟨happ, hrole⟩, hfits⟩
    obtain ⟨appId, happ⟩ := exists_canonicalToken_iff.mpr happ
    obtain ⟨role, hrole⟩ := exists_canonicalToken_iff.mpr hrole
    refine ⟨_, windowIdentity_eq h f hs happ hrole, rfl, rfl, List.take_of_length_le hfits, ?_⟩
    rw [componentId_length, maxIdentityBytes] at hfits
    exact List.take_of_length_le (by omega)

def tkArgs : Args := .plain (str "org.example.notes") (str "tk")

theorem identities_agree_tk :
    ∃ identity w, identityOf (tkArgs.manifest .tk) = some identity ∧
      windowIdentity asciiFold (str "notes") (str "application") (str "main") (supervise tkArgs) =
        some w ∧
      Agrees tkArgs identity w := by
  have hcreated : createApplicationManifest .ascii tkArgs = .ok (tkArgs.manifest .tk) := by
    decide +kernel
  obtain ⟨identity, hidentity, hiff⟩ := identities_agree hcreated rfl asciiFold
    (started_supervise tkArgs)
  have hencode : CanEncode (str "notes") (str "application") (supervise tkArgs) := by
    constructor <;> exact encodable_iff.mpr (by decide +kernel)
  obtain ⟨w, hw, hagrees⟩ := hiff.mpr ⟨hencode, by decide⟩
  exact ⟨identity, w, hidentity, hw, hagrees⟩

/-! ### The longest identifiers -/

def longestArgs : Args :=
  { Args.plain (ch 'a' :: ch '.' :: List.replicate 126 (ch 'a')) (str "tk") with
    component := List.replicate 64 (ch 'a')
    name := some (str "A") }

theorem longestArgs_lengths :
    longestArgs.packageId.length = 128 ∧ longestArgs.component.length = 64 := by
  constructor
  · show (List.replicate 126 (ch 'a')).length + 1 + 1 = 128
    rw [List.length_replicate]
  · exact List.length_replicate

theorem replicate_mem_nameWord (n : Nat) :
    List.replicate (n + 1) (ch 'a') ∈ nameWord.matches' := by
  refine mem_comp.mpr ⟨[ch 'a'], mem_oneOf.mpr ⟨ch 'a', ?_, rfl⟩, List.replicate n (ch 'a'), ?_, rfl⟩
  · decide +kernel
  · refine mem_star_oneOf.mpr fun c hc => ?_
    rw [(List.mem_replicate.mp hc).2]
    decide +kernel

theorem longestArgs_ids : IdsOk longestArgs where
  package := by
    refine (rmatch_iff_matches' packageIdRe _).mpr ?_
    refine mem_comp.mpr ⟨[ch 'a'], replicate_mem_nameWord 0, _, ?_, rfl⟩
    refine mem_comp.mpr ⟨[], ?_, _, ?_, rfl⟩
    · exact Language.mem_kstar.mpr ⟨[], rfl, by simp⟩
    · exact mem_comp.mpr ⟨[ch '.'], rfl, _, replicate_mem_nameWord 125, rfl⟩
  packageLength := longestArgs_lengths.1.le
  component := by
    refine (rmatch_iff_matches' componentIdRe _).mpr ?_
    refine mem_comp.mpr ⟨[ch 'a'], mem_oneOf.mpr ⟨ch 'a', ?_, rfl⟩, List.replicate 63 (ch 'a'), ?_, rfl⟩
    · decide +kernel
    · refine mem_star_oneOf.mpr fun c hc => ?_
      rw [(List.mem_replicate.mp hc).2]
      decide +kernel
  componentLength := longestArgs_lengths.2.le

theorem longestArgs_created :
    createApplicationManifest .ascii longestArgs = .ok (longestArgs.manifest .tk) := by
  have hids := checkIds_of_ok .ascii longestArgs_ids
  rw [createApplicationManifest, hids]
  decide +kernel

/-- A package id of 128 characters and a component id of 64. -/
theorem longest_ids_disagree :
    ¬∀ (u : UnicodeData) (args : Args) (m : Manifest) (f : CaseFold)
      (defaultAppId defaultRole defaultInstance : Str) (environ : Str → Option Str),
      createApplicationManifest u args = .ok m → args.graphical = true → Started args environ →
      CanEncode defaultAppId defaultRole environ →
      ∃ identity w, identityOf m = some identity ∧
        windowIdentity f defaultAppId defaultRole defaultInstance environ = some w ∧
        Agrees args identity w := by
  intro h
  have hencode : CanEncode (str "notes") (str "application") (supervise longestArgs) := by
    constructor <;> exact encodable_iff.mpr (by decide +kernel)
  obtain ⟨identity, w, -, hw, hagrees⟩ := h .ascii longestArgs _ asciiFold (str "notes")
    (str "application") (str "main") _ longestArgs_created rfl (started_supervise longestArgs) hencode
  obtain ⟨happ, hrole⟩ := hencode
  obtain ⟨appId, happ⟩ := exists_canonicalToken_iff.mpr happ
  obtain ⟨role, hrole⟩ := exists_canonicalToken_iff.mpr hrole
  rw [windowIdentity_eq longestArgs_ids asciiFold (started_supervise longestArgs) happ hrole] at hw
  cases hw
  have hlong := (List.take_eq_self_iff _).mp hagrees.componentId
  exact (fits_iff longestArgs_ids).mp hlong longestArgs_lengths

end Msys.UiIdentity
