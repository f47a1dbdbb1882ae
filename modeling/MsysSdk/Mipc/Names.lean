import MsysSdk.Mipc.Lookup

/-! Lookup by the decoded name. The key comparison decodes the one-letter escapes but refuses a
`\u` escape, which the scanner and the string accessor both take, so a member spelled with one
is not found under its name. -/

namespace Msys.Mipc
open Libc Json

theorem shortEscape_chr {c : Char} (h : c ∈ shortEscapes) :
    shortEscape (chr c) = some (shortEscapeValue c) := by
  simp only [shortEscapes, List.mem_cons, List.not_mem_nil, or_false] at h
  rcases h with rfl | rfl | rfl | rfl | rfl | rfl | rfl | rfl <;> decide

theorem shortEscape_u : shortEscape (chr 'u') = none := by decide

theorem ne_backslash {b : UInt8} (h : (Piece.plain b).Valid dialect) : b ≠ chr '\\' := by
  have h : dialect.plain b = true := h
  simp only [dialect, Bool.and_eq_true, decide_eq_true_eq, decide_not, Bool.not_eq_true',
    decide_eq_false_iff_not] at h
  exact h.2

theorem keyEquals_plain {b : UInt8} (h : b ≠ chr '\\') (body : Bytes) (k : UInt8) (key : Bytes) :
    keyEquals (b :: body) (k :: key) = (decide (b = k) && keyEquals body key) := by
  rw [keyEquals.eq_def]
  simp [h]

theorem keyEquals_plain_nil {b : UInt8} (h : b ≠ chr '\\') (body : Bytes) :
    keyEquals (b :: body) [] = false := by
  rw [keyEquals.eq_def]
  simp [h]

theorem keyEquals_escape {e b : UInt8} (h : shortEscape e = some b) (body : Bytes) (k : UInt8)
    (key : Bytes) :
    keyEquals (chr '\\' :: e :: body) (k :: key) = (decide (b = k) && keyEquals body key) := by
  rw [keyEquals.eq_def]
  simp [h]

theorem keyEquals_escape_nil (e : UInt8) (body : Bytes) :
    keyEquals (chr '\\' :: e :: body) [] = false := by
  rw [keyEquals.eq_def]
  simp

theorem keyEquals_unicode (body key : Bytes) :
    keyEquals (chr '\\' :: chr 'u' :: body) key = false := by
  rw [keyEquals.eq_def]
  simp [shortEscape_u]

/-- The comparison accepts a name exactly if it denotes the key and has no `\u` escape. -/
theorem keyEquals_iff {body : List (Piece UInt8)} (h : ∀ p ∈ body, p.Valid dialect)
    (key : Bytes) :
    keyEquals (bodyText dialect body) key = true ↔
      (∀ p ∈ body, p.isUnicode = false) ∧ decode body = key.map .byte := by
  induction body generalizing key with
  | nil => cases key <;> simp [keyEquals, bodyText, decode]
  | cons p body ih =>
    have ih := ih fun q hq => h q (List.mem_cons_of_mem _ hq)
    have hp := h p List.mem_cons_self
    have htext : bodyText dialect (p :: body) = p.text dialect ++ bodyText dialect body := rfl
    cases p with
    | plain b =>
      rw [htext, Piece.text, List.singleton_append, decode]
      cases key with
      | nil => simp [keyEquals_plain_nil (ne_backslash hp)]
      | cons k key =>
        simp [keyEquals_plain (ne_backslash hp), ih key, Piece.isUnicode]
        tauto
    | escape c =>
      rw [htext, Piece.text, decode]
      cases key with
      | nil => simp [keyEquals_escape_nil]
      | cons k key =>
        simp [keyEquals_escape (shortEscape_chr hp), ih key, Piece.isUnicode]
        tauto
    | unicode h₁ h₂ h₃ h₄ =>
      rw [htext, Piece.text]
      simp [keyEquals_unicode, Piece.isUnicode]

/-- The member denotes the field of this name. -/
def denotes (key : Bytes) (m : Member UInt8) : Prop := decode m.name = key.map .byte

/-- Some character of the member's name is spelled as a `\u` escape. -/
def spelledInHex (m : Member UInt8) : Bool := m.name.any Piece.isUnicode

theorem named_iff {m : Member UInt8} (h : ∀ p ∈ m.name, p.Valid dialect) (key : Bytes) :
    named key m = true ↔ spelledInHex m = false ∧ denotes key m := by
  rw [named, keyEquals_iff h, spelledInHex, List.any_eq_false, denotes]
  simp

theorem bodyText_plain (s : Bytes) : bodyText dialect (s.map .plain) = s := by
  rw [bodyText, List.flatMap_map]
  exact List.flatMap_singleton' s

theorem decode_plain (s : Bytes) : decode (s.map .plain) = s.map .byte := by
  induction s with
  | nil => rfl
  | cons b s ih => rw [List.map_cons, decode, ih, List.map_cons]

/-- A name without escapes is the key exactly if it is spelled like it. -/
theorem named_plain {m : Member UInt8} {s : Bytes} (hname : m.name = s.map .plain)
    (h : ∀ p ∈ m.name, p.Valid dialect) (key : Bytes) : named key m = true ↔ s = key := by
  have hplain : spelledInHex m = false := by
    rw [spelledInHex, hname, List.any_map]
    simp [Function.comp_def, Piece.isUnicode]
  have hinj : Function.Injective Decoded.byte := fun _ _ h => Decoded.byte.inj h
  rw [named_iff h, hplain, denotes, hname, decode_plain, hinj.list_map.eq_iff]
  simp

/-- What `msys_mipc_json_get_raw` is for: the value of the member of this name, if any. -/
def FindsByName (members : List (Member UInt8)) (json key : Bytes) : Prop :=
  (∀ m ∈ members, denotes key m → jsonGetRaw json key = .ok m.value) ∧
  ((∀ m ∈ members, ¬denotes key m) → jsonGetRaw json key = .error .notFound)

theorem names_valid {limit : Nat} {members : List (Member UInt8)} {json : Bytes}
    (h : Object dialect limit members json) :
    ∀ m ∈ members, ∀ p ∈ m.name, p.Valid dialect := by
  cases h with
  | empty => simp
  | members _ _ _ _ _ _ _ hn _ => exact hn

/-- Two members of one name are one member. -/
theorem eq_of_denotes {members : List (Member UInt8)}
    (hd : (members.map fun m => decode m.name).Nodup) {key : Bytes} {m k : Member UInt8}
    (hm : m ∈ members) (hk : k ∈ members) (hmk : denotes key m) (hkk : denotes key k) : m = k :=
  List.inj_on_of_nodup_map hd hm hk (hmk.trans hkk.symm)

theorem jsonGetRaw_by_name {members : List (Member UInt8)} {json key : Bytes}
    (h : Object dialect jsonMaxDepth members json)
    (hd : (members.map fun m => decode m.name).Nodup) (hkey : key ≠ []) :
    FindsByName members json key ↔ ∀ m ∈ members, denotes key m → spelledInHex m = false := by
  have hraw := jsonGetRaw_object h hkey
  have hn := names_valid h
  constructor
  · intro hfinds m hm hmk
    by_contra hhex
    have hnone : members.find? (named key) = none := by
      refine List.find?_eq_none.mpr fun k hk hnamed => hhex ?_
      obtain ⟨hplain, hkk⟩ := (named_iff (hn k hk) key).mp hnamed
      rwa [eq_of_denotes hd hm hk hmk hkk]
    rw [hnone] at hraw
    have hok := hfinds.1 m hm hmk
    rw [hraw] at hok
    cases hok
  · intro hplain
    refine ⟨fun m hm hmk => ?_, fun hnone => ?_⟩
    · have hnamed := (named_iff (hn m hm) key).mpr ⟨hplain m hm hmk, hmk⟩
      have hsome := List.find?_isSome.mpr ⟨m, hm, hnamed⟩
      obtain ⟨k, hfind⟩ := Option.isSome_iff_exists.mp hsome
      have hkk := ((named_iff (hn k (List.mem_of_find?_eq_some hfind)) key).mp
        (List.find?_some hfind)).2
      rw [hraw, hfind, eq_of_denotes hd hm (List.mem_of_find?_eq_some hfind) hmk hkk]
    · have hfind : members.find? (named key) = none :=
        List.find?_eq_none.mpr fun m hm hnamed =>
          hnone m hm ((named_iff (hn m hm) key).mp hnamed).2
      rw [hraw, hfind]

/-! ### One record in two spellings -/

/-- The member `"type":1`, with its first letter spelled in the given way. -/
def typeMember (first : Piece UInt8) : Member UInt8 where
  before := []
  name := [first, .plain (chr 'y'), .plain (chr 'p'), .plain (chr 'e')]
  afterName := []
  beforeValue := []
  value := text "1"
  after := []

theorem one_value : Value dialect jsonMaxDepth 1 (text "1") :=
  .number ⟨false, ⟨['1'], by decide, List.forall_mem_singleton.mpr rfl⟩, by decide, none, none⟩ (by decide)

theorem typeMember_object {first : Piece UInt8} (h : first.Valid dialect) :
    Object dialect jsonMaxDepth [typeMember first]
      ([] ++ chr '{' :: ((typeMember first).text dialect ++ chr '}' :: [])) := by
  refine .members [] [] [typeMember first] (by simp) (by simp [Spaces]) (by simp [Spaces])
    ?_ ?_ ?_
  · simp [Member.Spaced, Spaces, typeMember]
  · have hrest : dialect.plain (chr 'y') = true ∧ dialect.plain (chr 'p') = true ∧
        dialect.plain (chr 'e') = true := by decide
    simpa [typeMember, Piece.Valid, hrest] using h
  · simpa [typeMember] using one_value

theorem t_valid : (Piece.plain (chr 't')).Valid dialect :=
  show dialect.plain (chr 't') = true by decide

theorem hex_t_valid : (Piece.unicode '0' '0' '7' '4' : Piece UInt8).Valid dialect :=
  ⟨by decide, by decide, by decide, by decide⟩

/-- The record `{"type":1}` has the field. -/
theorem jsonGetRaw_by_name_plain :
    FindsByName [typeMember (.plain (chr 't'))] (text "\x7b\"type\":1\x7d") (text "type") :=
  (jsonGetRaw_by_name (typeMember_object t_valid) (by simp) (by decide)).mpr (by
      intro m hm _
      rw [List.mem_singleton.mp hm]
      rfl)

/-- The record `{"\u0074ype":1}` denotes the same object, and the field is not found. -/
theorem hex_name_missed :
    Object dialect jsonMaxDepth [typeMember (.unicode '0' '0' '7' '4')]
      (text "\x7b\"\\u0074ype\":1\x7d") ∧
    ([typeMember (.unicode '0' '0' '7' '4')].map fun m => decode m.name).Nodup ∧
    denotes (text "type") (typeMember (.unicode '0' '0' '7' '4')) ∧
    ¬FindsByName [typeMember (.unicode '0' '0' '7' '4')] (text "\x7b\"\\u0074ype\":1\x7d")
      (text "type") := by
  refine ⟨typeMember_object hex_t_valid, by simp, by unfold denotes; decide +kernel,
    fun h => ?_⟩
  have hraw := h.1 (typeMember (.unicode '0' '0' '7' '4')) (by simp)
    (by unfold denotes; decide +kernel)
  have hmiss : jsonGetRaw (text "\x7b\"\\u0074ype\":1\x7d") (text "type") =
      .error .notFound := by decide +kernel
  rw [hmiss] at hraw
  cases hraw

end Msys.Mipc
