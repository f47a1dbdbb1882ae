import MsysSdk.Mipc.Lookup

/-! The lookup of a top-level value, told by the text alone: it finds exactly the value of the
first member of the name, in every text that is an object as far as the comma or the brace behind
that member. What follows is not looked at. -/

namespace Msys.Mipc
open Libc Json

/-- A NUL-terminated text in memory: its length is a `size_t`. -/
structure CString where
  bytes : Bytes
  terminated : 0 ∉ bytes
  sized : bytes.length ≤ sizeMax

/-- A member that the scanner steps over. -/
structure Scanned (m : Member UInt8) : Prop where
  spaced : m.Spaced dialect
  name : ∀ p ∈ m.name, p.Valid dialect
  value : Value dialect jsonMaxDepth 1 m.value

/-- `MemberAt key members value tail`: in the text of some members, `value` stands for the first
one of the name, and `tail` is what follows it. -/
inductive MemberAt (key : Bytes) : Bytes → Bytes → Bytes → Prop
  | here {m : Member UInt8} {c : UInt8} (rest : Bytes) (hm : Scanned m)
    (hc : c = chr ',' ∨ c = chr '}') (hk : named key m = true) :
    MemberAt key (m.text dialect ++ c :: rest) m.value (m.after ++ c :: rest)
  | later {m : Member UInt8} {rest value tail : Bytes} (hm : Scanned m)
    (hk : named key m = false) (h : MemberAt key rest value tail) :
    MemberAt key (m.text dialect ++ chr ',' :: rest) value tail

/-- The value of the key in a record, and what follows it. -/
def FieldAt (json key value tail : Bytes) : Prop :=
  key ≠ [] ∧ ∃ ws members, Spaces dialect ws ∧ json = ws ++ chr '{' :: members ∧
    MemberAt key members value tail

/-! ### One member -/

theorem member_text_space {ws : Bytes} (m : Member UInt8) :
    ({ m with before := ws ++ m.before } : Member UInt8).text dialect = ws ++ m.text dialect := by
  simp [Member.text]

theorem Scanned.space {m : Member UInt8} (h : Scanned m) {ws : Bytes} (hws : Spaces dialect ws) :
    Scanned { m with before := ws ++ m.before } := by
  obtain ⟨⟨hbefore, hrest⟩, hname, hvalue⟩ := h
  refine ⟨⟨fun b hb => ?_, hrest⟩, hname, hvalue⟩
  rcases List.mem_append.mp hb with hb | hb
  · exact hws b hb
  · exact hbefore b hb

theorem MemberAt.space {key s value tail : Bytes} (h : MemberAt key s value tail) {ws : Bytes}
    (hws : Spaces dialect ws) : MemberAt key (ws ++ s) value tail := by
  cases h with
  | here rest hm hc hk =>
    have hmore : MemberAt key _ _ _ := .here rest (hm.space hws) hc hk
    rwa [member_text_space, List.append_assoc] at hmore
  | later hm hk h =>
    have hmore := MemberAt.later (hm.space hws) hk h
    rwa [member_text_space, List.append_assoc] at hmore

/-- The scanner is at a value: no white space stands before it. -/
theorem found_skipSpace {s rest : Bytes} {d : Nat}
    (h : skipJsonValue (skipSpace s) d = some rest) :
    ∃ v, skipSpace s = v ++ rest ∧ Value dialect jsonMaxDepth d v := by
  obtain ⟨v, hs, hv, -⟩ := (skipJsonValue_accepts _ _ _).mp h
  exact ⟨v, by rw [← skipSpace_skipSpace]; exact hs, hv⟩

/-- What one round of the loop has read if it does not fail. -/
theorem findMember_reads {fuel : Nat} {key s : Bytes} {r : Bytes × Bytes}
    (h : findMember (fuel + 1) key (skipSpace s) = .ok r) :
    ∃ (m : Member UInt8) (c : UInt8) (rest : Bytes), Scanned m ∧ (c = chr ',' ∨ c = chr '}') ∧
      s = m.text dialect ++ c :: rest := by
  obtain ⟨before, hbefore, hs⟩ := skipSpace_split s
  rw [findMember] at h
  cases hname : skipJsonString (skipSpace s) with
  | none => simp [hname] at h
  | some keyEnd =>
    obtain ⟨name, hvalid, hquoted⟩ := skipJsonString_sound hname
    obtain ⟨afterName, hafterName, hkeyEnd⟩ := skipSpace_split keyEnd
    cases hcolon : skipSpace keyEnd with
    | nil => simp [hname, hcolon] at h
    | cons colon afterColon =>
      by_cases hc : colon = chr ':'
      swap
      · simp [hname, hcolon, hc] at h
      obtain ⟨beforeValue, hbeforeValue, hafterColon⟩ := skipSpace_split afterColon
      cases hvalue : skipJsonValue (skipSpace afterColon) 1 with
      | none => simp [hname, hcolon, hc, hvalue] at h
      | some finish =>
        obtain ⟨value, hcursor, hv⟩ := found_skipSpace hvalue
        obtain ⟨after, hafter, hfinish⟩ := skipSpace_split finish
        cases hdelimiter : skipSpace finish with
        | nil => simp [hname, hcolon, hc, hvalue, hdelimiter] at h
        | cons c rest =>
          by_cases hd : c = chr ',' ∨ c = chr '}'
          swap
          · simp [hname, hcolon, hc, hvalue, hdelimiter, not_or.mp hd] at h
          refine ⟨⟨before, name, afterName, beforeValue, value, after⟩, c, rest,
            ⟨⟨hbefore, hafterName, hbeforeValue, hafter⟩, hvalid, hv⟩, hd, ?_⟩
          rw [hs, hquoted, hkeyEnd, hcolon, hc, hafterColon, hcursor, hfinish, hdelimiter]
          simp [Member.text]

/-! ### The lookup -/

theorem findMember_sound {fuel : Nat} {key s cursor finish : Bytes}
    (h : findMember fuel key (skipSpace s) = .ok (cursor, finish)) :
    ∃ value, cursor = value ++ finish ∧ MemberAt key s value finish := by
  induction fuel generalizing s with
  | zero => cases h
  | succ fuel ih =>
    obtain ⟨m, c, rest, hm, hc, rfl⟩ := findMember_reads h
    rw [findMember_step hm.spaced hm.name hm.value hc] at h
    by_cases hk : named key m = true
    · rw [if_pos hk] at h
      cases h
      exact ⟨m.value, rfl, .here rest hm hc hk⟩
    · rw [if_neg hk] at h
      by_cases hclose : c = chr '}'
      · rw [if_pos hclose] at h
        cases h
      · rw [if_neg hclose] at h
        obtain ⟨value, hcursor, hrest⟩ := ih h
        obtain rfl := hc.resolve_right hclose
        exact ⟨value, hcursor, .later hm (Bool.not_eq_true _ ▸ hk) hrest⟩

theorem findMember_complete {key s value tail : Bytes} (h : MemberAt key s value tail) {fuel : Nat}
    (hf : s.length ≤ fuel) :
    findMember fuel key (skipSpace s) = .ok (value ++ tail, tail) := by
  induction h generalizing fuel with
  | @here m c rest hm hc hk =>
    obtain ⟨fuel, rfl⟩ := Nat.exists_eq_succ_of_ne_zero (show fuel ≠ 0 by simp at hf; omega)
    rw [findMember_step hm.spaced hm.name hm.value hc, if_pos hk]
  | @later m rest value tail hm hk _ ih =>
    obtain ⟨fuel, rfl⟩ := Nat.exists_eq_succ_of_ne_zero (show fuel ≠ 0 by simp at hf; omega)
    have hcomma : chr ',' ≠ chr '}' := by decide
    rw [findMember_step hm.spaced hm.name hm.value (.inl rfl), if_neg (by simp [hk]),
      if_neg hcomma]
    refine ih ?_
    simp only [List.length_append, List.length_cons] at hf
    omega

/-- A member begins with a quote. -/
theorem MemberAt.head {key s value tail : Bytes} (h : MemberAt key s value tail) :
    ∃ t, skipSpace s = chr '"' :: t := by
  have member : ∀ {m : Member UInt8}, Scanned m → ∀ more, ∃ t,
      skipSpace (m.text dialect ++ more) = chr '"' :: t := by
    intro m hm more
    rw [Member.text, List.append_assoc, skipSpace_append hm.spaced.1]
    exact ⟨_, skipSpace_cons (by decide) _⟩
  cases h with
  | here rest hm hc hk => exact member hm _
  | later hm hk h => exact member hm _

theorem findTopLevelValue_sound {json key cursor finish : Bytes}
    (h : findTopLevelValue json key = .ok (cursor, finish)) :
    ∃ value, cursor = value ++ finish ∧ FieldAt json key value finish := by
  obtain ⟨ws, hws, hjson⟩ := skipSpace_split json
  rw [findTopLevelValue] at h
  by_cases hkey : key = []
  · simp [hkey] at h
  cases hopen : skipSpace json with
  | nil => simp [hkey, hopen] at h
  | cons c rest =>
    by_cases hc : c = chr '{'
    swap
    · simp [hkey, hopen, hc] at h
    cases hfirst : skipSpace rest with
    | nil => simp [hkey, hopen, hc, hfirst] at h
    | cons d rest' =>
      by_cases hd : d = chr '}'
      · simp [hkey, hopen, hc, hfirst, hd] at h
      simp only [hkey, hopen, hc, hfirst, hd, if_false, ne_eq, not_true_eq_false] at h
      rw [← hfirst] at h
      obtain ⟨value, hcursor, hmember⟩ := findMember_sound h
      rw [hopen, hc] at hjson
      exact ⟨value, hcursor, hkey, ws, rest, hws, hjson, hmember⟩

/-- The lookup succeeds exactly on the value that the text gives the key. -/
theorem findTopLevelValue_iff {json key value tail : Bytes} :
    findTopLevelValue json key = .ok (value ++ tail, tail) ↔ FieldAt json key value tail := by
  constructor
  · intro h
    obtain ⟨value', hvalue, hfield⟩ := findTopLevelValue_sound h
    rwa [List.append_cancel_right hvalue]
  · rintro ⟨hkey, ws, members, hws, rfl, hmember⟩
    obtain ⟨t, ht⟩ := hmember.head
    have hquote : chr '"' ≠ chr '}' := by decide
    have hfuel : members.length ≤ (ws ++ chr '{' :: members).length + 1 := by
      simp only [List.length_append, List.length_cons]
      omega
    have hfind := findMember_complete hmember hfuel
    rw [ht] at hfind
    rw [findTopLevelValue, if_neg hkey, skipSpace_append hws, skipSpace_cons (by decide)]
    simp only [ne_eq, not_true_eq_false, if_false, ht, hquote]
    exact hfind

theorem findMember_error {fuel : Nat} {key s : Bytes} {e : Result}
    (h : findMember fuel key s = .error e) : e = .invalidJson ∨ e = .notFound := by
  induction fuel generalizing s with
  | zero =>
    cases h
    exact .inl rfl
  | succ fuel ih =>
    rw [findMember] at h
    split at h
    · exact .inl (Except.error.inj h).symm
    split at h
    · exact .inl (Except.error.inj h).symm
    split at h
    · exact .inl (Except.error.inj h).symm
    dsimp only at h
    split at h
    · exact .inl (Except.error.inj h).symm
    split at h
    · exact .inl (Except.error.inj h).symm
    split at h
    · exact .inl (Except.error.inj h).symm
    split at h
    · cases h
    split at h
    · exact .inr (Except.error.inj h).symm
    · exact ih h

/-- The results of a lookup that fails. -/
theorem findTopLevelValue_error {json key : Bytes} {e : Result}
    (h : findTopLevelValue json key = .error e) :
    e = .invalidArgument ∨ e = .invalidJson ∨ e = .notFound := by
  rw [findTopLevelValue] at h
  split_ifs at h
  · exact .inl (Except.error.inj h).symm
  refine .inr ?_
  split at h
  · exact .inl (Except.error.inj h).symm
  split_ifs at h
  · exact .inl (Except.error.inj h).symm
  split at h
  · exact .inl (Except.error.inj h).symm
  split_ifs at h
  · exact .inr (Except.error.inj h).symm
  · exact findMember_error h

/-- The value lies in the record. -/
theorem MemberAt.length_le {key s value tail : Bytes} (h : MemberAt key s value tail) :
    value.length + tail.length ≤ s.length := by
  induction h with
  | here rest hm hc hk =>
    simp only [Member.text, List.length_append, List.length_cons]
    omega
  | later hm hk _ ih =>
    simp only [List.length_append, List.length_cons]
    omega

theorem FieldAt.length_le {json key value tail : Bytes} (h : FieldAt json key value tail) :
    value.length ≤ json.length := by
  obtain ⟨-, ws, members, -, rfl, hmember⟩ := h
  have := hmember.length_le
  simp only [List.length_append, List.length_cons]
  omega

theorem MemberAt.value {key s value tail : Bytes} (h : MemberAt key s value tail) :
    Value dialect jsonMaxDepth 1 value := by
  induction h with
  | here rest hm hc hk => exact hm.value
  | later hm hk _ ih => exact ih

theorem FieldAt.value {json key value tail : Bytes} (h : FieldAt json key value tail) :
    Value dialect jsonMaxDepth 1 value := by
  obtain ⟨-, ws, members, -, -, hmember⟩ := h
  exact hmember.value

end Msys.Mipc
