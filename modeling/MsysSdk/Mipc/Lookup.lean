import MsysSdk.Mipc.Fields
import MsysSdk.Mipc.Values
import Mathlib.Data.List.Nodup

/-! The lookup of a top-level member. It walks the members in order and stops at the first
whose name, decoded on the fly, is the key; a name with a `\u` escape in it is never the key. -/

namespace Msys.Mipc
open Libc Json

theorem between_append (v rest : Bytes) : between (v ++ rest) rest = v := by
  simp [between]

theorem between_quoted (body : List (Piece UInt8)) (rest : Bytes) :
    (between (quoted dialect body ++ rest) rest).tail.dropLast = bodyText dialect body := by
  rw [between_append, quoted, List.tail_cons, List.dropLast_concat]

/-- `json_key_equals` on the name of a member. -/
def named (key : Bytes) (m : Member UInt8) : Bool := keyEquals (bodyText dialect m.name) key

/-- One round of the loop, on a member and what follows it. -/
theorem findMember_step {m : Member UInt8} (hs : m.Spaced dialect)
    (hn : ∀ p ∈ m.name, p.Valid dialect) (hv : Value dialect jsonMaxDepth 1 m.value) {c : UInt8}
    (hc : c = chr ',' ∨ c = chr '}') (fuel : Nat) (key rest : Bytes) :
    findMember (fuel + 1) key (skipSpace (m.text dialect ++ c :: rest)) =
      if named key m then
        .ok (m.value ++ (m.after ++ c :: rest), m.after ++ c :: rest)
      else if c = chr '}' then .error .notFound
      else findMember fuel key (skipSpace rest) := by
  obtain ⟨hbefore, hname, hvalue, hafter⟩ := hs
  have hquote : ∀ t, skipSpace (quoted dialect m.name ++ t) = quoted dialect m.name ++ t :=
    fun t => skipSpace_cons (by decide) _
  obtain ⟨b, t, hbt, hb, -⟩ := value_head hv
  have hstart : ∀ t, skipSpace (m.value ++ t) = m.value ++ t := fun u => by
    rw [hbt]
    exact skipSpace_cons hb _
  have hends : Ends dialect m.value (m.after ++ c :: rest) :=
    ends_of_delimiter hafter (hc.imp_right .inr)
  have hskip : skipJsonValue (m.value ++ (m.after ++ c :: rest)) 1 = some (m.after ++ c :: rest) :=
    skipValue_complete hv _ _ (by simp; omega) hends
  have hcs : isspace c = false := by rcases hc with rfl | rfl <;> decide
  have hnext : skipSpace (m.after ++ c :: rest) = c :: rest := by
    rw [skipSpace_append hafter, skipSpace_cons hcs]
  have hkey : jsonKeyEquals (quoted dialect m.name ++ (m.afterName ++ chr ':' ::
      (m.beforeValue ++ (m.value ++ (m.after ++ c :: rest)))))
      (m.afterName ++ chr ':' :: (m.beforeValue ++ (m.value ++ (m.after ++ c :: rest)))) key =
      named key m := by
    rw [jsonKeyEquals, between_quoted, named]
  simp only [Member.text, List.append_assoc, List.cons_append, skipSpace_append hbefore, hquote]
  rw [findMember, skipJsonString_complete hn]
  simp only [skipSpace_append hname]
  rw [dialect_ch, skipSpace_cons (by decide)]
  simp only [ne_eq, not_true_eq_false, if_false, skipSpace_append hvalue, hstart, hskip, hnext,
    hkey]
  rcases hc with rfl | rfl <;> simp

theorem findMember_members {members : List (Member UInt8)} (hne : members ≠ [])
    (hs : ∀ m ∈ members, m.Spaced dialect) (hn : ∀ m ∈ members, ∀ p ∈ m.name, p.Valid dialect)
    (hv : ∀ m ∈ members, Value dialect jsonMaxDepth 1 m.value) (key rest : Bytes) {fuel : Nat}
    (hf : members.length ≤ fuel) :
    match members.find? (named key) with
    | some m => ∃ tail, findMember fuel key (skipSpace (commaJoin dialect
        (members.map (Member.text dialect)) ++ chr '}' :: rest)) = .ok (m.value ++ tail, tail)
    | none => findMember fuel key (skipSpace (commaJoin dialect
        (members.map (Member.text dialect)) ++ chr '}' :: rest)) = .error .notFound := by
  induction members generalizing fuel with
  | nil => exact absurd rfl hne
  | cons m members ih =>
    obtain ⟨fuel, rfl⟩ := Nat.exists_eq_succ_of_ne_zero (show fuel ≠ 0 by simp at hf; omega)
    have step : ∀ c more, c = chr ',' ∨ c = chr '}' → _ := fun c more hc =>
      findMember_step (hs m List.mem_cons_self) (hn m List.mem_cons_self)
        (hv m List.mem_cons_self) (c := c) hc fuel key more
    by_cases hk : named key m = true
    · simp only [hk, if_true] at step
      rw [List.find?_cons_of_pos hk]
      cases members with
      | nil => exact ⟨_, step (chr '}') rest (.inr rfl)⟩
      | cons k members =>
        refine ⟨m.after ++ chr ',' :: (commaJoin dialect
          ((k :: members).map (Member.text dialect)) ++ chr '}' :: rest), ?_⟩
        simp only [List.map_cons, commaJoin, List.append_assoc, List.cons_append, dialect_ch]
        exact step (chr ',') _ (.inl rfl)
    · simp only [hk] at step
      rw [List.find?_cons_of_neg hk]
      cases members with
      | nil => exact step (chr '}') rest (.inr rfl)
      | cons k members =>
        have hrest := ih (by simp) (fun j hj => hs j (List.mem_cons_of_mem _ hj))
          (fun j hj => hn j (List.mem_cons_of_mem _ hj))
          (fun j hj => hv j (List.mem_cons_of_mem _ hj)) (by simpa using hf)
        have hcomma : chr ',' ≠ chr '}' := by decide
        simp only [List.map_cons, commaJoin, List.append_assoc, List.cons_append, dialect_ch]
          at hrest ⊢
        rw [step (chr ',') _ (.inl rfl), if_neg hcomma]
        exact hrest

theorem length_le_commaJoin (texts : List Bytes) (h : ∀ t ∈ texts, t ≠ []) :
    texts.length ≤ (commaJoin dialect texts).length := by
  match texts with
  | [] => simp
  | [t] =>
    have := List.length_pos_of_ne_nil (h t (by simp))
    simp only [commaJoin, List.length_singleton]
    omega
  | t :: u :: more =>
    have ih := length_le_commaJoin (u :: more) fun s hs => h s (List.mem_cons_of_mem _ hs)
    simp only [commaJoin, List.length_append, List.length_cons] at ih ⊢
    omega

theorem member_text_ne_nil (m : Member UInt8) : m.text dialect ≠ [] := by
  simp [Member.text, quoted]

/-- On a well-formed object the lookup finds the first member that the key comparison accepts. -/
theorem findTopLevelValue_object {members : List (Member UInt8)} {json key : Bytes}
    (h : Object dialect jsonMaxDepth members json) (hkey : key ≠ []) :
    match members.find? (named key) with
    | some m => ∃ tail, findTopLevelValue json key = .ok (m.value ++ tail, tail)
    | none => findTopLevelValue json key = .error .notFound := by
  cases h with
  | empty ws₁ ws₂ ws₃ h₁ h₂ h₃ =>
    rw [List.find?_nil, findTopLevelValue, if_neg hkey, skipSpace_append h₁, dialect_ch,
      skipSpace_cons (by decide)]
    simp only [ne_eq, not_true_eq_false, if_false, skipSpace_append h₂]
    rw [dialect_ch, skipSpace_cons (by decide)]
    simp
  | members ws₁ ws₃ _ hne h₁ h₃ hs hn hv =>
    obtain ⟨b, s, hb, -, hb1⟩ := commaJoin_head (members.map (Member.text dialect)) (by
      intro t ht
      obtain ⟨m, hm, rfl⟩ := List.mem_map.mp ht
      exact ⟨m.before, chr '"', _, rfl, (hs m hm).1, by decide⟩)
      (by simpa using hne) (chr '}' :: ws₃)
    have hlen := length_le_commaJoin (members.map (Member.text dialect)) (by
      intro t ht
      obtain ⟨m, -, rfl⟩ := List.mem_map.mp ht
      exact member_text_ne_nil m)
    rw [List.length_map] at hlen
    have hfuel : members.length ≤ (ws₁ ++ dialect.ch '{' :: (commaJoin dialect
        (members.map (Member.text dialect)) ++ dialect.ch '}' :: ws₃)).length + 1 := by
      simp only [List.length_append, List.length_cons]
      omega
    have hfind := findMember_members hne hs hn hv key ws₃ hfuel
    rw [hb] at hfind
    rw [findTopLevelValue, if_neg hkey, skipSpace_append h₁, dialect_ch, skipSpace_cons (by decide)]
    simp only [ne_eq, not_true_eq_false, if_false, dialect_ch, hb, hb1] at hfind ⊢
    exact hfind

theorem jsonGetRaw_object {members : List (Member UInt8)} {json key : Bytes}
    (h : Object dialect jsonMaxDepth members json) (hkey : key ≠ []) :
    jsonGetRaw json key =
      match members.find? (named key) with
      | some m => .ok m.value
      | none => .error .notFound := by
  have hfind := findTopLevelValue_object h hkey
  split at hfind
  next m hm =>
    obtain ⟨tail, htail⟩ := hfind
    simp [jsonGetRaw, htail, Except.map, between_append]
  next hm => simp [jsonGetRaw, hfind, Except.map]

end Msys.Mipc
