import MsysSdk.Mipc.Decoding
import MsysSdk.Mipc.Transfer
import MsysSdk.Client.Model

/-! One record read by the two SDKs. The C accessor stops at the first member of the name and at
the first constant that JSON does not know; the dict of the Python client keeps the last member. -/

namespace Msys.Mipc
open Libc Json
open Python (CodePoint Str utf8 utf8_ch utf8_cons_ch utf8_map_ch utf8_str nameOf lastNamed)

/-- No value before the first member of the name has one of the constants in it. -/
def Clean (members : List (Json.Member CodePoint)) (k : Str) : Prop :=
  ∀ m ∈ members.takeWhile fun m => nameOf m ≠ k, Value Python.strictDialect jsonMaxDepth 1 m.value

def firstNamed (members : List (Json.Member CodePoint)) (k : Str) :
    Option (Json.Member CodePoint) := members.find? fun m => nameOf m = k

/-- The lookup comes to this member. -/
def Reached (members : List (Json.Member CodePoint)) (k : Str) (m : Json.Member CodePoint) :
    Prop :=
  firstNamed members k = some m ∧ Clean members k ∧
    Value Python.strictDialect jsonMaxDepth 1 m.value

theorem reached_nil (k : Str) (x : Json.Member CodePoint) : ¬Reached [] k x := by
  rintro ⟨hfirst, -⟩
  cases hfirst

theorem reached_cons_named {m : Json.Member CodePoint} {k : Str} (hk : nameOf m = k)
    (members : List (Json.Member CodePoint)) (x : Json.Member CodePoint) :
    Reached (m :: members) k x ↔ m = x ∧ Value Python.strictDialect jsonMaxDepth 1 m.value := by
  have hfirst : firstNamed (m :: members) k = some m := List.find?_cons_of_pos (by simpa using hk)
  have hclean : Clean (m :: members) k := by simp [Clean, hk]
  rw [Reached, hfirst, Option.some.injEq]
  constructor
  · rintro ⟨rfl, -, hv⟩
    exact ⟨rfl, hv⟩
  · rintro ⟨rfl, hv⟩
    exact ⟨rfl, hclean, hv⟩

theorem reached_cons_other {m : Json.Member CodePoint} {k : Str} (hk : nameOf m ≠ k)
    (members : List (Json.Member CodePoint)) (x : Json.Member CodePoint) :
    Reached (m :: members) k x ↔
      Value Python.strictDialect jsonMaxDepth 1 m.value ∧ Reached members k x := by
  have hfirst : firstNamed (m :: members) k = firstNamed members k :=
    List.find?_cons_of_neg (by simpa using hk)
  have hclean : Clean (m :: members) k ↔
      Value Python.strictDialect jsonMaxDepth 1 m.value ∧ Clean members k := by
    simp [Clean, hk]
  rw [Reached, hfirst, hclean, Reached]
  tauto

/-! ### The lookup in the bytes -/

/-- A member as the lookup needs it. -/
structure Regular (m : Json.Member CodePoint) : Prop where
  spaced : m.Spaced Python.dialect
  name : ∀ p ∈ m.name, p.Valid Python.dialect
  value : Value Python.dialect jsonMaxDepth 1 m.value
  backslash : Python.ch '\\' ∉ m.text Python.dialect
  encodable : Python.Encodable (nameOf m)

theorem Regular.valid {m : Json.Member CodePoint} (h : Regular m) :
    ∀ p ∈ (Member.utf8 m).name, p.Valid dialect := valid_name h.name h.backslash

theorem Regular.reads_or_blocks {m : Json.Member CodePoint} (h : Regular m) :
    Reads 1 m.value ∨ Blocks 1 m.value :=
  Mipc.reads_or_blocks h.value fun hc => h.backslash (mem_member_value hc)

theorem Regular.reads_iff {m : Json.Member CodePoint} (h : Regular m) :
    Reads 1 m.value ↔ Value Python.strictDialect jsonMaxDepth 1 m.value :=
  Mipc.reads_iff fun hc => h.backslash (mem_member_value hc)

theorem Regular.named_iff {m : Json.Member CodePoint} (h : Regular m) {k : Str}
    (hk : Python.Encodable k) : named (utf8 k) (Member.utf8 m) = true ↔ nameOf m = k := by
  rw [named_plain rfl h.valid]
  exact Python.utf8_inj h.encodable hk

/-- The loop ends with an error at a member in whose value the scanner stops. -/
theorem findMember_blocked {m : Json.Member CodePoint} (h : Regular m) (hblock : Blocks 1 m.value)
    (fuel : Nat) (key rest : Bytes) :
    findMember (fuel + 1) key (skipSpace ((Member.utf8 m).text dialect ++ rest)) =
      .error .invalidJson := by
  obtain ⟨hbefore, hname, hvalue, hafter⟩ := spaced_member h.spaced
  have hquote : ∀ t, skipSpace (quoted dialect (Member.utf8 m).name ++ t) =
      quoted dialect (Member.utf8 m).name ++ t := fun t => skipSpace_cons (by decide) _
  obtain ⟨b, t, hbt, hb, -⟩ := utf8_value_head h.value
  have hself : (Member.utf8 m).value = utf8 m.value := rfl
  have hstart : ∀ u, skipSpace (utf8 m.value ++ u) = utf8 m.value ++ u := fun u => by
    rw [hbt]
    exact skipSpace_cons hb _
  have hnone : ∀ u, skipJsonValue (utf8 m.value ++ u) 1 = none := fun u =>
    hblock _ u (by simp; omega)
  simp only [Json.Member.text, List.append_assoc, List.cons_append, skipSpace_append hbefore,
    hquote]
  rw [findMember, skipJsonString_complete h.valid]
  simp only [skipSpace_append hname]
  rw [dialect_ch, skipSpace_cons (by decide)]
  simp only [ne_eq, not_true_eq_false, if_false, skipSpace_append hvalue, hself, hstart, hnone]

/-- How the lookup ends: at the member it comes to, or with an error if there is none. -/
def LookupEnds (members : List (Json.Member CodePoint)) (k : Str)
    (result : Except Result (Bytes × Bytes)) : Prop :=
  (∃ m tail, Reached members k m ∧ result = .ok (utf8 m.value ++ tail, tail)) ∨
  ((∀ m, ¬Reached members k m) ∧ ∃ e, e ≠ .ok ∧ result = .error e)

theorem findMember_ends {members : List (Json.Member CodePoint)} (hne : members ≠ [])
    (h : ∀ m ∈ members, Regular m) {k : Str} (hk : Python.Encodable k) (rest : Bytes) {fuel : Nat}
    (hf : members.length ≤ fuel) :
    LookupEnds members k (findMember fuel (utf8 k)
      (skipSpace (membersText members ++ chr '}' :: rest))) := by
  induction members generalizing fuel with
  | nil => exact absurd rfl hne
  | cons m members ih =>
    obtain ⟨fuel, rfl⟩ := Nat.exists_eq_succ_of_ne_zero (show fuel ≠ 0 by simp at hf; omega)
    have hm := h m List.mem_cons_self
    have hfirst := commaJoin_first (G := dialect) ((Member.utf8 m).text dialect)
      ((members.map Member.utf8).map (Json.Member.text dialect))
    by_cases hreads : Reads 1 m.value
    swap
    · -- a constant: neither this member nor a later one is come to
      have hblock := hm.reads_or_blocks.resolve_left hreads
      have hnot := hm.reads_iff.not.mp hreads
      obtain ⟨more, hmore⟩ := hfirst
      refine .inr ⟨fun x hx => hnot ?_, .invalidJson, by decide, ?_⟩
      · by_cases hname : nameOf m = k
        · exact ((reached_cons_named hname members x).mp hx).2
        · exact ((reached_cons_other hname members x).mp hx).1
      · rw [membersText, List.map_cons, List.map_cons, hmore, List.append_assoc]
        exact findMember_blocked hm hblock fuel _ _
    have hstrict := hm.reads_iff.mp hreads
    have step := fun c hc rest => findMember_step (spaced_member hm.spaced) hm.valid hreads.2
      (c := c) hc fuel (utf8 k) rest
    by_cases hname : nameOf m = k
    · simp only [if_pos ((hm.named_iff hk).mpr hname)] at step
      refine .inl ⟨m, ?_⟩
      cases members with
      | nil => exact ⟨_, (reached_cons_named hname [] m).mpr ⟨rfl, hstrict⟩, step _ (.inr rfl) rest⟩
      | cons j members =>
        refine ⟨utf8 m.after ++ chr ',' :: (membersText (j :: members) ++ chr '}' :: rest),
          (reached_cons_named hname _ m).mpr ⟨rfl, hstrict⟩, ?_⟩
        rw [membersText, List.map_cons, List.map_cons, commaJoin_cons _ (by simp),
          List.append_assoc, List.cons_append]
        exact step (chr ',') (.inl rfl) _
    · have hunnamed : ¬named (utf8 k) (Member.utf8 m) = true := fun h =>
        hname ((hm.named_iff hk).mp h)
      simp only [if_neg hunnamed] at step
      cases members with
      | nil =>
        refine .inr ⟨fun x hx => ?_, .notFound, by decide, step _ (.inr rfl) rest⟩
        exact reached_nil k x ((reached_cons_other hname [] x).mp hx).2
      | cons j members =>
        have hcomma : chr ',' ≠ chr '}' := by decide
        have hrest := ih (by simp) (fun x hx => h x (List.mem_cons_of_mem _ hx))
          (by simpa using hf)
        have hreached : ∀ x, Reached (m :: j :: members) k x ↔ Reached (j :: members) k x :=
          fun x => (reached_cons_other hname _ x).trans (and_iff_right hstrict)
        rw [membersText, List.map_cons, List.map_cons, commaJoin_cons _ (by simp),
          List.append_assoc, List.cons_append, dialect_ch, step (chr ',') (.inl rfl), if_neg hcomma]
        simpa only [LookupEnds, hreached, membersText] using hrest

theorem member_within {limit : Nat} {members : List (Json.Member CodePoint)} {s : Str}
    (h : Object Python.dialect limit members s) :
    ∀ m ∈ members, m.text Python.dialect <:+: s := by
  intro m hm
  cases h with
  | empty => cases hm
  | members ws₁ ws₃ _ hne h₁ h₃ hsp hn hv =>
    have hjoined : m.text Python.dialect <:+: commaJoin Python.dialect _ :=
      infix_commaJoin (List.mem_map_of_mem hm)
    exact hjoined.trans ⟨ws₁ ++ [Python.dialect.ch '{'], Python.dialect.ch '}' :: ws₃, by simp⟩

theorem name_within (m : Json.Member CodePoint) : nameOf m <:+: m.text Python.dialect :=
  ⟨m.before ++ [Python.dialect.ch '"'],
    Python.dialect.ch '"' :: m.afterName ++ Python.dialect.ch ':' :: m.beforeValue ++ m.value ++
      m.after, by simp [Json.Member.text, quoted, nameOf]⟩

theorem value_within (m : Json.Member CodePoint) : m.value <:+: m.text Python.dialect :=
  ⟨m.before ++ quoted Python.dialect m.name ++ m.afterName ++ Python.dialect.ch ':' ::
    m.beforeValue, m.after, by simp [Json.Member.text]⟩

theorem Encodable.within {s t : Str} (h : Python.Encodable t) (hs : s <:+: t) :
    Python.Encodable s := fun c hc => h c (hs.subset hc)

theorem regular {members : List (Json.Member CodePoint)} {s : Str}
    (h : Object Python.dialect jsonMaxDepth members s) (hback : Python.ch '\\' ∉ s)
    (hs : Python.Encodable s) : ∀ m ∈ members, Regular m := by
  intro m hm
  have hin := member_within h m hm
  have hshape : m.Spaced Python.dialect ∧ (∀ p ∈ m.name, p.Valid Python.dialect) ∧
      Value Python.dialect jsonMaxDepth 1 m.value := by
    cases h with
    | empty => cases hm
    | members ws₁ ws₃ _ hne h₁ h₃ hsp hn hv => exact ⟨hsp m hm, hn m hm, hv m hm⟩
  exact ⟨hshape.1, hshape.2.1, hshape.2.2, fun hc => hback (hin.subset hc),
    Encodable.within hs ((name_within m).trans hin)⟩

theorem findTopLevelValue_ends {members : List (Json.Member CodePoint)} {s : Str}
    (h : Object Python.dialect jsonMaxDepth members s) (hback : Python.ch '\\' ∉ s)
    (hs : Python.Encodable s) {k : Str} (hk : Python.Encodable k) (hempty : utf8 k ≠ []) :
    LookupEnds members k (findTopLevelValue (utf8 s) (utf8 k)) := by
  cases h with
  | empty ws₁ ws₂ ws₃ h₁ h₂ h₃ =>
    refine .inr ⟨reached_nil k, .notFound, by decide, ?_⟩
    rw [Python.utf8_append, Python.dialect_ch, utf8_cons_ch (by decide), Python.utf8_append,
      Python.dialect_ch, utf8_cons_ch (by decide), findTopLevelValue, if_neg hempty,
      skipSpace_append (spaces_utf8 h₁), skipSpace_cons (by decide)]
    simp only [ne_eq, not_true_eq_false, if_false, skipSpace_append (spaces_utf8 h₂)]
    rw [skipSpace_cons (by decide)]
    simp
  | members ws₁ ws₃ _ hne h₁ h₃ hsp hn hv =>
    have hregular := fun m hm => regular (.members ws₁ ws₃ members hne h₁ h₃ hsp hn hv) hback hs m hm
    have htexts : ∀ t ∈ (members.map Member.utf8).map (Json.Member.text dialect),
        ∃ ws b s, t = ws ++ b :: s ∧ Spaces dialect ws ∧ isspace b = false ∧ b ≠ chr ']' ∧
          b ≠ chr '}' := by
      intro t ht
      obtain ⟨j, hj, rfl⟩ := List.mem_map.mp ht
      obtain ⟨m, hm, rfl⟩ := List.mem_map.mp hj
      exact ⟨utf8 m.before, chr '"', _, rfl, spaces_utf8 (hsp m hm).1, by decide⟩
    obtain ⟨b, t, hb, -, hb1⟩ := commaJoin_head _ htexts (by simpa using hne)
      (chr '}' :: utf8 ws₃)
    have hlen := length_le_commaJoin ((members.map Member.utf8).map (Json.Member.text dialect)) (by
        intro t ht
        obtain ⟨m, -, rfl⟩ := List.mem_map.mp ht
        exact member_text_ne_nil m)
    rw [List.length_map, List.length_map] at hlen
    have htext : utf8 (ws₁ ++ Python.dialect.ch '{' :: (commaJoin Python.dialect
        (members.map (Json.Member.text Python.dialect)) ++ Python.dialect.ch '}' :: ws₃)) =
        utf8 ws₁ ++ chr '{' :: (membersText members ++ chr '}' :: utf8 ws₃) := by
      rw [Python.utf8_append, Python.dialect_ch, utf8_cons_ch (by decide), Python.utf8_append,
        utf8_members, Python.dialect_ch, utf8_cons_ch (by decide)]
    rw [htext]
    have hfuel : members.length ≤
        (utf8 ws₁ ++ chr '{' :: (membersText members ++ chr '}' :: utf8 ws₃)).length + 1 := by
      simp only [membersText, List.length_append, List.length_cons]
      omega
    have hends := findMember_ends hne hregular hk (utf8 ws₃) hfuel
    rw [membersText, hb] at hends
    rw [findTopLevelValue, if_neg hempty, skipSpace_append (spaces_utf8 h₁),
      skipSpace_cons (by decide)]
    simp only [ne_eq, not_true_eq_false, if_false, membersText, hb, hb1] at hends ⊢
    exact hends

/-! ### The accessors -/

/-- `msys_mipc_json_get_string` returns `OK` with this text, given room enough. -/
def GetsString (json key t : Bytes) : Prop :=
  ∀ (m : Buffer) (capacity : Nat), t.length < capacity →
    (jsonGetString json key m capacity).result = .ok ∧
    Buffer.holds (jsonGetString json key m capacity).buffer t ∧
    (jsonGetString json key m capacity).length = t.length

theorem GetsString.unique {json key t u : Bytes} (ht : GetsString json key t)
    (hu : GetsString json key u) : t = u := by
  obtain ⟨capacity, htroom, huroom⟩ : ∃ c, t.length < c ∧ u.length < c :=
    ⟨t.length + u.length + 1, by omega, by omega⟩
  obtain ⟨-, ⟨hread, -⟩, hlen⟩ := ht (fun _ => 0) capacity htroom
  obtain ⟨-, ⟨hread', -⟩, hlen'⟩ := hu (fun _ => 0) capacity huroom
  rw [← hlen] at hread
  rw [← hlen'] at hread'
  exact hread.symm.trans hread'

theorem not_getsString_error {json key : Bytes} {e : Result}
    (h : findTopLevelValue json key = .error e) (he : e ≠ .ok) (t : Bytes) :
    ¬GetsString json key t := by
  intro hget
  have hok := (hget (fun _ => 0) (t.length + 1) (by omega)).1
  rw [jsonGetString, if_neg (by omega), h] at hok
  exact he hok

theorem not_getsString_other {json key v tail : Bytes}
    (h : findTopLevelValue json key = .ok (v ++ tail, tail)) (hv : v.head? ≠ some (chr '"'))
    (t : Bytes) : ¬GetsString json key t := by
  intro hget
  have hok := (hget (fun _ => 0) (t.length + 1) (by omega)).1
  rw [jsonGetString, if_neg (by omega), h] at hok
  simp only [between_append] at hok
  rw [if_pos (by simp [hv])] at hok
  cases hok

theorem getsString_quoted {json key t tail : Bytes} (hplain : ∀ b ∈ t, dialect.plain b = true)
    (hsize : t.length ≤ sizeMax)
    (h : findTopLevelValue json key = .ok (quoted dialect (t.map .plain) ++ tail, tail)) :
    GetsString json key t := by
  have hrounds : Rounds t (t.map .byte) := by
    have hspelled : Rounds (t.flatMap fun b => [b]) (t.map .byte) :=
      rounds_flatMap fun b hb => chunk_plain (hplain b hb)
    rwa [List.flatMap_singleton' t] at hspelled
  rw [quoted, bodyText_plain] at h
  exact fun m capacity hcap => jsonGetString_whole hrounds h m hsize hcap

/-! ### What a value reads as -/

/-- The value is the string literal of `t`. -/
def StringText (v t : Str) : Prop := v = quoted Python.dialect (t.map .plain)

/-- The value is an integer in plain digits that fits into 64 bits. -/
def IntegerText (v : Str) (n : Nat) : Prop :=
  (v ≠ [] ∧ ∀ c ∈ v, Python.isDigit c = true) ∧ n = Python.digitsValue v ∧ n ≤ uint64Max

theorem ne_quoted {c : Char} (hc : Python.ch c ≠ Python.ch '"') (v : Str)
    (body : List (Piece CodePoint)) : Python.ch c :: v ≠ quoted Python.dialect body := by
  intro h
  rw [quoted, List.cons.injEq] at h
  exact hc h.1

theorem head_utf8 {c : Char} (hc : c.toNat < 0x80) (v : Str) :
    (utf8 (Python.ch c :: v)).head? = some (chr c) := by
  rw [utf8_cons_ch hc]
  rfl

/-- A value is a string literal, or begins with another byte than a quote. -/
theorem string_or_other {v : Str} (h : Value Python.dialect jsonMaxDepth 1 v)
    (hback : Python.ch '\\' ∉ v) :
    (∃ t, StringText v t ∧ (∀ c ∈ t, Python.dialect.plain c = true) ∧
      Value Python.strictDialect jsonMaxDepth 1 v) ∨
    ((utf8 v).head? ≠ some (chr '"') ∧ ∀ t, ¬StringText v t) := by
  have other : ∀ {c : Char} {t : Str}, c.toNat < 0x80 → chr c ≠ chr '"' →
      Python.ch c ≠ Python.ch '"' →
      (utf8 (Python.ch c :: t)).head? ≠ some (chr '"') ∧ ∀ u, ¬StringText (Python.ch c :: t) u :=
    fun hc hb hq => ⟨by rw [head_utf8 hc]; simpa using hb, fun u => ne_quoted hq _ _⟩
  cases h with
  | string body hd hb =>
    have hbody : Python.ch '\\' ∉ bodyText Python.dialect body := fun hmem =>
      hback (by simp [quoted, hmem])
    refine .inl ⟨bodyText Python.dialect body, ?_, body_plain hb hbody, .string body hd hb⟩
    rw [StringText, quoted, quoted, Python.bodyText_plain]
  | number n =>
    obtain ⟨b, t, ht, hb⟩ := number_head n
    refine .inr ⟨?_, fun t => Python.number_ne_quoted n _⟩
    rw [utf8_number n, ht]
    simpa using (ne_of_number_head hb).2.2.2.1
  | word hw =>
    simp only [Python.dialect, List.mem_cons, List.not_mem_nil, or_false] at hw
    rcases hw with rfl | rfl | rfl | rfl | rfl | rfl
    · exact .inr (other (c := 'n') (by decide) (by decide) (by decide))
    · exact .inr (other (c := 't') (by decide) (by decide) (by decide))
    · exact .inr (other (c := 'f') (by decide) (by decide) (by decide))
    · exact .inr (other (c := 'N') (by decide) (by decide) (by decide))
    · exact .inr (other (c := 'I') (by decide) (by decide) (by decide))
    · exact .inr (other (c := '-') (by decide) (by decide) (by decide))
  | emptyArray ws => exact .inr (other (c := '[') (by decide) (by decide) (by decide))
  | array items => exact .inr (other (c := '[') (by decide) (by decide) (by decide))
  | emptyObject ws => exact .inr (other (c := '{') (by decide) (by decide) (by decide))
  | object members => exact .inr (other (c := '{') (by decide) (by decide) (by decide))

/-! ### The accessors on the record -/

/-- A text without backslashes and with little nesting whose bytes fit into memory. -/
structure Readable (members : List (Json.Member CodePoint)) (s : Str) : Prop where
  object : Object Python.dialect jsonMaxDepth members s
  backslash : Python.ch '\\' ∉ s
  encodable : Python.Encodable s
  size : (utf8 s).length ≤ sizeMax

theorem Readable.value_within {members : List (Json.Member CodePoint)} {s : Str}
    (h : Readable members s) {m : Json.Member CodePoint} (hm : m ∈ members) : m.value <:+: s :=
  (Mipc.value_within m).trans (member_within h.object m hm)

theorem Readable.regular {members : List (Json.Member CodePoint)} {s : Str}
    (h : Readable members s) : ∀ m ∈ members, Regular m :=
  Mipc.regular h.object h.backslash h.encodable

theorem mem_of_firstNamed {members : List (Json.Member CodePoint)} {k : Str}
    {m : Json.Member CodePoint} (h : firstNamed members k = some m) : m ∈ members :=
  List.mem_of_find?_eq_some h

theorem Reached.unique {members : List (Json.Member CodePoint)} {k : Str}
    {m n : Json.Member CodePoint} (hm : Reached members k m) (hn : Reached members k n) : m = n :=
  Option.some.inj (hm.1.symm.trans hn.1)

theorem utf8_within {s t : Str} (h : s <:+: t) : utf8 s <:+: utf8 t := by
  obtain ⟨u, v, rfl⟩ := h
  exact ⟨utf8 u, utf8 v, by simp⟩

theorem text_within {v t : Str} (h : StringText v t) : t <:+: v :=
  ⟨[Python.ch '"'], [Python.ch '"'], by
    rw [h, quoted, Python.bodyText_plain]
    simp⟩

theorem getsString_iff {members : List (Json.Member CodePoint)} {s k : Str}
    (h : Readable members s) (hk : Python.Encodable k) (hempty : utf8 k ≠ []) (b : Bytes) :
    GetsString (utf8 s) (utf8 k) b ↔
      ∃ m t, Reached members k m ∧ StringText m.value t ∧ b = utf8 t := by
  rcases findTopLevelValue_ends h.object h.backslash h.encodable hk hempty with
    ⟨m, tail, hm, hfind⟩ | ⟨hnone, e, he, hfind⟩
  · have hin := h.value_within (mem_of_firstNamed hm.1)
    have hregular := h.regular m (mem_of_firstNamed hm.1)
    rcases string_or_other hregular.value fun hc => hregular.backslash (mem_member_value hc) with
      ⟨t, ht, hplain, -⟩ | ⟨hhead, hother⟩
    · have hsize := (utf8_within ((text_within ht).trans hin)).length_le.trans h.size
      rw [ht, utf8_quoted, Python.bodyText_plain] at hfind
      have hgets := getsString_quoted (plain_utf8 hplain) hsize hfind
      constructor
      · exact fun hb => ⟨m, t, hm, ht, hb.unique hgets⟩
      · rintro ⟨n, u, hn, hu, rfl⟩
        obtain rfl := hm.unique hn
        rwa [← Python.quoted_plain_inj (ht.symm.trans hu)]
    · constructor
      · exact fun hb => absurd hb (not_getsString_other hfind hhead b)
      · rintro ⟨n, u, hn, hu, -⟩
        obtain rfl := hm.unique hn
        exact absurd hu (hother u)
  · constructor
    · exact fun hb => absurd hb (not_getsString_error hfind he b)
    · rintro ⟨n, -, hn, -⟩
      exact absurd hn (hnone n)

theorem digits_of_utf8 {v : Str} (hv : Python.Encodable v) (h : ∀ b ∈ utf8 v, isdigit b = true) :
    ∀ c ∈ v, Python.isDigit c = true := by
  intro c hc
  have hform : ∀ b ∈ (Python.encodeChar c).getD [], isdigit b = true := fun b hb =>
    h b (List.mem_flatMap.mpr ⟨c, hc, hb⟩)
  by_cases hlow : c.val < 0x80
  · have hbyte := hform (.ofNat c.val) (by rw [Python.encodeChar, if_pos hlow]; simp)
    rw [Python.isDigit_iff]
    simpa [isdigit, Ascii.isDigit, Nat.mod_eq_of_lt (show c.val < 256 by omega)] using hbyte
  · exfalso
    have hone : Python.Encodable [c] := fun d hd => by
      rw [List.mem_singleton.mp hd]
      exact hv c hc
    cases hencode : Python.encodeChar c with
    | none =>
      rw [Python.encodable_iff, Python.encodeUtf8, hencode] at hone
      cases hone
    | some form =>
      rw [hencode, Option.getD_some] at hform
      have hhigh := Python.encodeChar_high (Nat.le_of_not_lt hlow) hencode
      obtain ⟨b, hb⟩ : ∃ b, b ∈ form := by
        rw [Python.encodeChar] at hencode
        split_ifs at hencode <;> cases hencode <;> exact ⟨_, List.mem_cons_self⟩
      have hdigit := hform b hb
      have := hhigh b hb
      simp only [isdigit, Ascii.isDigit, Bool.and_eq_true, decide_eq_true_eq] at hdigit
      omega

theorem digitsValue_eq {v : Str} (h : ∀ c ∈ v, Python.isDigit c = true) :
    Nat.ofDigitChars 10 (v.map Python.ofCode) 0 = Python.digitsValue v := by
  rw [Nat.ofDigitChars_eq_foldl, List.foldl_map, Python.digitsValue]
  refine List.foldl_ext _ _ 0 fun n c hc => ?_
  have hval := Python.toNat_ofCode (c := c) (by
    have := Python.isDigit_iff.mp (h c hc)
    omega)
  have hzero : '0'.toNat = 48 := rfl
  rw [hval, hzero, mul_comm]

theorem utf8_digits {v : Str} (hne : v ≠ []) (h : ∀ c ∈ v, Python.isDigit c = true) :
    utf8 v = (Python.digitsOf v hne h).text dialect := by
  have hascii : ∀ c ∈ (Python.digitsOf v hne h).chars, c.toNat < 0x80 := fun c hc => by
    have := lt_of_isDigit ((Python.digitsOf v hne h).digits c hc)
    omega
  conv_lhs => rw [← Python.digitsOf_text hne h]
  exact utf8_map_ch hascii

/-- The integer accessor on a value. -/
theorem jsonGetU64_iff {json key tail : Bytes} {v : Str} (hv : Python.Encodable v)
    (h : findTopLevelValue json key = .ok (utf8 v ++ tail, tail)) (n : Nat) :
    jsonGetU64 json key = (.ok, n) ↔ IntegerText v n := by
  by_cases hd : v ≠ [] ∧ ∀ c ∈ v, Python.isDigit c = true
  · have hget := jsonGetU64_digits (Python.digitsOf v hd.1 hd.2) (by
      rw [h, utf8_digits hd.1 hd.2])
    have hchars : (Python.digitsOf v hd.1 hd.2).chars = v.map Python.ofCode := rfl
    rw [hget, hchars, digitsValue_eq hd.2, IntegerText, and_iff_right hd]
    split_ifs with hfit
    · rw [Prod.mk.injEq, and_iff_right rfl]
      exact ⟨fun h => ⟨h.symm, h ▸ hfit⟩, fun h => h.1.symm⟩
    · simp only [Prod.mk.injEq, reduceCtorEq, false_and, false_iff]
      rintro ⟨rfl, hle⟩
      exact hfit hle
  · refine iff_of_false (fun hget => hd ?_) fun hn => hd hn.1
    rw [jsonGetU64_eq h] at hget
    split_ifs at hget with hstart
    · cases hget
    · cases hparse : parseDigits 0 (utf8 v) with
      | none =>
        rw [hparse] at hget
        cases hget
      | some r =>
        obtain ⟨parsed, rest⟩ := r
        cases rest with
        | cons => rw [hparse] at hget; cases hget
        | nil =>
          refine ⟨fun hnil => hstart (by rw [hnil]; rfl), ?_⟩
          exact digits_of_utf8 hv (parseDigits_digits hparse)

theorem getsU64_iff {members : List (Json.Member CodePoint)} {s k : Str}
    (h : Readable members s) (hk : Python.Encodable k) (hempty : utf8 k ≠ []) (n : Nat) :
    jsonGetU64 (utf8 s) (utf8 k) = (.ok, n) ↔
      ∃ m, Reached members k m ∧ IntegerText m.value n := by
  rcases findTopLevelValue_ends h.object h.backslash h.encodable hk hempty with
    ⟨m, tail, hm, hfind⟩ | ⟨hnone, e, he, hfind⟩
  · have hin := h.value_within (mem_of_firstNamed hm.1)
    rw [jsonGetU64_iff (Encodable.within h.encodable hin) hfind]
    constructor
    · exact fun hn => ⟨m, hm, hn⟩
    · rintro ⟨m', hm', hn⟩
      obtain rfl := hm.unique hm'
      exact hn
  · constructor
    · intro hget
      rw [jsonGetU64, hfind] at hget
      exact absurd (congrArg Prod.fst hget) he
    · rintro ⟨m, hm, -⟩
      exact absurd hm (hnone m)

/-! ### The dict beside the bytes -/

/-- The first member of the name and the last read as the same, and nothing in front of the
first stops the scanner, if one of them reads at all. -/
def SameField {α : Type} (reads : Str → α → Prop) (members : List (Json.Member CodePoint))
    (k : Str) : Prop :=
  ∀ first last, firstNamed members k = some first → lastNamed members k = some last →
    ∀ x, reads first.value x ∧ Clean members k ↔ reads last.value x

theorem lastNamed_of_firstNamed {members : List (Json.Member CodePoint)} {k : Str}
    {m : Json.Member CodePoint} (h : firstNamed members k = some m) :
    ∃ n, lastNamed members k = some n := by
  have hk : nameOf m = k := by simpa using List.find?_some h
  have hsome : (lastNamed members k).isSome := by
    rw [lastNamed, List.find?_isSome]
    exact ⟨m, List.mem_reverse.mpr (mem_of_firstNamed h), by simpa using hk⟩
  exact Option.isSome_iff_exists.mp hsome

theorem firstNamed_of_lastNamed {members : List (Json.Member CodePoint)} {k : Str}
    {m : Json.Member CodePoint} (h : lastNamed members k = some m) :
    m ∈ members ∧ ∃ n, firstNamed members k = some n := by
  have hk : nameOf m = k := by simpa using List.find?_some h
  have hm := List.mem_reverse.mp (List.mem_of_find?_eq_some h)
  have hsome : (firstNamed members k).isSome := by
    rw [firstNamed, List.find?_isSome]
    exact ⟨m, hm, by simpa using hk⟩
  exact ⟨hm, Option.isSome_iff_exists.mp hsome⟩

theorem sameField_iff {α : Type} {reads : Str → α → Prop}
    {members : List (Json.Member CodePoint)} {k : Str}
    (hstrict : ∀ m ∈ members, ∀ x, reads m.value x →
      Value Python.strictDialect jsonMaxDepth 1 m.value) :
    (∀ x, (∃ m, Reached members k m ∧ reads m.value x) ↔
      ∃ m, lastNamed members k = some m ∧ reads m.value x) ↔ SameField reads members k := by
  have hreached : ∀ {first x}, firstNamed members k = some first →
      ((∃ m, Reached members k m ∧ reads m.value x) ↔ reads first.value x ∧ Clean members k) := by
    intro first x hfirst
    constructor
    · rintro ⟨m, ⟨hm, hclean, -⟩, hx⟩
      obtain rfl := Option.some.inj (hfirst.symm.trans hm)
      exact ⟨hx, hclean⟩
    · rintro ⟨hx, hclean⟩
      exact ⟨first, ⟨hfirst, hclean, hstrict _ (mem_of_firstNamed hfirst) x hx⟩, hx⟩
  have hlast : ∀ {last x}, lastNamed members k = some last →
      ((∃ m, lastNamed members k = some m ∧ reads m.value x) ↔ reads last.value x) := by
    intro last x hlast
    constructor
    · rintro ⟨m, hm, hx⟩
      obtain rfl := Option.some.inj (hlast.symm.trans hm)
      exact hx
    · exact fun hx => ⟨last, hlast, hx⟩
  constructor
  · intro h first last hf hl x
    rw [← hreached hf, ← hlast hl]
    exact h x
  · intro h x
    cases hf : firstNamed members k with
    | none =>
      refine iff_of_false ?_ ?_
      · rintro ⟨m, hm, -⟩
        rw [hm.1] at hf
        cases hf
      · rintro ⟨m, hm, -⟩
        obtain ⟨-, n, hn⟩ := firstNamed_of_lastNamed hm
        rw [hn] at hf
        cases hf
    | some first =>
      obtain ⟨last, hl⟩ := lastNamed_of_firstNamed hf
      rw [hreached hf, hlast hl]
      exact h first last hf hl x

/-- The two SDKs read the same text from the field. -/
def StringAgrees (data : Python.Bytes) (m : Python.Dict) (key : String) : Prop :=
  (∀ t, m.get (Python.str key) = .str t →
    ∃ b, Python.encodeUtf8 t = some b ∧ GetsString data (text key) b) ∧
  ∀ b, GetsString data (text key) b →
    ∃ t, Python.encodeUtf8 t = some b ∧ m.get (Python.str key) = .str t

/-- The two SDKs read the same integer from the field. -/
def IntegerAgrees (data : Python.Bytes) (members : List (Json.Member CodePoint))
    (m : Python.Dict) (key : String) : Prop :=
  ∀ n, jsonGetU64 data (text key) = (.ok, n) ↔
    m.get (Python.str key) = .int n ∧ n ≤ uint64Max ∧
      ∃ last, lastNamed members (Python.str key) = some last ∧
        last.value ≠ [] ∧ ∀ c ∈ last.value, Python.isDigit c = true

theorem get_str_iff {limit : Nat} {s : Str} {members : List (Json.Member CodePoint)}
    {m : Python.Dict} (h : Python.Denoted limit s members m) (k t : Str) :
    m.get k = .str t ↔ ∃ last, lastNamed members k = some last ∧ StringText last.value t := by
  have hget := h.get k
  cases hlast : lastNamed members k with
  | none =>
    rw [hlast] at hget
    simp [show m.get k = .none from hget]
  | some last =>
    rw [hlast] at hget
    rw [hget.string t]
    simp [StringText]

theorem get_int_iff {limit : Nat} {s : Str} {members : List (Json.Member CodePoint)}
    {m : Python.Dict} (h : Python.Denoted limit s members m) (k : Str) (n : Nat) :
    (m.get k = .int n ∧ n ≤ uint64Max ∧ ∃ last, lastNamed members k = some last ∧
      last.value ≠ [] ∧ ∀ c ∈ last.value, Python.isDigit c = true) ↔
      ∃ last, lastNamed members k = some last ∧ IntegerText last.value n := by
  have hget := h.get k
  cases hlast : lastNamed members k with
  | none => simp
  | some last =>
    rw [hlast] at hget
    constructor
    · rintro ⟨hint, hle, l, ⟨rfl⟩, hne, hd⟩
      have hvalue := hget.digits hne hd
      rw [hint, Python.Value.int.injEq] at hvalue
      exact ⟨_, rfl, ⟨hne, hd⟩, by exact_mod_cast hvalue, hle⟩
    · rintro ⟨l, ⟨rfl⟩, ⟨hne, hd⟩, rfl, hle⟩
      exact ⟨hget.digits hne hd, hle, _, rfl, hne, hd⟩

theorem Readable.stringAgrees_iff {members : List (Json.Member CodePoint)} {s : Str}
    (h : Readable members s) {limit : Nat} {m : Python.Dict}
    (hm : Python.Denoted limit s members m) {key : String}
    (hascii : ∀ c ∈ key.toList, c.toNat < 0x80) (hempty : text key ≠ []) :
    StringAgrees (utf8 s) m key ↔ SameField StringText members (Python.str key) := by
  have hk : Python.Encodable (Python.str key) := Python.encodable_map_ch hascii
  have hgets := getsString_iff h hk (by rwa [utf8_str hascii])
  rw [utf8_str hascii] at hgets
  have hencodable : ∀ {x : Json.Member CodePoint} {t}, x ∈ members → StringText x.value t →
      Python.Encodable t := fun hx ht =>
    Encodable.within h.encodable ((text_within ht).trans (h.value_within hx))
  rw [← sameField_iff]
  · simp only [StringAgrees, hgets, get_str_iff hm]
    constructor
    · rintro ⟨hpython, hc⟩ t
      constructor
      · rintro ⟨x, hx, ht⟩
        have ht' := hencodable (mem_of_firstNamed hx.1) ht
        obtain ⟨u, hu, y, hy, hyu⟩ := hc (utf8 t) ⟨x, t, hx, ht, rfl⟩
        obtain rfl := Python.encodeUtf8_inj hu (Python.encodable_iff.mp ht')
        exact ⟨y, hy, hyu⟩
      · rintro ⟨y, hy, hyt⟩
        have ht' := hencodable (firstNamed_of_lastNamed hy).1 hyt
        obtain ⟨b, hb, x, u, hx, hxu, rfl⟩ := hpython t ⟨y, hy, hyt⟩
        have hu' := hencodable (mem_of_firstNamed hx.1) hxu
        obtain rfl := Python.encodeUtf8_inj hb (Python.encodable_iff.mp hu')
        exact ⟨x, hx, hxu⟩
    · intro hsame
      constructor
      · intro t hy
        obtain ⟨x, hx, ht⟩ := (hsame t).mpr hy
        have ht' := hencodable (mem_of_firstNamed hx.1) ht
        exact ⟨utf8 t, Python.encodable_iff.mp ht', x, t, hx, ht, rfl⟩
      · rintro _ ⟨x, t, hx, ht, rfl⟩
        have ht' := hencodable (mem_of_firstNamed hx.1) ht
        exact ⟨t, Python.encodable_iff.mp ht', (hsame t).mp ⟨x, hx, ht⟩⟩
  · intro x hx t ht
    have hregular := h.regular x hx
    rcases string_or_other hregular.value fun hc => hregular.backslash (mem_member_value hc) with
      ⟨-, -, -, hstrict⟩ | ⟨-, hother⟩
    · exact hstrict
    · exact absurd ht (hother t)

/-- A value in plain digits is a number. -/
theorem strict_of_digits {v : Str} (h : Value Python.dialect jsonMaxDepth 1 v) (hne : v ≠ [])
    (hd : ∀ c ∈ v, Python.isDigit c = true) :
    Value Python.strictDialect jsonMaxDepth 1 v := by
  have other : ∀ {c : CodePoint} {t : Str}, v = c :: t → Python.isDigit c = false → False := by
    rintro c t rfl hc
    rw [hd c List.mem_cons_self] at hc
    cases hc
  cases h with
  | number n hn => exact .number n hn
  | string body => exact (other rfl (by decide)).elim
  | word hw =>
    simp only [Python.dialect, List.mem_cons, List.not_mem_nil, or_false] at hw
    rcases hw with rfl | rfl | rfl | rfl | rfl | rfl <;> exact (other rfl (by decide)).elim
  | emptyArray ws => exact (other rfl (by decide)).elim
  | array items => exact (other rfl (by decide)).elim
  | emptyObject ws => exact (other rfl (by decide)).elim
  | object members => exact (other rfl (by decide)).elim

theorem Readable.integerAgrees_iff {members : List (Json.Member CodePoint)} {s : Str}
    (h : Readable members s) {limit : Nat} {m : Python.Dict}
    (hm : Python.Denoted limit s members m) {key : String}
    (hascii : ∀ c ∈ key.toList, c.toNat < 0x80) (hempty : text key ≠ []) :
    IntegerAgrees (utf8 s) members m key ↔ SameField IntegerText members (Python.str key) := by
  have hk : Python.Encodable (Python.str key) := Python.encodable_map_ch hascii
  have hgets := getsU64_iff h hk (by rwa [utf8_str hascii])
  rw [utf8_str hascii] at hgets
  rw [← sameField_iff]
  · simp only [IntegerAgrees, hgets, get_int_iff hm]
  · exact fun x hx n hn => strict_of_digits (h.regular x hx).value hn.1.1 hn.1.2

/-- The fields by which a record is dispatched. -/
def FieldsAgree (data : Python.Bytes) (members : List (Json.Member CodePoint)) (m : Python.Dict) :
    Prop := StringAgrees data m "type" ∧ IntegerAgrees data members m "id"

theorem loads_of_readPacket {py : Python.Interpreter} {data : Python.Bytes} {m : Python.Dict}
    (h : Client.readPacket py data = .ok (some m)) : Python.loads py false data = .ok (.dict m) := by
  rw [Client.readPacket] at h
  split_ifs at h
  · cases h
  · cases hloads : Python.loads py false data with
    | error e =>
      rw [hloads] at h
      dsimp only at h
      split_ifs at h
    | ok v =>
      rw [hloads] at h
      cases v with
      | dict m' =>
        cases h
        rfl
      | _ => cases h

theorem readPacket_length {py : Python.Interpreter} {data : Python.Bytes} {m : Python.Dict}
    (h : Client.readPacket py data = .ok (some m)) : data.length ≤ Msys.maxPacket := by
  rw [Client.readPacket] at h
  split_ifs at h with hnil hlarge
  · cases h
  · omega

/-- A record that the Python client accepts is the text of an object whose members the dict
denotes; if its nesting is within the scanner's limit, both SDKs read the same fields from it
exactly when the first and the last member of each name read as the same. -/
theorem accepted_fields_agree {py : Python.Interpreter} {data : Python.Bytes} {m : Python.Dict}
    (h : Client.readPacket py data = .ok (some m)) (hback : 0x5C ∉ data) :
    (∃ s members, Python.encodeUtf8 s = some data ∧
      Python.Denoted py.recursionLimit s members m) ∧
    ∀ s members, Python.encodeUtf8 s = some data → Python.Denoted jsonMaxDepth s members m →
      (FieldsAgree data members m ↔
        SameField StringText members (Python.str "type") ∧
        SameField IntegerText members (Python.str "id")) := by
  have hloads := loads_of_readPacket h
  refine ⟨?_, fun s members hs hm => ?_⟩
  · obtain ⟨s, members, hs, -, hm⟩ := Python.loads_sound hback hloads
    exact ⟨s, members, hs, hm⟩
  · have hutf8 := Python.utf8_of_encode hs
    have hread : Readable members s := by
      refine ⟨hm.1, fun hmem => hback ?_, ?_, ?_⟩
      · rw [← hutf8]
        exact List.mem_flatMap.mpr ⟨_, hmem, by decide⟩
      · rw [Python.encodable_iff, hs, hutf8]
      · rw [hutf8]
        exact (readPacket_length h).trans (by decide)
    rw [FieldsAgree, ← hutf8, hread.stringAgrees_iff hm (Python.ascii_of_all rfl) (by decide),
      hread.integerAgrees_iff hm (Python.ascii_of_all rfl) (by decide)]

/-! ### One field, given once or twice -/

def typeField (value : String) : Json.Member CodePoint where
  before := []
  name := (Python.str "type").map .plain
  afterName := []
  beforeValue := []
  value := quoted Python.dialect ((Python.str value).map .plain)
  after := []

/-- The record with one member `"type"` for each of the values. -/
def typeRecord (values : List String) : Str :=
  Python.ch '{' :: (commaJoin Python.dialect ((values.map typeField).map
    (Json.Member.text Python.dialect)) ++ [Python.ch '}'])

theorem typeRecord_object {values : List String} (hne : values ≠ [])
    (hplain : ∀ v ∈ values, (Python.str v).all Python.dialect.plain = true) :
    Object Python.dialect jsonMaxDepth (values.map typeField) (typeRecord values) := by
  have body : ∀ {t : Str}, t.all Python.dialect.plain = true →
      ∀ p ∈ t.map Piece.plain, p.Valid Python.dialect := by
    intro t ht p hp
    obtain ⟨c, hc, rfl⟩ := List.mem_map.mp hp
    exact List.all_eq_true.mp ht c hc
  refine .members [] [] _ (by simpa using hne) (by simp [Spaces]) (by simp [Spaces]) ?_ ?_ ?_ <;>
    intro m hm <;> obtain ⟨v, hv, rfl⟩ := List.mem_map.mp hm
  · simp [Json.Member.Spaced, Spaces, typeField]
  · exact body (by decide +kernel)
  · exact .string _ (by decide) (body (hplain v hv))

/-- The dict of such a record. -/
def typeDict (values : List String) : Python.Dict :=
  Python.assign [] (values.map fun _ => Python.str "type") (values.map fun v => .str (Python.str v))

theorem typeRecord_denoted {values : List String} (hne : values ≠ [])
    (hplain : ∀ v ∈ values, (Python.str v).all Python.dialect.plain = true) :
    Python.Denoted jsonMaxDepth (typeRecord values) (values.map typeField) (typeDict values) := by
  refine ⟨typeRecord_object hne hplain, values.map fun v => .str (Python.str v), ?_, ?_⟩
  · rw [List.map_map, List.forall₂_map_left_iff, List.forall₂_map_right_iff, List.forall₂_same]
    exact fun v _ => Python.denotes_quoted _
  · rw [typeDict, List.map_map]
    refine congrArg (Python.assign [] · _) (List.map_congr_left fun v _ => ?_)
    exact (Python.bodyText_plain _).symm

/-- The record `{"type":"a"}` is read alike. -/
theorem accepted_fields_agree_once :
    FieldsAgree (text "\x7b\"type\":\"a\"\x7d") [typeField "a"] (typeDict ["a"]) := by
  have haccept : Client.readPacket Python.plain (text "\x7b\"type\":\"a\"\x7d") =
      .ok (some (typeDict ["a"])) := by decide +kernel
  refine ((accepted_fields_agree haccept (by decide +kernel)).2 (typeRecord ["a"]) [typeField "a"]
    (by decide +kernel) (typeRecord_denoted (by simp) (by decide +kernel))).mpr ⟨?_, ?_⟩
  · have hclean : Clean [typeField "a"] (Python.str "type") := by
      intro m hm
      have hnil : [typeField "a"].takeWhile (fun m => nameOf m ≠ Python.str "type") = [] := by
        decide +kernel
      rw [hnil] at hm
      cases hm
    rintro first last hfirst hlast x
    have hsame : first = last := Option.some.inj (hfirst.symm.trans hlast)
    rw [hsame, and_iff_left hclean]
  · rintro first last hfirst
    have hnone : firstNamed [typeField "a"] (Python.str "id") = none := by decide +kernel
    rw [hnone] at hfirst
    cases hfirst

/-- The record `{"type":"a","type":"b"}` is accepted; the C SDK reads `a` and the Python one `b`. -/
theorem repeated_type_disagrees :
    Client.readPacket Python.plain (text "\x7b\"type\":\"a\",\"type\":\"b\"\x7d") =
      .ok (some (typeDict ["a", "b"])) ∧
    0x5C ∉ text "\x7b\"type\":\"a\",\"type\":\"b\"\x7d" ∧
    Python.encodeUtf8 (typeRecord ["a", "b"]) =
      some (text "\x7b\"type\":\"a\",\"type\":\"b\"\x7d") ∧
    Python.Denoted jsonMaxDepth (typeRecord ["a", "b"]) [typeField "a", typeField "b"]
      (typeDict ["a", "b"]) ∧
    ¬FieldsAgree (text "\x7b\"type\":\"a\",\"type\":\"b\"\x7d") [typeField "a", typeField "b"]
      (typeDict ["a", "b"]) := by
  refine ⟨by decide +kernel, by decide +kernel, by decide +kernel,
    typeRecord_denoted (by simp) (by decide +kernel), fun h => ?_⟩
  obtain ⟨b, hb, hgets⟩ := h.1.1 (Python.str "b") (by decide +kernel)
  have hbytes : Python.encodeUtf8 (Python.str "b") = some (text "b") := by decide +kernel
  obtain rfl := Option.some.inj (hbytes.symm.trans hb)
  have hread := (hgets (fun _ => 0) 8 (by decide +kernel)).2.1.1
  have hfirst : (jsonGetString (text "\x7b\"type\":\"a\",\"type\":\"b\"\x7d") (text "type")
      (fun _ => 0) 8).buffer.read 1 = text "a" := by decide +kernel
  have hab : text "a" ≠ text "b" := by decide +kernel
  exact hab (hfirst.symm.trans hread)

end Msys.Mipc
