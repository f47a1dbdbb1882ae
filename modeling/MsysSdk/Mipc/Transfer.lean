import MsysSdk.Mipc.Names
import MsysSdk.Python.JsonGrammar
import MsysSdk.Python.Ascii

/-! The bytes of a text that `json.loads` takes, seen by the scanner: it takes the same values,
but stops at a value with one of the constants that JSON does not know. -/

namespace Msys.Mipc
open Libc Json
open Python (CodePoint Str utf8 utf8_ch utf8_cons_ch utf8_map_ch utf8_str)

/-! ### Characters -/

/-- What holds of the ASCII characters and of all other bytes holds of the bytes of a text. -/
theorem forall_utf8 {p : CodePoint → Prop} {q : UInt8 → Prop} {s : Str} (hs : ∀ c ∈ s, p c)
    (hascii : ∀ c : CodePoint, c.val < 0x80 → p c → q (.ofNat c.val))
    (hhigh : ∀ b : UInt8, 0x80 ≤ b.toNat → q b) : ∀ b ∈ utf8 s, q b := by
  intro b hb
  rcases Python.mem_utf8 hb with ⟨c, hc, hlow, rfl⟩ | hb
  · exact hascii c hlow (hs c hc)
  · exact hhigh b hb

theorem spaces_utf8 {ws : Str} (h : Spaces Python.dialect ws) : Spaces dialect (utf8 ws) := by
  have space : ∀ c : CodePoint, Python.isSpace c = true →
      c = Python.ch ' ' ∨ c = Python.ch '\t' ∨ c = Python.ch '\n' ∨ c = Python.ch '\r' := by
    intro c hc
    simpa [Python.isSpace, or_assoc] using hc
  intro b hb
  obtain ⟨c, hc, hb⟩ := List.mem_flatMap.mp hb
  rcases space c (h c hc) with rfl | rfl | rfl | rfl <;>
    exact (List.mem_singleton.mp hb) ▸ (by decide)

theorem plain_utf8 {s : Str} (h : ∀ c ∈ s, Python.dialect.plain c = true) :
    ∀ b ∈ utf8 s, dialect.plain b = true := by
  have ascii : ∀ n < 0x80, Python.dialect.plain (.ofNat n) = true →
      dialect.plain (.ofNat n) = true := by decide +kernel
  have high : ∀ n < 0x80, dialect.plain (.ofNat (0x80 + n)) = true := by decide +kernel
  refine forall_utf8 h (fun c hlow hc => ascii c.val hlow ?_) fun b hb => ?_
  · rwa [Python.ofNat_eq rfl]
  · have hb' := high (b.toNat - 0x80) (by have := b.toNat_lt; omega)
    rwa [Nat.add_sub_cancel' hb, UInt8.ofNat_toNat] at hb'

/-! ### Texts -/

theorem utf8_number (n : Number) : utf8 (n.text Python.dialect) = n.text dialect := by
  have digits : ∀ d : Digits, utf8 (d.text Python.dialect) = d.text dialect := by
    intro d
    refine utf8_map_ch fun c hc => ?_
    have hlow := lt_of_isDigit (d.digits c hc)
    omega
  have hsign : utf8 (signText Python.dialect n.negative) = signText dialect n.negative := by
    cases n.negative <;> rfl
  have hfrac : utf8 (fracText Python.dialect n.frac) = fracText dialect n.frac := by
    cases n.frac with
    | none => rfl
    | some d => exact (utf8_cons_ch (by decide) _).trans (congrArg _ (digits d))
  have hexp : utf8 (expText Python.dialect n.exp) = expText dialect n.exp := by
    cases n.exp with
    | none => rfl
    | some e =>
      have hsign : utf8 (expSignText Python.dialect e.sign) = expSignText dialect e.sign := by
        rcases e.sign with _ | _ | _ <;> rfl
      have hletter : (if e.upper then 'E' else 'e').toNat < 0x80 := by cases e.upper <;> decide
      rw [expText, expText, Python.dialect_ch, utf8_cons_ch hletter, Python.utf8_append, hsign,
        digits]
      rfl
  rw [Number.text, Number.text, Python.utf8_append, Python.utf8_append, Python.utf8_append, hsign,
    digits, hfrac, hexp]

theorem utf8_commaJoin (texts : List Str) :
    utf8 (commaJoin Python.dialect texts) = commaJoin dialect (texts.map utf8) := by
  induction texts with
  | nil => rfl
  | cons s texts ih =>
    cases texts with
    | nil => rfl
    | cons t texts =>
      rw [commaJoin, Python.utf8_append, Python.dialect_ch, utf8_cons_ch (by decide), ih]
      rfl

/-- A body without a backslash has no escapes. -/
theorem body_plain {body : List (Piece CodePoint)} (hb : ∀ p ∈ body, p.Valid Python.dialect)
    (h : Python.ch '\\' ∉ bodyText Python.dialect body) :
    ∀ c ∈ bodyText Python.dialect body, Python.dialect.plain c = true := by
  intro c hc
  obtain ⟨p, hp, hcp⟩ := List.mem_flatMap.mp hc
  have hback : Python.ch '\\' ∉ p.text Python.dialect := fun hmem =>
    h (List.mem_flatMap.mpr ⟨p, hp, hmem⟩)
  cases p with
  | plain a =>
    obtain rfl := List.mem_singleton.mp hcp
    exact hb _ hp
  | escape e => exact absurd (by simp [Piece.text]) hback
  | unicode => exact absurd (by simp [Piece.text]) hback

/-- The bytes of a string literal. -/
theorem utf8_quoted (body : List (Piece CodePoint)) :
    utf8 (quoted Python.dialect body) =
      quoted dialect ((utf8 (bodyText Python.dialect body)).map .plain) := by
  rw [quoted, quoted, bodyText_plain, Python.dialect_ch, utf8_cons_ch (by decide), Python.utf8_append,
    utf8_ch (by decide)]
  rfl

def Item.utf8 (i : Item CodePoint) : Item UInt8 where
  before := Python.utf8 i.before
  value := Python.utf8 i.value
  after := Python.utf8 i.after

theorem Item.utf8_text (i : Json.Item CodePoint) :
    Python.utf8 i.text = (Item.utf8 i).text := by
  simp [Json.Item.text, Item.utf8]

def Member.utf8 (m : Member CodePoint) : Member UInt8 where
  before := Python.utf8 m.before
  name := (Python.utf8 (Python.nameOf m)).map .plain
  afterName := Python.utf8 m.afterName
  beforeValue := Python.utf8 m.beforeValue
  value := Python.utf8 m.value
  after := Python.utf8 m.after

theorem Member.utf8_text (m : Json.Member CodePoint) :
    Python.utf8 (m.text Python.dialect) = (Member.utf8 m).text dialect := by
  have hcolon : ∀ s, Python.utf8 (Python.ch ':' :: s) = chr ':' :: Python.utf8 s :=
    utf8_cons_ch (by decide)
  simp only [Json.Member.text, Member.utf8, Python.utf8_append, utf8_quoted, Python.dialect_ch,
    hcolon, dialect_ch, Python.nameOf]

theorem spaced_item {i : Json.Item CodePoint} (h : i.Spaced Python.dialect) :
    (Item.utf8 i).Spaced dialect := ⟨spaces_utf8 h.1, spaces_utf8 h.2⟩

theorem spaced_member {m : Json.Member CodePoint} (h : m.Spaced Python.dialect) :
    (Member.utf8 m).Spaced dialect :=
  ⟨spaces_utf8 h.1, spaces_utf8 h.2.1, spaces_utf8 h.2.2.1, spaces_utf8 h.2.2.2⟩

theorem valid_name {m : Json.Member CodePoint} (h : ∀ p ∈ m.name, p.Valid Python.dialect)
    (hback : Python.ch '\\' ∉ m.text Python.dialect) :
    ∀ p ∈ (Member.utf8 m).name, p.Valid dialect := by
  have hname : Python.ch '\\' ∉ Python.nameOf m := fun hmem =>
    hback (by simp [Json.Member.text, quoted, show _ ∈ bodyText Python.dialect m.name from hmem])
  intro p hp
  obtain ⟨b, hb, rfl⟩ := List.mem_map.mp hp
  exact plain_utf8 (body_plain h hname) b hb

/-! ### Values -/

/-- The value has none of the constants in it, and its bytes are a value for the scanner. -/
def Reads (d : Nat) (v : Str) : Prop :=
  Value Python.strictDialect jsonMaxDepth d v ∧ Value dialect jsonMaxDepth d (utf8 v)

/-- The scanner gives up within the value. -/
def Blocks (d : Nat) (v : Str) : Prop :=
  ∀ fuel rest, (utf8 v).length ≤ fuel → skipValue fuel d (utf8 v ++ rest) = none

theorem skipValue_none {fuel d : Nat} {b : UInt8} {s : Bytes} (hb : isspace b = false)
    (hne : b ≠ chr '"' ∧ b ≠ chr '{' ∧ b ≠ chr '[') (h : skipAtom (b :: s) = none) :
    skipValue fuel d (b :: s) = none := by
  cases fuel with
  | zero => rfl
  | succ fuel =>
    rw [skipValue, skipSpace_cons hb]
    split_ifs
    · rfl
    · simpa [hne] using h

theorem word_reads_or_blocks {d : Nat} (hd : d ≤ jsonMaxDepth) :
    ∀ w ∈ Python.dialect.words, Reads d w ∨ Blocks d w := by
  have known : ∀ {w : String}, w.toList.all (fun c => c.toNat < 0x80) = true →
      Python.str w ∈ Python.strictDialect.words → text w ∈ dialect.words →
      Reads d (Python.str w) := by
    intro w hw hstrict hword
    refine ⟨.word hstrict hd, ?_⟩
    rw [utf8_str (Python.ascii_of_all hw)]
    exact .word hword hd
  have unknown : ∀ {w : String} {b : UInt8} {s : Bytes}, w.toList.all (fun c => c.toNat < 0x80) = true →
      text w = b :: s → isspace b = false ∧ b ≠ chr '"' ∧ b ≠ chr '{' ∧ b ≠ chr '[' →
      (∀ rest, skipAtom (b :: (s ++ rest)) = none) → Blocks d (Python.str w) := by
    intro w b s hw htext hb hatom fuel rest _
    rw [utf8_str (Python.ascii_of_all hw), htext, List.cons_append]
    exact skipValue_none hb.1 hb.2 (hatom rest)
  simp only [Python.dialect, List.forall_mem_cons, List.not_mem_nil, false_implies, implies_true,
    and_true]
  refine ⟨.inl (known rfl (by decide) (by decide)),
    .inl (known rfl (by decide) (by decide)),
    .inl (known rfl (by decide) (by decide)), .inr ?_, .inr ?_, .inr ?_⟩
  · exact unknown (b := chr 'N') (s := text "aN") rfl rfl (by decide) fun _ => rfl
  · exact unknown (b := chr 'I') (s := text "nfinity") rfl rfl (by decide) fun _ => rfl
  · exact unknown (b := chr '-') (s := text "Infinity") rfl rfl (by decide) fun _ => rfl

theorem Blocks.space {d : Nat} {v : Str} (h : Blocks d v) {ws : Bytes} (hws : Spaces dialect ws)
    {fuel : Nat} (hf : (utf8 v).length ≤ fuel) (rest : Bytes) :
    skipValue fuel d (ws ++ (utf8 v ++ rest)) = none := by
  rw [skipValue_space hws]
  exact h fuel rest hf

theorem skipItems_blocked {d : Nat} {items : List (Json.Item CodePoint)}
    (hs : ∀ i ∈ items, i.Spaced Python.dialect)
    (hv : ∀ i ∈ items, Reads (d + 1) i.value ∨ Blocks (d + 1) i.value)
    (hblock : ∃ i ∈ items, ¬Reads (d + 1) i.value) (fuel : Nat)
    (hf : (commaJoin dialect ((items.map Item.utf8).map Json.Item.text)).length + 1 ≤ fuel)
    (rest : Bytes) :
    skipItems fuel d (commaJoin dialect ((items.map Item.utf8).map Json.Item.text) ++ rest) =
      none := by
  induction items generalizing fuel with
  | nil => simp at hblock
  | cons i items ih =>
    obtain ⟨fuel, rfl⟩ := Nat.exists_eq_succ_of_ne_zero (show fuel ≠ 0 by omega)
    have hi := spaced_item (hs i List.mem_cons_self)
    rcases hv i List.mem_cons_self with hreads | hblocks
    · have hmore : ∃ j ∈ items, ¬Reads (d + 1) j.value := by
        obtain ⟨j, hj, hjv⟩ := hblock
        rcases List.mem_cons.mp hj with rfl | hj
        · exact absurd hreads hjv
        · exact ⟨j, hj, hjv⟩
      have hne : (items.map Item.utf8).map Json.Item.text ≠ [] := by
        obtain ⟨j, hj, -⟩ := hmore
        simpa using List.ne_nil_of_mem hj
      have hcomma : chr ',' ≠ chr ']' := by decide
      rw [List.map_cons, List.map_cons, commaJoin_cons _ hne] at hf ⊢
      rw [List.length_append, List.length_cons] at hf
      rw [List.append_assoc, List.cons_append, dialect_ch,
        skipItems_step hi (skipValue_complete hreads.2) _ (by omega) (.inl rfl), if_neg hcomma]
      exact ih (fun k hk => hs k (List.mem_cons_of_mem _ hk))
        (fun k hk => hv k (List.mem_cons_of_mem _ hk)) hmore _ (by omega)
    · obtain ⟨more, hmore⟩ := commaJoin_first (G := dialect) (Item.utf8 i).text
        ((items.map Item.utf8).map Json.Item.text)
      rw [List.map_cons, List.map_cons, hmore, List.length_append] at hf
      have hvalue : (utf8 i.value).length ≤ fuel := by
        simp only [Json.Item.text, Item.utf8, List.length_append] at hf
        omega
      have hnone := hblocks.space hi.1 hvalue ((Item.utf8 i).after ++ (more ++ rest))
      rw [List.map_cons, List.map_cons, hmore, skipItems]
      simp only [Json.Item.text, Item.utf8, List.append_assoc] at hnone ⊢
      rw [hnone]

theorem skipMembers_blocked {d : Nat} {members : List (Json.Member CodePoint)}
    (hs : ∀ m ∈ members, m.Spaced Python.dialect)
    (hn : ∀ m ∈ members, ∀ p ∈ (Member.utf8 m).name, p.Valid dialect)
    (hv : ∀ m ∈ members, Reads (d + 1) m.value ∨ Blocks (d + 1) m.value)
    (hblock : ∃ m ∈ members, ¬Reads (d + 1) m.value) (fuel : Nat)
    (hf : (commaJoin dialect ((members.map Member.utf8).map
      (Json.Member.text dialect))).length + 1 ≤ fuel) (rest : Bytes) :
    skipMembers fuel d (skipSpace (commaJoin dialect
      ((members.map Member.utf8).map (Json.Member.text dialect)) ++ rest)) = none := by
  induction members generalizing fuel with
  | nil => simp at hblock
  | cons m members ih =>
    obtain ⟨fuel, rfl⟩ := Nat.exists_eq_succ_of_ne_zero (show fuel ≠ 0 by omega)
    have hm := spaced_member (hs m List.mem_cons_self)
    have hname := hn m List.mem_cons_self
    rcases hv m List.mem_cons_self with hreads | hblocks
    · have hmore : ∃ k ∈ members, ¬Reads (d + 1) k.value := by
        obtain ⟨k, hk, hkv⟩ := hblock
        rcases List.mem_cons.mp hk with rfl | hk
        · exact absurd hreads hkv
        · exact ⟨k, hk, hkv⟩
      have hne : (members.map Member.utf8).map (Json.Member.text dialect) ≠ [] := by
        obtain ⟨k, hk, -⟩ := hmore
        simpa using List.ne_nil_of_mem hk
      have hcomma : chr ',' ≠ chr '}' := by decide
      rw [List.map_cons, List.map_cons, commaJoin_cons _ hne] at hf ⊢
      rw [List.length_append, List.length_cons] at hf
      rw [List.append_assoc, List.cons_append, dialect_ch,
        skipMembers_step hm hname (skipValue_complete hreads.2) _ (by omega) (.inl rfl),
        if_neg hcomma]
      exact ih (fun k hk => hs k (List.mem_cons_of_mem _ hk))
        (fun k hk => hn k (List.mem_cons_of_mem _ hk))
        (fun k hk => hv k (List.mem_cons_of_mem _ hk)) hmore _ (by omega)
    · obtain ⟨more, hmore⟩ := commaJoin_first (G := dialect) ((Member.utf8 m).text dialect)
        ((members.map Member.utf8).map (Json.Member.text dialect))
      rw [List.map_cons, List.map_cons, hmore, List.length_append] at hf
      have hvalue : (utf8 m.value).length ≤ fuel := by
        simp only [Json.Member.text, Member.utf8, List.length_append, List.length_cons] at hf
        omega
      have hnone := hblocks.space hm.2.2.1 hvalue ((Member.utf8 m).after ++ (more ++ rest))
      have hquote : ∀ t, skipSpace (quoted dialect (Member.utf8 m).name ++ t) =
          quoted dialect (Member.utf8 m).name ++ t := fun t => skipSpace_cons (by decide) _
      rw [List.map_cons, List.map_cons, hmore]
      simp only [Json.Member.text, List.append_assoc, List.cons_append, skipSpace_append hm.1,
        hquote]
      rw [skipMembers, skipJsonString_complete hname]
      simp only [skipSpace_append hm.2.1]
      rw [dialect_ch, skipSpace_cons (by decide)]
      simp only [ne_eq, not_true_eq_false, if_false]
      have hvalue : (Member.utf8 m).value = utf8 m.value := rfl
      rw [hvalue, hnone]

/-- The first byte of a value that `json.loads` takes. -/
theorem utf8_value_head {limit d : Nat} {v : Str} (h : Value Python.dialect limit d v) :
    ∃ b t, utf8 v = b :: t ∧ isspace b = false ∧ b ≠ chr ']' ∧ b ≠ chr '}' := by
  have head : ∀ {c : Char} {t : Str}, c.toNat < 0x80 →
      isspace (chr c) = false ∧ chr c ≠ chr ']' ∧ chr c ≠ chr '}' → v = Python.ch c :: t →
      ∃ b t, utf8 v = b :: t ∧ isspace b = false ∧ b ≠ chr ']' ∧ b ≠ chr '}' := by
    rintro c t hc hb rfl
    exact ⟨chr c, utf8 t, utf8_cons_ch hc t, hb⟩
  cases h with
  | string body => exact head (c := '"') (by decide) (by decide) rfl
  | number n =>
    obtain ⟨b, t, ht, hb⟩ := number_head n
    have hne := ne_of_number_head hb
    rw [utf8_number]
    exact ⟨b, t, ht, hne.2.2.2.2.2.2.2.2, hne.2.2.2.2.2.2.2.1, hne.2.2.2.2.2.2.1⟩
  | word hw =>
    simp only [Python.dialect, List.mem_cons, List.not_mem_nil, or_false] at hw
    rcases hw with rfl | rfl | rfl | rfl | rfl | rfl
    · exact head (c := 'n') (by decide) (by decide) rfl
    · exact head (c := 't') (by decide) (by decide) rfl
    · exact head (c := 'f') (by decide) (by decide) rfl
    · exact head (c := 'N') (by decide) (by decide) rfl
    · exact head (c := 'I') (by decide) (by decide) rfl
    · exact head (c := '-') (by decide) (by decide) rfl
  | emptyArray ws => exact head (c := '[') (by decide) (by decide) rfl
  | array items => exact head (c := '[') (by decide) (by decide) rfl
  | emptyObject ws => exact head (c := '{') (by decide) (by decide) rfl
  | object members => exact head (c := '{') (by decide) (by decide) rfl

theorem strict_commaJoin (texts : List Str) :
    commaJoin Python.strictDialect texts = commaJoin Python.dialect texts := by
  induction texts with
  | nil => rfl
  | cons s texts ih =>
    cases texts with
    | nil => rfl
    | cons t texts =>
      rw [commaJoin, commaJoin, ih]
      rfl

def itemsText (items : List (Json.Item CodePoint)) : Bytes :=
  commaJoin dialect ((items.map Item.utf8).map Json.Item.text)

def membersText (members : List (Json.Member CodePoint)) : Bytes :=
  commaJoin dialect ((members.map Member.utf8).map (Json.Member.text dialect))

theorem utf8_items (items : List (Json.Item CodePoint)) :
    utf8 (commaJoin Python.dialect (items.map Json.Item.text)) = itemsText items := by
  rw [utf8_commaJoin, itemsText, List.map_map, List.map_map]
  exact congrArg _ (List.map_congr_left fun i _ => Item.utf8_text i)

theorem utf8_members (members : List (Json.Member CodePoint)) :
    utf8 (commaJoin Python.dialect (members.map (Json.Member.text Python.dialect))) =
      membersText members := by
  rw [utf8_commaJoin, membersText, List.map_map, List.map_map]
  exact congrArg _ (List.map_congr_left fun m _ => Member.utf8_text m)

theorem array_text (items : List (Json.Item CodePoint)) :
    utf8 (Python.ch '[' :: (commaJoin Python.dialect (items.map Json.Item.text) ++
      [Python.ch ']'])) = chr '[' :: (itemsText items ++ [chr ']']) := by
  rw [utf8_cons_ch (by decide), Python.utf8_append, utf8_items, utf8_ch (by decide)]

theorem object_text (members : List (Json.Member CodePoint)) :
    utf8 (Python.ch '{' :: (commaJoin Python.dialect
      (members.map (Json.Member.text Python.dialect)) ++ [Python.ch '}'])) =
      chr '{' :: (membersText members ++ [chr '}']) := by
  rw [utf8_cons_ch (by decide), Python.utf8_append, utf8_members, utf8_ch (by decide)]

theorem string_reads {d : Nat} (hd : d ≤ jsonMaxDepth) {body : List (Piece CodePoint)}
    (hb : ∀ p ∈ body, p.Valid Python.dialect)
    (hback : Python.ch '\\' ∉ quoted Python.dialect body) :
    Reads d (quoted Python.dialect body) := by
  have hbody : Python.ch '\\' ∉ bodyText Python.dialect body := fun hmem =>
    hback (by simp [quoted, hmem])
  refine ⟨.string body hd hb, ?_⟩
  rw [utf8_quoted]
  refine .string _ hd fun p hp => ?_
  obtain ⟨b, hmem, rfl⟩ := List.mem_map.mp hp
  exact plain_utf8 (body_plain hb hbody) b hmem

theorem number_reads {d : Nat} (n : Number) (hd : d ≤ jsonMaxDepth) :
    Reads d (n.text Python.dialect) := by
  refine ⟨.number n hd, ?_⟩
  rw [utf8_number]
  exact .number n hd

theorem array_reads {d : Nat} {items : List (Json.Item CodePoint)} (hne : items ≠ [])
    (hd : d ≤ jsonMaxDepth) (hs : ∀ i ∈ items, i.Spaced Python.dialect)
    (hall : ∀ i ∈ items, Reads (d + 1) i.value) :
    Reads d (Python.ch '[' :: (commaJoin Python.dialect (items.map Json.Item.text) ++
      [Python.ch ']'])) := by
  have hstrict := Value.array (G := Python.strictDialect) items hne hd hs
    fun i hi => (hall i hi).1
  rw [strict_commaJoin] at hstrict
  refine ⟨hstrict, ?_⟩
  rw [array_text]
  exact .array (items.map Item.utf8) (by simpa using hne) hd
    (List.forall_mem_map.mpr fun i hi => spaced_item (hs i hi))
    (List.forall_mem_map.mpr fun i hi => (hall i hi).2)

theorem object_reads {d : Nat} {members : List (Json.Member CodePoint)}
    (hne : members ≠ []) (hd : d ≤ jsonMaxDepth)
    (hs : ∀ m ∈ members, m.Spaced Python.dialect)
    (hn : ∀ m ∈ members, ∀ p ∈ m.name, p.Valid Python.dialect)
    (hn' : ∀ m ∈ members, ∀ p ∈ (Member.utf8 m).name, p.Valid dialect)
    (hall : ∀ m ∈ members, Reads (d + 1) m.value) :
    Reads d (Python.ch '{' :: (commaJoin Python.dialect
      (members.map (Json.Member.text Python.dialect)) ++ [Python.ch '}'])) := by
  have hstrict := Value.object (G := Python.strictDialect) members hne hd hs hn
    fun m hm => (hall m hm).1
  rw [strict_commaJoin] at hstrict
  refine ⟨hstrict, ?_⟩
  rw [object_text]
  exact .object (members.map Member.utf8) (by simpa using hne) hd
    (List.forall_mem_map.mpr fun m hm => spaced_member (hs m hm))
    (List.forall_mem_map.mpr hn') (List.forall_mem_map.mpr fun m hm => (hall m hm).2)

theorem empty_reads {d : Nat} {ws : Str} (hd : d ≤ jsonMaxDepth) (hs : Spaces Python.dialect ws) :
    Reads d (Python.ch '[' :: (ws ++ [Python.ch ']'])) ∧
      Reads d (Python.ch '{' :: (ws ++ [Python.ch '}'])) := by
  refine ⟨⟨.emptyArray ws hd hs, ?_⟩, .emptyObject ws hd hs, ?_⟩
  · rw [utf8_cons_ch (by decide), Python.utf8_append]
    exact .emptyArray _ hd (spaces_utf8 hs)
  · rw [utf8_cons_ch (by decide), Python.utf8_append]
    exact .emptyObject _ hd (spaces_utf8 hs)

theorem array_blocks {d : Nat} {items : List (Json.Item CodePoint)} (hne : items ≠ [])
    (hs : ∀ i ∈ items, i.Spaced Python.dialect)
    (hv : ∀ i ∈ items, Value Python.dialect jsonMaxDepth (d + 1) i.value)
    (hitems : ∀ i ∈ items, Reads (d + 1) i.value ∨ Blocks (d + 1) i.value)
    (hblock : ∃ i ∈ items, ¬Reads (d + 1) i.value) :
    Blocks d (Python.ch '[' :: (commaJoin Python.dialect (items.map Json.Item.text) ++
      [Python.ch ']'])) := by
  intro fuel rest hf
  rw [array_text] at hf ⊢
  cases fuel with
  | zero => rfl
  | succ fuel =>
    have hblocked := skipItems_blocked hs hitems hblock fuel (by
      simp only [itemsText, List.length_cons, List.length_append] at hf
      omega) (chr ']' :: rest)
    obtain ⟨b, s, hb, hb1, -⟩ := commaJoin_head ((items.map Item.utf8).map Json.Item.text)
      (by
        intro t ht
        obtain ⟨j, hj, rfl⟩ := List.mem_map.mp ht
        obtain ⟨i, hi, rfl⟩ := List.mem_map.mp hj
        obtain ⟨b, t, hbt, hb⟩ := utf8_value_head (hv i hi)
        exact ⟨utf8 i.before, b, t ++ utf8 i.after, by simp [Json.Item.text, Item.utf8, hbt],
          spaces_utf8 (hs i hi).1, hb⟩) (by simpa using hne) (chr ']' :: rest)
    rw [← skipItems_skipSpace, hb] at hblocked
    rw [skipValue, List.cons_append, skipSpace_cons (by decide)]
    have hquote : chr '[' ≠ chr '"' ∧ chr '[' ≠ chr '{' := by decide
    simp only [hquote, if_false, if_true, itemsText, List.append_assoc, List.cons_append,
      List.nil_append, hb, hb1, hblocked]
    split_ifs <;> rfl

theorem object_blocks {d : Nat} {members : List (Json.Member CodePoint)} (hne : members ≠ [])
    (hs : ∀ m ∈ members, m.Spaced Python.dialect)
    (hn : ∀ m ∈ members, ∀ p ∈ (Member.utf8 m).name, p.Valid dialect)
    (hmembers : ∀ m ∈ members, Reads (d + 1) m.value ∨ Blocks (d + 1) m.value)
    (hblock : ∃ m ∈ members, ¬Reads (d + 1) m.value) :
    Blocks d (Python.ch '{' :: (commaJoin Python.dialect
      (members.map (Json.Member.text Python.dialect)) ++ [Python.ch '}'])) := by
  intro fuel rest hf
  rw [object_text] at hf ⊢
  cases fuel with
  | zero => rfl
  | succ fuel =>
    have hblocked := skipMembers_blocked hs hn hmembers hblock fuel (by
      simp only [membersText, List.length_cons, List.length_append] at hf
      omega) (chr '}' :: rest)
    obtain ⟨b, s, hb, -, hb1⟩ := commaJoin_head
      ((members.map Member.utf8).map (Json.Member.text dialect))
      (by
        intro t ht
        obtain ⟨j, hj, rfl⟩ := List.mem_map.mp ht
        obtain ⟨m, hm, rfl⟩ := List.mem_map.mp hj
        exact ⟨utf8 m.before, chr '"', _, rfl, spaces_utf8 (hs m hm).1, by decide⟩)
      (by simpa using hne) (chr '}' :: rest)
    rw [hb] at hblocked
    rw [skipValue, List.cons_append, skipSpace_cons (by decide)]
    have hquote : chr '{' ≠ chr '"' := by decide
    simp only [hquote, if_false, if_true, membersText, List.append_assoc, List.cons_append,
      List.nil_append, hb, hb1, hblocked]
    split_ifs <;> rfl

theorem not_mem_item {items : List (Json.Item CodePoint)}
    (h : Python.ch '\\' ∉ Python.ch '[' :: (commaJoin Python.dialect
      (items.map Json.Item.text) ++ [Python.ch ']'])) :
    ∀ i ∈ items, Python.ch '\\' ∉ i.value := fun _ hi hc =>
  h (List.mem_cons_of_mem _ (List.mem_append_left _ (mem_commaJoin (List.mem_map_of_mem hi)
    (List.mem_append_right _ (List.mem_append_left _ hc)))))

theorem not_mem_member {members : List (Json.Member CodePoint)}
    (h : Python.ch '\\' ∉ Python.ch '{' :: (commaJoin Python.dialect
      (members.map (Json.Member.text Python.dialect)) ++ [Python.ch '}'])) :
    ∀ m ∈ members, Python.ch '\\' ∉ m.text Python.dialect := fun _ hm hc =>
  h (List.mem_cons_of_mem _ (List.mem_append_left _ (mem_commaJoin (List.mem_map_of_mem hm) hc)))

theorem mem_member_value {m : Json.Member CodePoint} {c : CodePoint} (h : c ∈ m.value) :
    c ∈ m.text Python.dialect := by
  simp [Json.Member.text, h]

/-- Every value that `json.loads` takes is one for the scanner, or the scanner stops in it. -/
theorem reads_or_blocks {d : Nat} {v : Str} (h : Value Python.dialect jsonMaxDepth d v)
    (hback : Python.ch '\\' ∉ v) : Reads d v ∨ Blocks d v := by
  induction h with
  | string body hd hb => exact .inl (string_reads hd hb hback)
  | number n hd => exact .inl (number_reads n hd)
  | word hw hd => exact word_reads_or_blocks hd _ hw
  | emptyArray ws hd hs => exact .inl (empty_reads hd hs).1
  | @array d items hne hd hs hv ih =>
    have hitems := fun i (hi : i ∈ items) => ih i hi (not_mem_item hback i hi)
    by_cases hall : ∀ i ∈ items, Reads (d + 1) i.value
    · exact .inl (array_reads hne hd hs hall)
    · push Not at hall
      exact .inr (array_blocks hne hs hv hitems hall)
  | emptyObject ws hd hs => exact .inl (empty_reads hd hs).2
  | @object d members hne hd hs hn hv ih =>
    have hmember := not_mem_member hback
    have hmembers := fun m hm => ih m hm fun hc => hmember m hm (mem_member_value hc)
    have hn' := fun m hm => valid_name (hn m hm) (hmember m hm)
    by_cases hall : ∀ m ∈ members, Reads (d + 1) m.value
    · exact .inl (object_reads hne hd hs hn hn' hall)
    · push Not at hall
      exact .inr (object_blocks hne hs hn' hmembers hall)

/-- Without the constants the scanner takes every value. -/
theorem reads_of_strict {d : Nat} {v : Str} (h : Value Python.strictDialect jsonMaxDepth d v)
    (hback : Python.ch '\\' ∉ v) : Reads d v := by
  induction h with
  | string body hd hb => exact string_reads hd hb hback
  | number n hd => exact number_reads n hd
  | @word d w hw hd =>
    refine ⟨.word hw hd, ?_⟩
    simp only [Python.strictDialect, List.mem_cons, List.not_mem_nil, or_false] at hw
    rcases hw with rfl | rfl | rfl
    · exact .word (w := text "null") (by decide) hd
    · exact .word (w := text "true") (by decide) hd
    · exact .word (w := text "false") (by decide) hd
  | emptyArray ws hd hs => exact (empty_reads hd hs).1
  | array items hne hd hs hv ih =>
    rw [strict_commaJoin] at hback ⊢
    exact array_reads hne hd hs fun _ hi => ih _ hi (not_mem_item hback _ hi)
  | emptyObject ws hd hs => exact (empty_reads hd hs).2
  | object members hne hd hs hn hv ih =>
    rw [strict_commaJoin] at hback ⊢
    have hmember := not_mem_member hback
    exact object_reads hne hd hs hn (fun m hm => valid_name (hn m hm) (hmember m hm))
      fun m hm => ih m hm fun hc => hmember m hm (mem_member_value hc)

theorem reads_iff {d : Nat} {v : Str} (hback : Python.ch '\\' ∉ v) :
    Reads d v ↔ Value Python.strictDialect jsonMaxDepth d v :=
  ⟨fun h => h.1, fun h => reads_of_strict h hback⟩

end Msys.Mipc
