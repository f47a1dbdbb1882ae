import MsysSdk.Mipc.Tokens

/-! `skip_json_value` accepts the JSON values within its depth limit and no other text. -/

namespace Msys.Mipc
open Libc Json

/-! ### Words -/

theorem skipWord_iff {w s rest : Bytes} : skipWord w s = some rest ↔ s = w ++ rest := by
  unfold skipWord
  split_ifs with h
  · obtain ⟨t, rfl⟩ := List.isPrefixOf_iff_prefix.mp h
    simp
  · simp only [false_iff]
    rintro rfl
    exact h (List.isPrefixOf_iff_prefix.mpr (List.prefix_append _ _))

theorem skipWord_ne {a b : UInt8} (h : a ≠ b) (w s : Bytes) :
    skipWord (a :: w) (b :: s) = none := by
  rw [Option.eq_none_iff_forall_ne_some]
  intro rest hr
  exact h (List.cons.inj (skipWord_iff.mp hr)).1.symm

theorem text_words : text "true" = chr 't' :: text "rue" ∧ text "false" = chr 'f' :: text "alse" ∧
    text "null" = chr 'n' :: text "ull" := by decide

theorem skipAtom_word {w : Bytes} (h : w ∈ dialect.words) (rest : Bytes) :
    skipAtom (w ++ rest) = some rest := by
  obtain ⟨ht, hf, hn⟩ := text_words
  have hne : chr 't' ≠ chr 'f' ∧ chr 't' ≠ chr 'n' ∧ chr 'f' ≠ chr 'n' := by decide
  have self : ∀ w : Bytes, skipWord w (w ++ rest) = some rest := fun w => skipWord_iff.mpr rfl
  simp only [dialect, List.mem_cons, List.not_mem_nil, or_false] at h
  rcases h with rfl | rfl | rfl
  · simp [skipAtom, self]
  · have h1 : skipWord (text "true") (text "false" ++ rest) = none := by
      rw [ht, hf]
      exact skipWord_ne hne.1 _ _
    simp [skipAtom, self, h1]
  · have h1 : skipWord (text "true") (text "null" ++ rest) = none := by
      rw [ht, hn]
      exact skipWord_ne hne.2.1 _ _
    have h2 : skipWord (text "false") (text "null" ++ rest) = none := by
      rw [hf, hn]
      exact skipWord_ne hne.2.2 _ _
    simp [skipAtom, self, h1, h2]

/-- A number begins with a minus sign or a digit. -/
theorem number_head (n : Number) : ∃ b t, n.text dialect = b :: t ∧
    (b = chr '-' ∨ isdigit b = true) := by
  obtain ⟨c, cs, hc⟩ := List.exists_cons_of_ne_nil n.int.nonempty
  have hd := isdigit_chr (n.int.digits c (by simp [hc]))
  cases h : n.negative with
  | true =>
    refine ⟨chr '-', n.int.text dialect ++ (fracText dialect n.frac ++ expText dialect n.exp), ?_,
      .inl rfl⟩
    simp [Number.text, signText, h]
  | false =>
    refine ⟨chr c, cs.map chr ++ (fracText dialect n.frac ++ expText dialect n.exp), ?_, .inr hd⟩
    simp [Number.text, signText, h, Json.Digits.text, hc]

theorem ne_of_number_head {b : UInt8} (h : b = chr '-' ∨ isdigit b = true) :
    b ≠ chr 't' ∧ b ≠ chr 'f' ∧ b ≠ chr 'n' ∧ b ≠ chr '"' ∧ b ≠ chr '{' ∧ b ≠ chr '[' ∧
      b ≠ chr '}' ∧ b ≠ chr ']' ∧ isspace b = false := by
  rcases h with rfl | h
  · decide
  · refine ⟨?_, ?_, ?_, ?_, ?_, ?_, ?_, ?_, ?_⟩
    · rintro rfl; revert h; decide
    · rintro rfl; revert h; decide
    · rintro rfl; revert h; decide
    · rintro rfl; revert h; decide
    · rintro rfl; revert h; decide
    · rintro rfl; revert h; decide
    · rintro rfl; revert h; decide
    · rintro rfl; revert h; decide
    · simp only [isdigit, Ascii.isDigit, Bool.and_eq_true, decide_eq_true_eq] at h
      simp only [isspace, Ascii.isSpace, Bool.or_eq_false_iff, decide_eq_false_iff_not,
        Bool.and_eq_false_iff]
      omega

theorem skipAtom_number {n : Number} {rest : Bytes} (h : n.Stops dialect rest) :
    skipAtom (n.text dialect ++ rest) = some rest := by
  obtain ⟨b, t, hb, hhead⟩ := number_head n
  have hnum := skipNumber_complete h
  obtain ⟨ht, hf, hn⟩ := text_words
  obtain ⟨h1, h2, h3, -⟩ := ne_of_number_head hhead
  rw [hb] at hnum ⊢
  rw [skipAtom, ht, hf, hn]
  simp only [List.cons_append] at hnum ⊢
  rw [skipWord_ne h1.symm, skipWord_ne h2.symm, skipWord_ne h3.symm]
  simpa [hhead] using hnum

theorem ends_of_head {b : UInt8} {v rest : Bytes} (h : b ≠ chr '-' ∧ isdigit b = false) :
    Ends dialect (b :: v) rest := by
  rintro ⟨n, hn⟩
  obtain ⟨c, t, hc, hhead⟩ := number_head n
  obtain ⟨rfl, -⟩ := List.cons.inj (hn.trans hc)
  simp [h] at hhead

/-- A comma or a closing bracket ends any value, also after white space. -/
theorem ends_of_delimiter {v ws rest : Bytes} {b : UInt8} (hs : Spaces dialect ws)
    (hb : b = chr ',' ∨ b = chr ']' ∨ b = chr '}') : Ends dialect v (ws ++ b :: rest) := by
  rintro ⟨n, hn⟩
  refine ⟨n, hn, ?_⟩
  -- whatever stands first is no part of a number
  have key : ∀ p : UInt8 → Bool, (∀ c, isspace c = true → p c = false) →
      p (chr ',') = false → p (chr ']') = false → p (chr '}') = false →
      startsWith p (ws ++ b :: rest) = false := by
    intro p hspace h1 h2 h3
    cases ws with
    | nil => rcases hb with rfl | rfl | rfl <;> assumption
    | cons c ws => exact hspace c (hs c List.mem_cons_self)
  have space : ∀ c, isspace c = true → isdigit c = false ∧ c ≠ chr '.' ∧ c ≠ chr 'e' ∧
      c ≠ chr 'E' := by
    intro c hc
    refine ⟨?_, ?_, ?_, ?_⟩
    · by_contra hd
      have := (ne_of_number_head (.inr (by simpa using hd))).2.2.2.2.2.2.2.2
      simp [hc] at this
    · rintro rfl; revert hc; decide
    · rintro rfl; revert hc; decide
    · rintro rfl; revert hc; decide
  have hdigit := key isdigit (fun c hc => (space c hc).1) (by decide) (by decide) (by decide)
  have hpoint := key (· = chr '.') (fun c hc => by simp [(space c hc).2.1]) (by decide)
    (by decide) (by decide)
  have he := key (fun c => c = chr 'e' || c = chr 'E')
    (fun c hc => by simp [(space c hc).2.2.1, (space c hc).2.2.2]) (by decide) (by decide) (by decide)
  simp only [Number.Stops, not_begins_digit, not_begins_point, not_begins_e]
  exact ⟨fun _ => he, fun _ _ => hpoint, fun _ _ _ => hdigit, fun _ => hdigit⟩

/-! ### Containers -/

theorem skipValue_space {ws : Bytes} (h : Spaces dialect ws) (fuel depth : Nat) (s : Bytes) :
    skipValue fuel depth (ws ++ s) = skipValue fuel depth s := by
  cases fuel with
  | zero => rfl
  | succ fuel => rw [skipValue, skipValue, skipSpace_append h]

theorem skipValue_skipSpace (fuel depth : Nat) (s : Bytes) :
    skipValue fuel depth (skipSpace s) = skipValue fuel depth s := by
  obtain ⟨ws, hws, hs⟩ := skipSpace_split s
  conv_rhs => rw [hs, skipValue_space hws]

theorem skipItems_skipSpace (fuel depth : Nat) (s : Bytes) :
    skipItems fuel depth (skipSpace s) = skipItems fuel depth s := by
  cases fuel with
  | zero => rfl
  | succ fuel => rw [skipItems, skipItems, skipValue_skipSpace]

/-- A value begins with what neither white space nor a closing bracket begins with. -/
theorem value_head {limit d : Nat} {v : Bytes} (h : Value dialect limit d v) :
    ∃ b t, v = b :: t ∧ isspace b = false ∧ b ≠ chr ']' ∧ b ≠ chr '}' := by
  cases h with
  | string body => exact ⟨_, _, rfl, by decide⟩
  | number n =>
    obtain ⟨b, t, hb, hhead⟩ := number_head n
    have := ne_of_number_head hhead
    exact ⟨b, t, hb, by tauto⟩
  | word hw =>
    have key : ∀ w ∈ dialect.words, ∃ b t, w = b :: t ∧ isspace b = false ∧ b ≠ chr ']' ∧
        b ≠ chr '}' := by
      simp only [dialect, List.forall_mem_cons, List.not_mem_nil, false_implies, implies_true,
        and_true]
      exact ⟨⟨chr 't', text "rue", by decide⟩, ⟨chr 'f', text "alse", by decide⟩,
        ⟨chr 'n', text "ull", by decide⟩⟩
    exact key v hw
  | emptyArray ws => exact ⟨_, _, rfl, by decide⟩
  | array items => exact ⟨_, _, rfl, by decide⟩
  | emptyObject ws => exact ⟨_, _, rfl, by decide⟩
  | object members => exact ⟨_, _, rfl, by decide⟩

/-- The step over one value, for any text that follows and does not continue it. -/
def Skips (d : Nat) (v : Bytes) : Prop :=
  ∀ fuel rest, v.length ≤ fuel → Ends dialect v rest → skipValue fuel d (v ++ rest) = some rest

/-- One round over an item and the bracket or the comma after it. -/
theorem skipItems_step {d : Nat} {i : Item UInt8} (hs : i.Spaced dialect)
    (hv : Skips (d + 1) i.value) (fuel : Nat) (hf : i.text.length ≤ fuel) {c : UInt8}
    (hc : c = chr ',' ∨ c = chr ']') (rest : Bytes) :
    skipItems (fuel + 1) d (i.text ++ c :: rest) =
      if c = chr ']' then some rest else skipItems fuel d rest := by
  obtain ⟨hbefore, hafter⟩ := hs
  simp only [Item.text, List.length_append] at hf
  have hskip := hv fuel (i.after ++ c :: rest) (by omega)
    (ends_of_delimiter hafter (hc.imp_right .inl))
  have hcs : isspace c = false := by rcases hc with rfl | rfl <;> decide
  simp only [Item.text, List.append_assoc, skipItems, skipValue_space hbefore, hskip,
    skipSpace_append hafter]
  rw [skipSpace_cons hcs]
  rcases hc with rfl | rfl
  · have hcomma : chr ',' ≠ chr ']' := by decide
    simp only [hcomma, if_false, ne_eq, not_true_eq_false, skipItems_skipSpace]
  · simp

theorem skipItems_complete {d : Nat} {items : List (Item UInt8)} (hne : items ≠ [])
    (hs : ∀ i ∈ items, i.Spaced dialect) (hv : ∀ i ∈ items, Skips (d + 1) i.value)
    (fuel : Nat) (hf : (commaJoin dialect (items.map Item.text)).length + 1 ≤ fuel) (rest : Bytes) :
    skipItems fuel d (commaJoin dialect (items.map Item.text) ++ chr ']' :: rest) = some rest := by
  induction items generalizing fuel with
  | nil => exact absurd rfl hne
  | cons i items ih =>
    obtain ⟨fuel, rfl⟩ := Nat.exists_eq_succ_of_ne_zero (show fuel ≠ 0 by omega)
    have step := fun hf c => skipItems_step (hs i List.mem_cons_self) (hv i List.mem_cons_self)
      fuel hf (c := c)
    cases items with
    | nil =>
      simp only [List.map_cons, List.map_nil, commaJoin] at hf ⊢
      rw [step (by omega) _ (.inr rfl), if_pos rfl]
    | cons j items =>
      have hcomma : chr ',' ≠ chr ']' := by decide
      simp only [List.map_cons, commaJoin, List.length_append, List.length_cons] at hf
      have hrest := ih (by simp) (fun k hk => hs k (List.mem_cons_of_mem _ hk))
        (fun k hk => hv k (List.mem_cons_of_mem _ hk)) fuel
        (by simp only [List.map_cons]; omega)
      simp only [List.map_cons, commaJoin, List.append_assoc, List.cons_append, dialect_ch]
        at hrest ⊢
      rw [step (by omega) _ (.inl rfl), if_neg hcomma, hrest]

/-- One round over a member, from its name, and the brace or the comma after it. -/
theorem skipMembers_step {d : Nat} {m : Member UInt8} (hs : m.Spaced dialect)
    (hn : ∀ p ∈ m.name, p.Valid dialect) (hv : Skips (d + 1) m.value) (fuel : Nat)
    (hf : (m.text dialect).length ≤ fuel) {c : UInt8} (hc : c = chr ',' ∨ c = chr '}')
    (rest : Bytes) :
    skipMembers (fuel + 1) d (skipSpace (m.text dialect ++ c :: rest)) =
      if c = chr '}' then some rest else skipMembers fuel d (skipSpace rest) := by
  obtain ⟨hbefore, hname, hvalue, hafter⟩ := hs
  have hquote : ∀ t, skipSpace (quoted dialect m.name ++ t) = quoted dialect m.name ++ t :=
    fun t => skipSpace_cons (by decide) _
  simp only [Member.text, List.length_append, List.length_cons] at hf
  have hskip := hv fuel (m.after ++ c :: rest) (by omega)
    (ends_of_delimiter hafter (hc.imp_right .inr))
  have hcs : isspace c = false := by rcases hc with rfl | rfl <;> decide
  simp only [Member.text, List.append_assoc, List.cons_append, skipSpace_append hbefore, hquote]
  rw [skipMembers, skipJsonString_complete hn]
  simp only [skipSpace_append hname]
  rw [dialect_ch, skipSpace_cons (by decide)]
  simp only [ne_eq, not_true_eq_false, if_false, skipValue_space hvalue, hskip,
    skipSpace_append hafter]
  rw [skipSpace_cons hcs]
  rcases hc with rfl | rfl
  · have hcomma : chr ',' ≠ chr '}' := by decide
    simp only [hcomma, if_false, not_true_eq_false]
  · simp

/-- The loop starts at the name of the first member. -/
theorem skipMembers_complete {d : Nat} {members : List (Member UInt8)} (hne : members ≠ [])
    (hs : ∀ m ∈ members, m.Spaced dialect) (hn : ∀ m ∈ members, ∀ p ∈ m.name, p.Valid dialect)
    (hv : ∀ m ∈ members, Skips (d + 1) m.value) (fuel : Nat)
    (hf : (commaJoin dialect (members.map (Member.text dialect))).length + 1 ≤ fuel)
    (rest : Bytes) :
    skipMembers fuel d (skipSpace (commaJoin dialect (members.map (Member.text dialect)) ++
      chr '}' :: rest)) = some rest := by
  induction members generalizing fuel with
  | nil => exact absurd rfl hne
  | cons m members ih =>
    obtain ⟨fuel, rfl⟩ := Nat.exists_eq_succ_of_ne_zero (show fuel ≠ 0 by omega)
    have step := fun hf c => skipMembers_step (hs m List.mem_cons_self) (hn m List.mem_cons_self)
      (hv m List.mem_cons_self) fuel hf (c := c)
    cases members with
    | nil =>
      simp only [List.map_cons, List.map_nil, commaJoin] at hf ⊢
      rw [step (by omega) _ (.inr rfl), if_pos rfl]
    | cons k members =>
      have hcomma : chr ',' ≠ chr '}' := by decide
      simp only [List.map_cons, commaJoin, List.length_append, List.length_cons] at hf
      have hrest := ih (by simp) (fun j hj => hs j (List.mem_cons_of_mem _ hj))
        (fun j hj => hn j (List.mem_cons_of_mem _ hj))
        (fun j hj => hv j (List.mem_cons_of_mem _ hj)) fuel
        (by simp only [List.map_cons]; omega)
      simp only [List.map_cons, commaJoin, List.append_assoc, List.cons_append, dialect_ch]
        at hrest ⊢
      rw [step (by omega) _ (.inl rfl), if_neg hcomma, hrest]

theorem commaJoin_head (texts : List Bytes) (h : ∀ t ∈ texts, ∃ ws b s, t = ws ++ b :: s ∧
    Spaces dialect ws ∧ isspace b = false ∧ b ≠ chr ']' ∧ b ≠ chr '}') (hne : texts ≠ [])
    (rest : Bytes) : ∃ b s, skipSpace (commaJoin dialect texts ++ rest) = b :: s ∧
      b ≠ chr ']' ∧ b ≠ chr '}' := by
  have key : ∀ t ∈ texts, ∀ more, ∃ b s, skipSpace (t ++ more) = b :: s ∧ b ≠ chr ']' ∧
      b ≠ chr '}' := by
    intro t ht more
    obtain ⟨ws, b, s, rfl, hws, hb, h1, h2⟩ := h t ht
    refine ⟨b, s ++ more, ?_, h1, h2⟩
    rw [List.append_assoc, skipSpace_append hws, List.cons_append, skipSpace_cons hb]
  match texts with
  | [] => exact absurd rfl hne
  | [t] => exact key t (by simp) rest
  | t :: u :: more =>
    rw [commaJoin, List.append_assoc]
    exact key t (by simp) _

/-- Every value is stepped over, with fuel for its length. -/
theorem skipValue_complete {d : Nat} {v : Bytes} (h : Value dialect jsonMaxDepth d v) :
    Skips d v := by
  induction h with
  | @string d body hd hb =>
    intro fuel rest hf _
    obtain ⟨fuel, rfl⟩ := Nat.exists_eq_succ_of_ne_zero (show fuel ≠ 0 by simp [quoted] at hf; omega)
    have hstring := skipJsonString_complete hb rest
    simp only [quoted, List.cons_append] at hstring ⊢
    rw [skipValue, if_neg (Nat.not_lt.mpr hd), skipSpace_cons (by decide)]
    simpa using hstring
  | @number d n hd =>
    intro fuel rest hf hends
    obtain ⟨m, hm, hstop⟩ := hends ⟨n, rfl⟩
    obtain ⟨b, t, hb, hhead⟩ := number_head m
    have hatom := skipAtom_number hstop
    have hne := ne_of_number_head hhead
    rw [hm, hb] at hf ⊢
    rw [hb] at hatom
    obtain ⟨fuel, rfl⟩ := Nat.exists_eq_succ_of_ne_zero (show fuel ≠ 0 by simp at hf; omega)
    simp only [List.cons_append] at hatom ⊢
    rw [skipValue, if_neg (Nat.not_lt.mpr hd), skipSpace_cons (by tauto)]
    simp only [hne, if_false]
    exact hatom
  | @word d w hw hd =>
    intro fuel rest hf _
    have hatom := skipAtom_word hw rest
    have key : ∀ w ∈ dialect.words, ∃ b t, w = b :: t ∧ isspace b = false ∧ b ≠ chr '"' ∧
        b ≠ chr '{' ∧ b ≠ chr '[' := by
      simp only [dialect, List.forall_mem_cons, List.not_mem_nil, false_implies, implies_true,
        and_true]
      exact ⟨⟨chr 't', text "rue", by decide⟩, ⟨chr 'f', text "alse", by decide⟩,
        ⟨chr 'n', text "ull", by decide⟩⟩
    obtain ⟨b, t, rfl, hb, h1, h2, h3⟩ := key w hw
    obtain ⟨fuel, rfl⟩ := Nat.exists_eq_succ_of_ne_zero (show fuel ≠ 0 by simp at hf; omega)
    simp only [List.cons_append] at hatom ⊢
    rw [skipValue, if_neg (Nat.not_lt.mpr hd), skipSpace_cons hb]
    simpa [h1, h2, h3] using hatom
  | @emptyArray d ws hd hs =>
    intro fuel rest hf _
    obtain ⟨fuel, rfl⟩ := Nat.exists_eq_succ_of_ne_zero (show fuel ≠ 0 by simp at hf; omega)
    simp only [dialect_ch, List.cons_append, List.append_assoc, List.nil_append]
    rw [skipValue, if_neg (Nat.not_lt.mpr hd), skipSpace_cons (by decide)]
    have hne : chr '[' ≠ chr '"' ∧ chr '[' ≠ chr '{' := by decide
    simp only [hne, if_false, if_true, skipSpace_append hs]
    rw [skipSpace_cons (by decide)]
    simp
  | @array d items hne hd hs hv ih =>
    intro fuel rest hf _
    simp only [dialect_ch, List.length_cons, List.length_append, List.length_nil] at hf
    obtain ⟨fuel, rfl⟩ := Nat.exists_eq_succ_of_ne_zero (show fuel ≠ 0 by omega)
    have hitems := skipItems_complete (d := d) hne hs ih fuel (by omega) rest
    obtain ⟨b, s, hb, hb1, -⟩ := commaJoin_head (items.map Item.text) (by
      intro t ht
      obtain ⟨i, hi, rfl⟩ := List.mem_map.mp ht
      obtain ⟨b, t, hbt, hb⟩ := value_head (hv i hi)
      exact ⟨i.before, b, t ++ i.after, by simp [Item.text, hbt], (hs i hi).1, hb⟩)
      (by simpa using hne) (chr ']' :: rest)
    rw [← skipItems_skipSpace, hb] at hitems
    simp only [dialect_ch, List.cons_append, List.append_assoc, List.nil_append]
    rw [skipValue, if_neg (Nat.not_lt.mpr hd), skipSpace_cons (by decide)]
    have hne : chr '[' ≠ chr '"' ∧ chr '[' ≠ chr '{' := by decide
    simp only [hne, if_false, if_true, hb, hb1]
    exact hitems
  | @emptyObject d ws hd hs =>
    intro fuel rest hf _
    obtain ⟨fuel, rfl⟩ := Nat.exists_eq_succ_of_ne_zero (show fuel ≠ 0 by simp at hf; omega)
    simp only [dialect_ch, List.cons_append, List.append_assoc, List.nil_append]
    rw [skipValue, if_neg (Nat.not_lt.mpr hd), skipSpace_cons (by decide)]
    have hne : chr '{' ≠ chr '"' := by decide
    simp only [hne, if_false, if_true, skipSpace_append hs]
    rw [skipSpace_cons (by decide)]
    simp
  | @object d members hne hd hs hn hv ih =>
    intro fuel rest hf _
    simp only [dialect_ch, List.length_cons, List.length_append, List.length_nil] at hf
    obtain ⟨fuel, rfl⟩ := Nat.exists_eq_succ_of_ne_zero (show fuel ≠ 0 by omega)
    have hmembers := skipMembers_complete (d := d) hne hs hn ih fuel (by omega) rest
    obtain ⟨b, s, hb, -, hb1⟩ := commaJoin_head (members.map (Member.text dialect)) (by
      intro t ht
      obtain ⟨m, hm, rfl⟩ := List.mem_map.mp ht
      exact ⟨m.before, chr '"', _, rfl, (hs m hm).1, by decide⟩)
      (by simpa using hne) (chr '}' :: rest)
    rw [hb] at hmembers
    simp only [dialect_ch, List.cons_append, List.append_assoc, List.nil_append]
    rw [skipValue, if_neg (Nat.not_lt.mpr hd), skipSpace_cons (by decide)]
    have hne : chr '{' ≠ chr '"' := by decide
    simp only [hne, if_false, if_true, hb, hb1]
    exact hmembers

/-! ### What was stepped over -/

/-- A value at the depth `d` heads the text after white space, and the rest follows it. -/
def Found (d : Nat) (s rest : Bytes) : Prop :=
  ∃ ws v, Spaces dialect ws ∧ s = ws ++ (v ++ rest) ∧ Value dialect jsonMaxDepth d v ∧
    Ends dialect v rest

theorem skipAtom_sound {d : Nat} (hd : d ≤ jsonMaxDepth) {s rest : Bytes}
    (h : skipAtom s = some rest) :
    ∃ v, s = v ++ rest ∧ Value dialect jsonMaxDepth d v ∧ Ends dialect v rest := by
  obtain ⟨ht, hf, hn⟩ := text_words
  have word : ∀ b w, b :: w ∈ dialect.words → b ≠ chr '-' ∧ isdigit b = false →
      s = b :: w ++ rest →
      ∃ v, s = v ++ rest ∧ Value dialect jsonMaxDepth d v ∧ Ends dialect v rest :=
    fun b w hw hb hs => ⟨b :: w, hs, .word hw hd, ends_of_head hb⟩
  unfold skipAtom at h
  split at h
  next r h1 =>
    rw [Option.some.injEq] at h
    exact word (chr 't') (text "rue") (by decide) (by decide) (h ▸ skipWord_iff.mp h1)
  next =>
    split at h
    next r h1 =>
      rw [Option.some.injEq] at h
      exact word (chr 'f') (text "alse") (by decide) (by decide) (h ▸ skipWord_iff.mp h1)
    next =>
      split at h
      next r h1 =>
        rw [Option.some.injEq] at h
        exact word (chr 'n') (text "ull") (by decide) (by decide) (h ▸ skipWord_iff.mp h1)
      next =>
        split_ifs at h
        obtain ⟨n, hs, hstop⟩ := skipNumber_sound h
        exact ⟨n.text dialect, hs, .number n hd, fun _ => ⟨n, rfl, hstop⟩⟩

/-- The items up to the closing bracket. -/
def FoundItems (d : Nat) (s rest : Bytes) : Prop :=
  ∃ items : List (Item UInt8), items ≠ [] ∧ (∀ i ∈ items, i.Spaced dialect) ∧
    (∀ i ∈ items, Value dialect jsonMaxDepth (d + 1) i.value) ∧
    s = commaJoin dialect (items.map Item.text) ++ chr ']' :: rest

/-- The members up to the closing brace. -/
def FoundMembers (d : Nat) (s rest : Bytes) : Prop :=
  ∃ members : List (Member UInt8), members ≠ [] ∧ (∀ m ∈ members, m.Spaced dialect) ∧
    (∀ m ∈ members, ∀ p ∈ m.name, p.Valid dialect) ∧
    (∀ m ∈ members, Value dialect jsonMaxDepth (d + 1) m.value) ∧
    s = commaJoin dialect (members.map (Member.text dialect)) ++ chr '}' :: rest

/-- White space before the first item belongs to it. -/
theorem FoundItems.space {d : Nat} {ws s rest : Bytes} (hws : Spaces dialect ws)
    (h : FoundItems d s rest) : FoundItems d (ws ++ s) rest := by
  obtain ⟨items, hne, hs, hv, rfl⟩ := h
  obtain ⟨i, items, rfl⟩ := List.exists_cons_of_ne_nil hne
  refine ⟨{ i with before := ws ++ i.before } :: items, by simp, ?_, ?_, ?_⟩
  · rw [List.forall_mem_cons] at hs ⊢
    exact ⟨⟨List.forall_mem_append.mpr ⟨hws, hs.1.1⟩, hs.1.2⟩, hs.2⟩
  · rw [List.forall_mem_cons] at hv ⊢
    exact hv
  · cases items <;> simp [commaJoin, Item.text]

theorem FoundMembers.space {d : Nat} {ws s rest : Bytes} (hws : Spaces dialect ws)
    (h : FoundMembers d s rest) : FoundMembers d (ws ++ s) rest := by
  obtain ⟨members, hne, hs, hn, hv, rfl⟩ := h
  obtain ⟨m, members, rfl⟩ := List.exists_cons_of_ne_nil hne
  refine ⟨{ m with before := ws ++ m.before } :: members, by simp, ?_, ?_, ?_, ?_⟩
  · rw [List.forall_mem_cons] at hs ⊢
    exact ⟨⟨List.forall_mem_append.mpr ⟨hws, hs.1.1⟩, hs.1.2⟩, hs.2⟩
  · rw [List.forall_mem_cons] at hn ⊢
    exact hn
  · rw [List.forall_mem_cons] at hv ⊢
    exact hv
  · cases members <;> simp [commaJoin, Member.text]

/-- An item, the white space after it and the bracket or the comma that follows. -/
theorem FoundItems.next {d : Nat} {s cursor r rest : Bytes} {c : UInt8}
    (hv : Found (d + 1) s cursor) (hc : skipSpace cursor = c :: r)
    (hend : c = chr ']' ∧ r = rest ∨ c = chr ',' ∧ FoundItems d (skipSpace r) rest) :
    FoundItems d s rest := by
  obtain ⟨ws, v, hws, rfl, hv, -⟩ := hv
  obtain ⟨after, hafter, hcursor⟩ := skipSpace_split cursor
  rw [hc] at hcursor
  have item : (⟨ws, v, after⟩ : Item UInt8).Spaced dialect := ⟨hws, hafter⟩
  rcases hend with ⟨rfl, rfl⟩ | ⟨rfl, hmore⟩
  · refine ⟨[⟨ws, v, after⟩], by simp, by simpa using item, by simpa using hv, ?_⟩
    simp [commaJoin, Item.text, hcursor]
  · obtain ⟨ws', hws', hr⟩ := skipSpace_split r
    obtain ⟨items, hne, hs, hvs, hmore⟩ := hmore.space hws'
    rw [← hr] at hmore
    refine ⟨⟨ws, v, after⟩ :: items, by simp, List.forall_mem_cons.mpr ⟨item, hs⟩,
      List.forall_mem_cons.mpr ⟨hv, hvs⟩, ?_⟩
    obtain ⟨i, items, rfl⟩ := List.exists_cons_of_ne_nil hne
    simp [commaJoin, Item.text, hcursor, hmore]

/-- A member, the white space after it and the brace or the comma that follows. -/
theorem FoundMembers.next {d : Nat} {s next afterColon cursor r rest : Bytes} {c : UInt8}
    (hname : skipJsonString s = some next) (hcolon : skipSpace next = chr ':' :: afterColon)
    (hv : Found (d + 1) afterColon cursor) (hc : skipSpace cursor = c :: r)
    (hend : c = chr '}' ∧ r = rest ∨ c = chr ',' ∧ FoundMembers d (skipSpace r) rest) :
    FoundMembers d s rest := by
  obtain ⟨name, hvalid, rfl⟩ := skipJsonString_sound hname
  obtain ⟨afterName, hafterName, hnext⟩ := skipSpace_split next
  rw [hcolon] at hnext
  obtain ⟨ws, v, hws, rfl, hv, -⟩ := hv
  obtain ⟨after, hafter, hcursor⟩ := skipSpace_split cursor
  rw [hc] at hcursor
  have member : (⟨[], name, afterName, ws, v, after⟩ : Member UInt8).Spaced dialect :=
    ⟨by simp [Spaces], hafterName, hws, hafter⟩
  rcases hend with ⟨rfl, rfl⟩ | ⟨rfl, hmore⟩
  · refine ⟨[⟨[], name, afterName, ws, v, after⟩], by simp, by simpa using member,
      by simpa using hvalid, by simpa using hv, ?_⟩
    simp [commaJoin, Member.text, hcursor, hnext]
  · obtain ⟨ws', hws', hr⟩ := skipSpace_split r
    obtain ⟨members, hne, hs, hns, hvs, hmore⟩ := hmore.space hws'
    rw [← hr] at hmore
    refine ⟨⟨[], name, afterName, ws, v, after⟩ :: members, by simp,
      List.forall_mem_cons.mpr ⟨member, hs⟩, List.forall_mem_cons.mpr ⟨hvalid, hns⟩,
      List.forall_mem_cons.mpr ⟨hv, hvs⟩, ?_⟩
    obtain ⟨m, members, rfl⟩ := List.exists_cons_of_ne_nil hne
    simp [commaJoin, Member.text, hcursor, hnext, hmore]

/-- On the fuel: each scanner calls the others with less of it. -/
theorem skip_sound (fuel : Nat) :
    (∀ d s rest, skipValue fuel d s = some rest → Found d s rest) ∧
    (∀ d s rest, skipMembers fuel d s = some rest → FoundMembers d s rest) ∧
    (∀ d s rest, skipItems fuel d s = some rest → FoundItems d s rest) := by
  induction fuel with
  | zero => refine ⟨?_, ?_, ?_⟩ <;> (intro d s rest h; cases h)
  | succ fuel ih =>
    obtain ⟨ihv, ihm, ihi⟩ := ih
    refine ⟨fun d s rest h => ?_, fun d s rest h => ?_, fun d s rest h => ?_⟩
    · obtain ⟨ws, hws, hs⟩ := skipSpace_split s
      rw [skipValue] at h
      split_ifs at h with hdepth
      have hd : d ≤ jsonMaxDepth := Nat.le_of_not_lt hdepth
      split at h
      · cases h
      next c r hc =>
        rw [hc] at hs
        have here : ∀ v, c :: r = v ++ rest → Value dialect jsonMaxDepth d v →
            Ends dialect v rest → Found d s rest :=
          fun v hr hv he => ⟨ws, v, hws, by rw [← hr, ← hs], hv, he⟩
        split_ifs at h with hq ho ha
        · obtain ⟨body, hb, hr⟩ := skipJsonString_sound h
          exact here _ hr (.string body hd hb) (ends_of_head (by decide))
        · obtain ⟨ws', hws', hr⟩ := skipSpace_split r
          split at h
          · cases h
          next e r' he =>
            rw [he] at hr
            split_ifs at h with hclose
            · obtain rfl := Option.some.inj h
              refine here (chr '{' :: (ws' ++ [chr '}'])) ?_ (.emptyObject ws' hd hws')
                (ends_of_head (by decide))
              simp [ho, hr, hclose]
            · obtain ⟨members, hne, hspaced, hnames, hvs, hm⟩ := (ihm d _ rest h).space hws'
              rw [← hr] at hm
              refine here _ ?_ (.object members hne hd hspaced hnames hvs) (ends_of_head (by decide))
              simp [ho, hm]
        · obtain ⟨ws', hws', hr⟩ := skipSpace_split r
          split at h
          · cases h
          next e r' he =>
            rw [he] at hr
            split_ifs at h with hclose
            · obtain rfl := Option.some.inj h
              refine here (chr '[' :: (ws' ++ [chr ']'])) ?_ (.emptyArray ws' hd hws')
                (ends_of_head (by decide))
              simp [ha, hr, hclose]
            · obtain ⟨items, hne, hspaced, hvs, hi⟩ := (ihi d _ rest h).space hws'
              rw [← hr] at hi
              refine here _ ?_ (.array items hne hd hspaced hvs) (ends_of_head (by decide))
              simp [ha, hi]
        · obtain ⟨v, hr, hv, he⟩ := skipAtom_sound hd h
          exact here v hr hv he
    · rw [skipMembers] at h
      split at h
      · cases h
      next next hname =>
        split at h
        · cases h
        next c afterColon hcolon =>
          split_ifs at h with hc
          rw [ne_eq, not_not] at hc
          subst hc
          split at h
          · cases h
          next cursor hvalue =>
            split at h
            · cases h
            next c r hcr =>
              refine .next hname hcolon (ihv _ _ _ hvalue) hcr ?_
              split_ifs at h with hclose hcomma
              · exact .inl ⟨hclose, Option.some.inj h⟩
              · exact .inr ⟨not_not.mp hcomma, ihm _ _ _ h⟩
    · rw [skipItems] at h
      split at h
      · cases h
      next cursor hvalue =>
        split at h
        · cases h
        next c r hcr =>
          refine .next (ihv _ _ _ hvalue) hcr ?_
          split_ifs at h with hclose hcomma
          · exact .inl ⟨hclose, Option.some.inj h⟩
          · exact .inr ⟨not_not.mp hcomma, ihi _ _ _ h⟩

/-- The scanner returns `rest` exactly if white space and a value within its limits stand
before it. -/
theorem skipJsonValue_iff {s rest : Bytes} {d : Nat} :
    skipJsonValue s d = some rest ↔ Found d s rest := by
  constructor
  · exact (skip_sound _).1 d s rest
  · rintro ⟨ws, v, hws, rfl, hv, he⟩
    rw [skipJsonValue, skipValue_space hws]
    exact skipValue_complete hv _ rest (by simp; omega) he

/-- `skip_json_value` accepts the longest white space and a JSON value after it that lies, with
all the values in it, within the depth limit; it refuses every other text. -/
theorem skipJsonValue_accepts (s : Bytes) (d : Nat) (rest : Bytes) :
    skipJsonValue s d = some rest ↔
      ∃ v, s.dropWhile isspace = v ++ rest ∧ Value dialect jsonMaxDepth d v ∧
        Ends dialect v rest := by
  rw [skipJsonValue_iff]
  constructor
  · rintro ⟨ws, v, hws, rfl, hv, he⟩
    obtain ⟨b, t, rfl, hb, -⟩ := value_head hv
    exact ⟨b :: t, (skipSpace_append hws _).trans (skipSpace_cons hb _), hv, he⟩
  · rintro ⟨v, hs, hv, he⟩
    obtain ⟨ws, hws, hsplit⟩ := skipSpace_split s
    exact ⟨ws, v, hws, by rw [← hs]; exact hsplit, hv, he⟩

end Msys.Mipc
