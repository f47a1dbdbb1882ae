import MsysSdk.Python.JsonText
import MsysSdk.Python.Utf8
import MsysSdk.Json.Texts
import Mathlib.Data.List.Forall2

/-! What `json.loads` has read, as a text of the JSON grammar, for texts without a backslash:
there a string denotes its own characters. -/

namespace Python
open Json (Dialect Piece Number Digits Exponent Spaces Item Member)

/-- JSON as the standard library reads it, non-standard constants included. -/
def dialect : Dialect CodePoint where
  ch := ch
  space := isSpace
  plain c := 32 ≤ c && c ≠ ch '"' && c ≠ ch '\\'
  words := [str "null", str "true", str "false", str "NaN", str "Infinity", str "-Infinity"]

/-- The same without the constants. -/
def strictDialect : Dialect CodePoint :=
  { dialect with words := [str "null", str "true", str "false"] }

@[simp] theorem dialect_ch (c : Char) : dialect.ch c = ch c := rfl

/-! ### Code points and characters -/

def ofCode (c : CodePoint) : Char := Char.ofNat c.val

theorem isDigit_iff {c : CodePoint} : isDigit c = true ↔ 48 ≤ c.val ∧ c.val ≤ 57 := by
  simp only [isDigit, Bool.and_eq_true, decide_eq_true_eq]
  exact Iff.rfl

theorem toNat_ofCode {c : CodePoint} (h : c.val < 0x80) : (ofCode c).toNat = c.val := by
  have hv : c.val.isValidChar := .inl (by omega)
  rw [ofCode, Char.ofNat, dif_pos hv]
  rfl

theorem ch_ofCode {c : CodePoint} (h : c.val < 0x80) : ch (ofCode c) = c := by
  rw [ch, toNat_ofCode h]
  refine Fin.ext ?_
  simp [CodePoint.ofNat, Fin.ofNat]

theorem isDigit_ofCode {c : CodePoint} (h : isDigit c = true) : (ofCode c).isDigit = true := by
  rw [isDigit_iff] at h
  have hval := toNat_ofCode (c := c) (by omega)
  simp only [Char.isDigit, UInt32.le_iff_toNat_le, Bool.and_eq_true, decide_eq_true_eq]
  have hnat : (ofCode c).val.toNat = c.val := hval
  rw [hnat]
  exact h

/-- A run of ASCII digits. -/
def digitsOf (s : Str) (hne : s ≠ []) (h : ∀ c ∈ s, isDigit c = true) : Digits where
  chars := s.map ofCode
  nonempty := by simpa using hne
  digits := by
    intro c hc
    obtain ⟨x, hx, rfl⟩ := List.mem_map.mp hc
    exact isDigit_ofCode (h x hx)

theorem digitsOf_text {s : Str} (hne : s ≠ []) (h : ∀ c ∈ s, isDigit c = true) :
    (digitsOf s hne h).text dialect = s := by
  have hmap : ∀ c ∈ s, ch (ofCode c) = c := fun c hc => ch_ofCode (by
    have := isDigit_iff.mp (h c hc)
    omega)
  rw [Digits.text, digitsOf, List.map_map]
  exact (List.map_congr_left hmap).trans (List.map_id _)

/-! ### White space and strings -/

theorem skipSpace_split (s : Str) : ∃ ws, Spaces dialect ws ∧ s = ws ++ skipSpace s := by
  refine ⟨s.takeWhile isSpace, fun c hc => ?_, List.takeWhile_append_dropWhile.symm⟩
  exact List.mem_takeWhile_imp hc

theorem scanString_sound {fuel : Nat} {s x rest : Str} (hs : ch '\\' ∉ s)
    (h : scanString fuel s = some (x, rest)) :
    s = x ++ ch '"' :: rest ∧ ∀ c ∈ x, dialect.plain c = true := by
  induction fuel generalizing s x with
  | zero => cases h
  | succ fuel ih =>
    cases s with
    | nil => cases h
    | cons c tail =>
      rw [List.mem_cons, not_or] at hs
      rw [scanString.eq_def] at h
      dsimp only at h
      split_ifs at h with hquote hback hcontrol
      · cases h
        exact ⟨by simp [hquote], by simp⟩
      · exact absurd hback.symm hs.1
      · simp only [Option.bind_eq_bind, Option.bind_eq_some_iff, Option.pure_def,
          Option.some.injEq] at h
        obtain ⟨⟨xs, r⟩, hrest, h⟩ := h
        cases h
        obtain ⟨htail, hplain⟩ := ih hs.2 hrest
        refine ⟨by rw [List.cons_append, ← htail], List.forall_mem_cons.mpr ⟨?_, hplain⟩⟩
        have hge : (32 : CodePoint) ≤ c := Nat.le_of_not_lt hcontrol
        simp [dialect, hquote, hback, hge]

/-! ### Numbers -/

/-- What the text of a value says about the value, as far as fields are read from it. -/
structure Denotes (v : Str) (x : Value) : Prop where
  string : ∀ t, x = .str t ↔ v = Json.quoted dialect (t.map .plain)
  digits : v ≠ [] → (∀ c ∈ v, isDigit c = true) → x = .int (digitsValue v)

/-- A value that is no string, from a text that begins neither with a quote nor with a digit. -/
theorem denotes_other {c : CodePoint} {v : Str} {x : Value} (hx : ∀ t, x ≠ .str t)
    (hquote : c ≠ ch '"') (hdigit : isDigit c = false) : Denotes (c :: v) x where
  string t := by
    refine ⟨fun h => absurd h (hx t), fun h => ?_⟩
    rw [Json.quoted, List.cons.injEq] at h
    exact absurd h.1 hquote
  digits _ h := by
    rw [h c List.mem_cons_self] at hdigit
    cases hdigit

theorem takeWhile_digits (s : Str) : ∀ c ∈ s.takeWhile isDigit, isDigit c = true :=
  fun _ hc => List.mem_takeWhile_imp hc

theorem scanDigits_sound {d : CodePoint} (rest : Str) (h : isDigit d = true) :
    ∃ int : Digits, d :: rest = int.text dialect ++ (scanDigits d rest).2 ∧
      (scanDigits d rest).1 = int.text dialect ∧
      (int.chars.head? = some '0' → int.chars = ['0']) := by
  unfold scanDigits
  split_ifs with hzero
  · subst hzero
    exact ⟨⟨['0'], by decide, List.forall_mem_singleton.mpr rfl⟩, rfl, rfl, fun _ => rfl⟩
  · have hall : ∀ c ∈ d :: rest.takeWhile isDigit, isDigit c = true :=
      List.forall_mem_cons.mpr ⟨h, takeWhile_digits rest⟩
    refine ⟨digitsOf _ (List.cons_ne_nil _ _) hall, ?_, (digitsOf_text _ _).symm, fun hhead => ?_⟩
    · rw [digitsOf_text]
      simp
    · refine absurd ?_ hzero
      have hd : ofCode d = '0' := by simpa [digitsOf] using hhead
      have hlow := isDigit_iff.mp h
      rw [← ch_ofCode (c := d) (by omega), hd]

theorem scanFraction_sound (s : Str) :
    ∃ frac : Option Digits, (scanFraction s).1 = Json.fracText dialect frac ∧
      s = Json.fracText dialect frac ++ (scanFraction s).2 := by
  have hnone : ∃ frac : Option Digits, [] = Json.fracText dialect frac ∧
      s = Json.fracText dialect frac ++ s := ⟨none, rfl, rfl⟩
  unfold scanFraction
  split
  next p d rest =>
    split_ifs with hpoint
    · simp only [Bool.and_eq_true, decide_eq_true_eq] at hpoint
      obtain ⟨rfl, hd⟩ := hpoint
      have hall : ∀ c ∈ d :: rest.takeWhile isDigit, isDigit c = true :=
        List.forall_mem_cons.mpr ⟨hd, takeWhile_digits rest⟩
      refine ⟨some (digitsOf _ (List.cons_ne_nil _ _) hall), ?_, ?_⟩
      · rw [Json.fracText, digitsOf_text]
        rfl
      · rw [Json.fracText, digitsOf_text]
        simp
    · exact hnone
  · exact hnone

theorem scanExponent_sound (s : Str) :
    ∃ exp : Option Exponent, (scanExponent s).1 = Json.expText dialect exp ∧
      s = Json.expText dialect exp ++ (scanExponent s).2 := by
  have hnone : ∃ exp : Option Exponent, [] = Json.expText dialect exp ∧
      s = Json.expText dialect exp ++ s := ⟨none, rfl, rfl⟩
  have letter : ∀ e, e = ch 'e' ∨ e = ch 'E' → ∃ upper : Bool,
      e = ch (if upper then 'E' else 'e') := by
    rintro e (rfl | rfl)
    · exact ⟨false, rfl⟩
    · exact ⟨true, rfl⟩
  unfold scanExponent
  split
  swap
  · exact hnone
  next e d rest =>
  by_cases he : (e = ch 'e' || e = ch 'E') = true
  swap
  · rw [if_neg he]
    exact hnone
  rw [if_pos he]
  simp only [Bool.or_eq_true, decide_eq_true_eq] at he
  obtain ⟨upper, rfl⟩ := letter e he
  by_cases hd : isDigit d = true
  · have hall : ∀ c ∈ d :: rest.takeWhile isDigit, isDigit c = true :=
      List.forall_mem_cons.mpr ⟨hd, takeWhile_digits rest⟩
    rw [if_pos hd]
    refine ⟨some ⟨upper, none, digitsOf _ (List.cons_ne_nil _ _) hall⟩, ?_, ?_⟩
    · simp [Json.expText, Json.expSignText, digitsOf_text]
    · simp [Json.expText, Json.expSignText, digitsOf_text]
  rw [if_neg hd]
  by_cases hsign : (d = ch '+' || d = ch '-') = true
  swap
  · rw [if_neg hsign]
    exact hnone
  rw [if_pos hsign]
  cases rest with
  | nil => exact hnone
  | cons f rest =>
  dsimp only
  by_cases hf : isDigit f = true
  swap
  · rw [if_neg hf]
    exact hnone
  have hall : ∀ c ∈ f :: rest.takeWhile isDigit, isDigit c = true :=
    List.forall_mem_cons.mpr ⟨hf, takeWhile_digits rest⟩
  rw [if_pos hf]
  simp only [Bool.or_eq_true, decide_eq_true_eq] at hsign
  rcases hsign with rfl | rfl
  · refine ⟨some ⟨upper, some false, digitsOf _ (List.cons_ne_nil _ _) hall⟩, ?_, ?_⟩ <;>
      simp [Json.expText, Json.expSignText, digitsOf_text]
  · refine ⟨some ⟨upper, some true, digitsOf _ (List.cons_ne_nil _ _) hall⟩, ?_, ?_⟩ <;>
      simp [Json.expText, Json.expSignText, digitsOf_text]

theorem scanUnsigned_sound {py : Interpreter} {negative : Bool} {s rest : Str} {x : Value}
    (h : scanUnsigned py (Json.signText dialect negative) s = .ok (x, rest)) :
    ∃ n : Number, n.negative = negative ∧
      Json.signText dialect negative ++ s = n.text dialect ++ rest ∧
      (∀ t, x ≠ .str t) ∧
      (n.plain → x = .int (digitsValue (n.text dialect))) := by
  cases s with
  | nil => cases h
  | cons d tail =>
    rw [scanUnsigned] at h
    split_ifs at h with hd
    simp only [Bool.not_eq_true', Bool.not_eq_false] at hd
    obtain ⟨int, hint, hdigits, hzero⟩ := scanDigits_sound tail hd
    obtain ⟨frac, hfrac, hrest⟩ := scanFraction_sound (scanDigits d tail).2
    obtain ⟨exp, hexp, hrest'⟩ := scanExponent_sound (scanFraction (scanDigits d tail).2).2
    have h : (numberValue py (Json.signText dialect negative) (scanDigits d tail).1
        (scanFraction (scanDigits d tail).2).1
        (scanExponent (scanFraction (scanDigits d tail).2).2).1 >>=
        fun y => .ok (y, (scanExponent (scanFraction (scanDigits d tail).2).2).2)) =
        .ok (x, rest) := h
    obtain ⟨y, hy, hx⟩ := bind_ok h
    simp only [Except.ok.injEq, Prod.mk.injEq] at hx
    obtain ⟨rfl, rfl⟩ := hx
    refine ⟨⟨negative, int, hzero, frac, exp⟩, rfl, ?_, ?_, ?_⟩
    · have htext : d :: tail = int.text dialect ++ (Json.fracText dialect frac ++
          (Json.expText dialect exp ++
            (scanExponent (scanFraction (scanDigits d tail).2).2).2)) := by
        rw [← hrest', ← hrest]
        exact hint
      rw [htext, Number.text]
      simp
    · intro t ht
      rw [numberValue] at hy
      split_ifs at hy <;> cases hy <;> cases ht
    · rintro ⟨hn, hf, he⟩
      dsimp only at hn hf he
      subst hn hf he
      rw [numberValue, hfrac, hexp, hdigits] at hy
      simp only [Json.fracText, Json.expText, Json.signText] at hy
      simp only [decide_true, Bool.and_self, if_true, Bool.false_eq_true, if_false] at hy
      split_ifs at hy
      cases hy
      simp [Number.text, Json.signText, Json.fracText, Json.expText]

/-- A number of digits only has no sign, fraction or exponent. -/
theorem plain_of_digits {n : Number} (h : ∀ c ∈ n.text dialect, isDigit c = true) : n.plain := by
  refine ⟨?_, ?_, ?_⟩
  · by_contra hn
    rw [Bool.not_eq_false] at hn
    have := h (ch '-') (by simp [Number.text, Json.signText, hn])
    cases this
  · cases hf : n.frac with
    | none => rfl
    | some d =>
      have := h (ch '.') (by simp [Number.text, Json.fracText, hf])
      cases this
  · cases he : n.exp with
    | none => rfl
    | some e =>
      have hletter : isDigit (ch (if e.upper then 'E' else 'e')) = false := by
        cases e.upper <;> rfl
      rw [h _ (by simp [Number.text, Json.expText, he])] at hletter
      cases hletter

theorem number_ne_quoted (n : Number) (body : List (Piece CodePoint)) :
    n.text dialect ≠ Json.quoted dialect body := by
  intro h
  have hhead := congrArg List.head? h
  obtain ⟨c, cs, hc⟩ := List.exists_cons_of_ne_nil n.int.nonempty
  have hquote : ∀ c : Char, c.isDigit = true → ch c ≠ ch '"' := by
    intro c hd heq
    obtain ⟨hlo, hhi⟩ := Char.isDigit_iff_toNat.mp hd
    have hval := congrArg Fin.val heq
    have hzero : '0'.toNat = 48 := rfl
    have hnine : '9'.toNat = 57 := rfl
    have hquote : (ch '"').val = 34 := rfl
    rw [ch, ofNat_val (by omega)] at hval
    omega
  cases hn : n.negative with
  | true =>
    simp [Number.text, Json.signText, hn, Json.quoted] at hhead
    exact absurd hhead (by decide)
  | false =>
    simp [Number.text, Json.signText, hn, Json.quoted, Digits.text, hc] at hhead
    exact hquote c (n.int.digits c (by simp [hc])) hhead

theorem scanNumber_sound {py : Interpreter} {s rest : Str} {x : Value}
    (h : scanNumber py s = .ok (x, rest)) :
    ∃ n : Number, s = n.text dialect ++ rest ∧ Denotes (n.text dialect) x := by
  have key : ∀ negative s, scanUnsigned py (Json.signText dialect negative) s = .ok (x, rest) →
      ∃ n : Number, Json.signText dialect negative ++ s = n.text dialect ++ rest ∧
        Denotes (n.text dialect) x := by
    intro negative s h
    obtain ⟨n, -, hs, hstr, hint⟩ := scanUnsigned_sound h
    refine ⟨n, hs, ⟨fun t => ⟨fun hx => absurd hx (hstr t), fun hv => ?_⟩, fun _ hdigits => ?_⟩⟩
    · exact absurd hv (number_ne_quoted n _)
    · exact hint (plain_of_digits hdigits)
  cases s with
  | nil => cases h
  | cons c tail =>
    rw [scanNumber] at h
    split_ifs at h with hsign
    · subst hsign
      exact key true tail h
    · exact key false (c :: tail) h

/-! ### Values -/

theorem scanName_sound {names : List (Str × Value)} {s rest : Str} {x : Value}
    (h : scanName names s = some (x, rest)) : ∃ name, (name, x) ∈ names ∧ s = name ++ rest := by
  obtain ⟨⟨name, y⟩, hmem, hy⟩ := List.exists_of_findSome?_eq_some h
  obtain ⟨r, hr, hx⟩ := Option.map_eq_some_iff.mp hy
  cases hx
  unfold takePrefix at hr
  split_ifs at hr with hprefix
  cases hr
  obtain ⟨t, rfl⟩ := List.isPrefixOf_iff_prefix.mp hprefix
  exact ⟨name, hmem, by simp⟩

/-- The text is a value, and this one is read from it. -/
def ReadValue (limit d : Nat) (s rest : Str) (x : Value) : Prop :=
  ∃ v, s = v ++ rest ∧ Json.Value dialect limit d v ∧ Denotes v x

theorem names_sound {limit d : Nat} (hd : d ≤ limit) :
    ∀ e ∈ literals ++ constants, Json.Value dialect limit d e.1 ∧ Denotes e.1 e.2 := by
  have word : ∀ (c : CodePoint) w x, c :: w ∈ dialect.words → c ≠ ch '"' ∧ isDigit c = false →
      (∀ t, x ≠ .str t) → Json.Value dialect limit d (c :: w) ∧ Denotes (c :: w) x :=
    fun c w x hw hc hx => ⟨.word hw hd, denotes_other hx hc.1 hc.2⟩
  simp only [literals, constants, List.cons_append, List.nil_append, List.forall_mem_cons,
    List.not_mem_nil, false_implies, implies_true, and_true]
  exact ⟨word (ch 'n') (str "ull") _ (by decide) (by decide) (by simp),
    word (ch 't') (str "rue") _ (by decide) (by decide) (by simp),
    word (ch 'f') (str "alse") _ (by decide) (by decide) (by simp),
    word (ch 'N') (str "aN") _ (by decide) (by decide) (by simp),
    word (ch 'I') (str "nfinity") _ (by decide) (by decide) (by simp),
    word (ch '-') (str "Infinity") _ (by decide) (by decide) (by simp)⟩

theorem scanAtom_sound {py : Interpreter} {finiteOnly : Bool} {limit d : Nat} (hd : d ≤ limit)
    {s rest : Str} {x : Value} (h : scanAtom py finiteOnly s = .ok (x, rest)) :
    ReadValue limit d s rest x := by
  have named : ∀ {names}, (∀ e ∈ names, e ∈ literals ++ constants) →
      ∀ {x}, scanName names s = some (x, rest) → ReadValue limit d s rest x := by
    intro names hnames x hname
    obtain ⟨name, hmem, hs⟩ := scanName_sound hname
    obtain ⟨hv, hx⟩ := names_sound hd _ (hnames _ hmem)
    exact ⟨name, hs, hv, hx⟩
  unfold scanAtom at h
  split at h
  next r hr =>
    cases h
    exact named (fun _ => List.mem_append_left _) hr
  next =>
    split at h
    next r hr =>
      split_ifs at h
      cases h
      exact named (fun _ => List.mem_append_right _) hr
    next =>
      obtain ⟨n, hs, hx⟩ := scanNumber_sound h
      exact ⟨_, hs, .number n hd, hx⟩

/-- The name of a member as it is spelled. -/
def nameOf (m : Member CodePoint) : Str := Json.bodyText dialect m.name

structure MemberOk (limit d : Nat) (m : Member CodePoint) : Prop where
  spaced : m.Spaced dialect
  name : ∀ p ∈ m.name, p.Valid dialect
  value : Json.Value dialect limit (d + 1) m.value

/-- The assignments to a dict that reading the members makes. -/
def assign (d : Dict) (names : List Str) (xs : List Value) : Dict :=
  (names.zip xs).foldl (fun d e => d.set e.1 e.2) d

def ReadMembers (limit d : Nat) (s rest : Str) (before entries : Dict) : Prop :=
  ∃ members xs, members ≠ [] ∧ (∀ m ∈ members, MemberOk limit d m) ∧
    s = Json.commaJoin dialect (members.map (Member.text dialect)) ++ ch '}' :: rest ∧
    List.Forall₂ Denotes (members.map Member.value) xs ∧
    entries = assign before (members.map nameOf) xs

def ReadItems (limit d : Nat) (s rest : Str) : Prop :=
  ∃ items, items ≠ [] ∧ (∀ i ∈ items, Item.Spaced dialect i) ∧
    (∀ i ∈ items, Json.Value dialect limit (d + 1) i.value) ∧
    s = Json.commaJoin dialect (items.map Item.text) ++ ch ']' :: rest

theorem ReadMembers.space {limit d : Nat} {ws s rest : Str} {before entries : Dict}
    (hws : Spaces dialect ws) (h : ReadMembers limit d s rest before entries) :
    ReadMembers limit d (ws ++ s) rest before entries := by
  obtain ⟨members, xs, hne, hok, rfl, hxs, rfl⟩ := h
  have hnames : (Json.padMembers ws members).map nameOf = members.map nameOf := by
    have hbodies := congrArg (List.map (Json.bodyText dialect)) (Json.padMembers_names ws members)
    rw [List.map_map, List.map_map] at hbodies
    exact hbodies
  refine ⟨Json.padMembers ws members, xs, ?_, ?_, ?_, ?_, by rw [hnames]⟩
  · cases members <;> simp_all [Json.padMembers]
  · have hspaced := Json.padMembers_spaced hws fun m hm => (hok m hm).spaced
    cases members with
    | nil => exact absurd rfl hne
    | cons m members =>
      simp only [Json.padMembers, List.forall_mem_cons] at hspaced hok ⊢
      exact ⟨⟨hspaced.1, hok.1.name, hok.1.value⟩, hok.2⟩
  · rw [Json.padMembers_text ws hne, List.append_assoc]
  · rwa [Json.padMembers_values]

theorem ReadItems.space {limit d : Nat} {ws s rest : Str} (hws : Spaces dialect ws)
    (h : ReadItems limit d s rest) : ReadItems limit d (ws ++ s) rest := by
  obtain ⟨items, hne, hs, hv, rfl⟩ := h
  refine ⟨Json.padItems ws items, ?_, Json.padItems_spaced hws hs, ?_, ?_⟩
  · cases items <;> simp_all [Json.padItems]
  · intro i hi
    have hmem := List.mem_map_of_mem (f := Item.value) hi
    rw [Json.padItems_values] at hmem
    obtain ⟨j, hj, hji⟩ := List.mem_map.mp hmem
    rw [← hji]
    exact hv j hj
  · rw [Json.padItems_text ws hne, List.append_assoc]

theorem bodyText_plain (s : Str) : Json.bodyText dialect (s.map .plain) = s := by
  rw [Json.bodyText, List.flatMap_map]
  exact List.flatMap_singleton' s

theorem quoted_plain_inj {s t : Str}
    (h : Json.quoted dialect (s.map .plain) = Json.quoted dialect (t.map .plain)) : s = t := by
  rw [Json.quoted, Json.quoted, bodyText_plain, bodyText_plain, List.cons.injEq] at h
  exact List.append_cancel_right h.2

theorem denotes_quoted (t : Str) : Denotes (Json.quoted dialect (t.map .plain)) (.str t) where
  string u := by
    rw [Value.str.injEq]
    exact ⟨fun h => by rw [h], quoted_plain_inj⟩
  digits _ hdigits := by
    have hquote := hdigits (ch '"') (by simp [Json.quoted])
    cases hquote

theorem read_string {limit d : Nat} (hd : d ≤ limit) {s x rest : Str}
    (hplain : ∀ c ∈ x, dialect.plain c = true) (hs : s = ch '"' :: (x ++ ch '"' :: rest)) :
    ReadValue limit d s rest (.str x) := by
  refine ⟨Json.quoted dialect (x.map .plain), ?_, .string _ hd fun p hp => ?_, denotes_quoted x⟩
  · rw [hs, Json.quoted, bodyText_plain]
    simp
  · obtain ⟨c, hc, rfl⟩ := List.mem_map.mp hp
    exact hplain c hc

/-- An item, the white space after it and the bracket or the comma that follows. -/
theorem ReadItems.next {limit d : Nat} {s r rest cursor : Str} {c : CodePoint} {x : Value}
    (hv : ReadValue limit (d + 1) s cursor x) (hc : skipSpace cursor = c :: r)
    (hend : c = ch ']' ∧ r = rest ∨ c = ch ',' ∧ ReadItems limit d (skipSpace r) rest) :
    ReadItems limit d s rest := by
  obtain ⟨v, rfl, hv, -⟩ := hv
  obtain ⟨after, hafter, hcursor⟩ := skipSpace_split cursor
  rw [hc] at hcursor
  have item : Item.Spaced dialect ⟨[], v, after⟩ := ⟨.nil, hafter⟩
  rcases hend with ⟨rfl, rfl⟩ | ⟨rfl, hmore⟩
  · exact ⟨[⟨[], v, after⟩], by simp, by simpa using item, by simpa using hv,
      by simp [Json.commaJoin, Item.text, hcursor]⟩
  · obtain ⟨ws, hws, hr⟩ := skipSpace_split r
    obtain ⟨items, hne, hs, hvs, hmore⟩ := hmore.space hws
    rw [← hr] at hmore
    refine ⟨⟨[], v, after⟩ :: items, by simp, List.forall_mem_cons.mpr ⟨item, hs⟩,
      List.forall_mem_cons.mpr ⟨hv, hvs⟩, ?_⟩
    rw [List.map_cons, Json.commaJoin_cons _ (by simpa using hne), hcursor, hmore]
    simp [Item.text]

/-- A member, the white space after it and the brace or the comma that follows. -/
theorem ReadMembers.next {limit d : Nat} {s r rest cursor name afterName afterColon : Str}
    {c : CodePoint} {x : Value} {before entries : Dict}
    (hname : s = ch '"' :: (name ++ ch '"' :: afterName))
    (hplain : ∀ c ∈ name, dialect.plain c = true)
    (hcolon : skipSpace afterName = ch ':' :: afterColon)
    (hv : ReadValue limit (d + 1) (skipSpace afterColon) cursor x)
    (hc : skipSpace cursor = c :: r)
    (hend : c = ch '}' ∧ r = rest ∧ entries = before.set name x ∨
      c = ch ',' ∧ ReadMembers limit d (skipSpace r) rest (before.set name x) entries) :
    ReadMembers limit d s rest before entries := by
  obtain ⟨ws₁, hws₁, h₁⟩ := skipSpace_split afterName
  obtain ⟨ws₂, hws₂, h₂⟩ := skipSpace_split afterColon
  obtain ⟨v, hvs, hv, hx⟩ := hv
  obtain ⟨ws₃, hws₃, h₃⟩ := skipSpace_split cursor
  have htext := bodyText_plain name
  have hok : MemberOk limit d ⟨[], name.map .plain, ws₁, ws₂, v, ws₃⟩ := by
    refine ⟨⟨.nil, hws₁, hws₂, hws₃⟩, fun p hp => ?_, hv⟩
    obtain ⟨c, hc, rfl⟩ := List.mem_map.mp hp
    exact hplain c hc
  have hnamed : nameOf ⟨[], name.map .plain, ws₁, ws₂, v, ws₃⟩ = name := htext
  have hs : s = Member.text dialect ⟨[], name.map .plain, ws₁, ws₂, v, ws₃⟩ ++ c :: r := by
    rw [hname, h₁, hcolon, h₂, hvs, h₃, hc]
    simp [Member.text, Json.quoted, htext]
  rcases hend with ⟨rfl, rfl, rfl⟩ | ⟨rfl, hmore⟩
  · exact ⟨[_], [x], by simp, by simpa using hok, hs, by simpa using hx,
      by simp [assign, hnamed]⟩
  · obtain ⟨ws, hws, hr⟩ := skipSpace_split r
    obtain ⟨members, xs, hne, hoks, hmore, hxs, hentries⟩ := hmore.space hws
    rw [← hr] at hmore
    refine ⟨_ :: members, x :: xs, by simp, List.forall_mem_cons.mpr ⟨hok, hoks⟩, ?_,
      .cons hx hxs, ?_⟩
    · rw [List.map_cons, Json.commaJoin_cons _ (by simpa using hne), hs, hmore]
      simp
    · rw [hentries, assign, assign, List.map_cons, hnamed]
      rfl

theorem not_mem_of_append {c : CodePoint} {s t : Str} (h : c ∉ s ++ t) : c ∉ t :=
  fun ht => h (List.mem_append_right _ ht)

theorem not_mem_skipSpace {c : CodePoint} {s : Str} (h : c ∉ s) : c ∉ skipSpace s := by
  obtain ⟨ws, -, hs⟩ := skipSpace_split s
  rw [hs] at h
  exact not_mem_of_append h

/-- On the fuel: each scanner calls the others with less of it. The depth already reached and
the depth that is left stay within the limit. -/
theorem scan_sound (py : Interpreter) (finiteOnly : Bool) (limit fuel : Nat) :
    (∀ depth d s rest x, d + depth ≤ limit → ch '\\' ∉ s →
      scanValue py finiteOnly fuel depth s = .ok (x, rest) → ReadValue limit d s rest x) ∧
    (∀ depth d s rest before entries, d + 1 + depth ≤ limit → ch '\\' ∉ s →
      scanMembers py finiteOnly fuel depth before s = .ok (entries, rest) →
      ReadMembers limit d s rest before entries) ∧
    (∀ depth d s rest xs, d + 1 + depth ≤ limit → ch '\\' ∉ s →
      scanItems py finiteOnly fuel depth s = .ok (xs, rest) → ReadItems limit d s rest) := by
  induction fuel with
  | zero => refine ⟨?_, ?_, ?_⟩ <;> (intros; contradiction)
  | succ fuel ih =>
    obtain ⟨ihv, ihm, ihi⟩ := ih
    refine ⟨?_, ?_, ?_⟩
    · intro depth d s rest x hlimit hs h
      have hd : d ≤ limit := by omega
      cases s with
      | nil => cases h
      | cons c tail =>
      rw [scanValue.eq_def] at h
      dsimp only at h
      have htail : ch '\\' ∉ skipSpace tail :=
        not_mem_skipSpace fun hmem => hs (List.mem_cons_of_mem _ hmem)
      obtain ⟨ws, hws, hspace⟩ := skipSpace_split tail
      split_ifs at h with hquote hbrace hbracket
      · split at h
        next body r hbody =>
          cases h
          obtain ⟨htext, hplain⟩ :=
            scanString_sound (fun hmem => hs (List.mem_cons_of_mem _ hmem)) hbody
          exact read_string hd hplain (by rw [hquote, htext])
        next => cases h
      · split at h
        · cases h
        next depth =>
        have other : ∀ v (x : Value), (∀ t, x ≠ .str t) → Denotes (ch '{' :: v) x :=
          fun v x hx => denotes_other hx (by decide) (by decide)
        split at h
        · cases h
        next e tail' he =>
        rw [he] at hspace htail
        split_ifs at h with hclose
        · cases h
          refine ⟨ch '{' :: (ws ++ [ch '}']), ?_, .emptyObject ws hd hws, other _ _ (by simp)⟩
          simp [hbrace, hspace, hclose]
        · obtain ⟨⟨entries, r⟩, hmembers, hx⟩ := bind_ok h
          cases hx
          obtain ⟨members, xs, hne, hok, htext, -⟩ :=
            (ihm depth d _ _ _ _ (by omega) htail hmembers).space hws
          rw [← hspace] at htext
          refine ⟨_, ?_, .object members hne hd (fun m hm => (hok m hm).spaced)
            (fun m hm => (hok m hm).name) fun m hm => (hok m hm).value, other _ _ (by simp)⟩
          simp [hbrace, htext]
      · split at h
        · cases h
        next depth =>
        have other : ∀ v (x : Value), (∀ t, x ≠ .str t) → Denotes (ch '[' :: v) x :=
          fun v x hx => denotes_other hx (by decide) (by decide)
        split at h
        · cases h
        next e tail' he =>
        rw [he] at hspace htail
        split_ifs at h with hclose
        · cases h
          refine ⟨ch '[' :: (ws ++ [ch ']']), ?_, .emptyArray ws hd hws, other _ _ (by simp)⟩
          simp [hbracket, hspace, hclose]
        · obtain ⟨⟨xs, r⟩, hitems, hx⟩ := bind_ok h
          cases hx
          obtain ⟨items, hne, hspaced, hvs, htext⟩ :=
            (ihi depth d _ _ _ (by omega) htail hitems).space hws
          rw [← hspace] at htext
          refine ⟨_, ?_, .array items hne hd hspaced hvs, other _ _ (by simp)⟩
          simp [hbracket, htext]
      · exact scanAtom_sound hd h
    · intro depth d s rest before entries hlimit hs h
      cases s with
      | nil => cases h
      | cons c tail =>
      rw [scanMembers.eq_def] at h
      dsimp only at h
      split_ifs at h with hquote
      rw [ne_eq, not_not] at hquote
      split at h
      · cases h
      next name afterName hname =>
      obtain ⟨htext, hplain⟩ :=
        scanString_sound (fun hmem => hs (List.mem_cons_of_mem _ hmem)) hname
      have hafter : ch '\\' ∉ afterName := fun hmem => hs (by simp [htext, hmem])
      split at h
      · cases h
      next e afterColon hcolon =>
      have hnext := not_mem_skipSpace hafter
      rw [hcolon] at hnext
      split_ifs at h with he
      rw [ne_eq, not_not] at he
      subst he
      obtain ⟨⟨x, cursor⟩, hvalue, h⟩ := bind_ok h
      have hvalue := ihv depth (d + 1) _ _ _ (by omega)
        (not_mem_skipSpace fun hmem => hnext (List.mem_cons_of_mem _ hmem)) hvalue
      have hcursor : ch '\\' ∉ cursor := by
        obtain ⟨v, hv, -⟩ := hvalue
        have := not_mem_skipSpace fun hmem => hnext (List.mem_cons_of_mem _ hmem)
        rw [hv] at this
        exact not_mem_of_append this
      dsimp only at h
      split at h
      · cases h
      next sep r hsep =>
      have hr := not_mem_skipSpace hcursor
      rw [hsep] at hr
      refine .next (by rw [hquote, htext]) hplain hcolon hvalue hsep ?_
      split_ifs at h with hclose hcomma
      · cases h
        exact .inl ⟨hclose, rfl, rfl⟩
      · exact .inr ⟨hcomma, ihm depth d _ _ _ _ hlimit
          (not_mem_skipSpace fun hmem => hr (List.mem_cons_of_mem _ hmem)) h⟩
    · intro depth d s rest xs hlimit hs h
      rw [scanItems.eq_def] at h
      dsimp only at h
      obtain ⟨⟨x, cursor⟩, hvalue, h⟩ := bind_ok h
      have hvalue := ihv depth (d + 1) _ _ _ (by omega) hs hvalue
      have hcursor : ch '\\' ∉ cursor := by
        obtain ⟨v, rfl, -⟩ := hvalue
        exact not_mem_of_append hs
      dsimp only at h
      split at h
      · cases h
      next sep r hsep =>
      have hr := not_mem_skipSpace hcursor
      rw [hsep] at hr
      refine .next hvalue hsep ?_
      split_ifs at h with hclose hcomma
      · cases h
        exact .inl ⟨hclose, rfl⟩
      · obtain ⟨⟨ys, r'⟩, hmore, hx⟩ := bind_ok h
        cases hx
        exact .inr ⟨hcomma, ihi depth d _ _ _ hlimit
          (not_mem_skipSpace fun hmem => hr (List.mem_cons_of_mem _ hmem)) hmore⟩

/-! ### Records -/

theorem scanValue_dict {py : Interpreter} {finiteOnly : Bool} {fuel depth d limit : Nat}
    {s rest : Str} {m : Dict} (hlimit : d + depth ≤ limit) (hs : ch '\\' ∉ s)
    (h : scanValue py finiteOnly fuel depth s = .ok (.dict m, rest)) :
    ∃ ws, Spaces dialect ws ∧ (s = ch '{' :: (ws ++ ch '}' :: rest) ∧ m = [] ∨
      ∃ t, s = ch '{' :: (ws ++ t) ∧ ReadMembers limit d t rest [] m) := by
  cases fuel with
  | zero => cases h
  | succ fuel =>
  cases s with
  | nil => cases h
  | cons c tail =>
  rw [scanValue.eq_def] at h
  dsimp only at h
  split_ifs at h with hquote hbrace hbracket
  · split at h <;> cases h
  · split at h
    · cases h
    next depth =>
    split at h
    · cases h
    next e tail' he =>
    obtain ⟨ws, hws, hspace⟩ := skipSpace_split tail
    have htail : ch '\\' ∉ skipSpace tail :=
      not_mem_skipSpace fun hmem => hs (List.mem_cons_of_mem _ hmem)
    rw [he] at hspace htail
    refine ⟨ws, hws, ?_⟩
    split_ifs at h with hclose
    · cases h
      exact .inl ⟨by rw [hbrace, hspace, hclose], rfl⟩
    · obtain ⟨⟨entries, r⟩, hmembers, hx⟩ := bind_ok h
      cases hx
      exact .inr ⟨_, by rw [hbrace, hspace],
        (scan_sound py finiteOnly limit fuel).2.1 depth d _ _ _ _ (by omega) htail hmembers⟩
  · split at h
    · cases h
    split at h
    · cases h
    split_ifs at h
    · cases h
    · obtain ⟨⟨xs, r⟩, -, hx⟩ := bind_ok h
      cases hx
  · exact absurd rfl ((scanAtom_flat h).2 m)

/-- The record's text is an object with these members, which denote the dict. -/
def Denoted (limit : Nat) (s : Str) (members : List (Member CodePoint)) (m : Dict) : Prop :=
  Json.Object dialect limit members s ∧
    ∃ xs, List.Forall₂ Denotes (members.map Member.value) xs ∧
      m = assign [] (members.map nameOf) xs

theorem loadsText_sound {py : Interpreter} {finiteOnly : Bool} {s : Str} {m : Dict}
    (hs : ch '\\' ∉ s) (h : loadsText py finiteOnly s = .ok (.dict m)) :
    ∃ members, Denoted py.recursionLimit s members m := by
  unfold loadsText at h
  split_ifs at h
  obtain ⟨⟨x, rest⟩, hvalue, h⟩ := bind_ok h
  dsimp only at h
  split_ifs at h with hend
  cases h
  obtain ⟨ws₁, hws₁, h₁⟩ := skipSpace_split s
  obtain ⟨ws₃, hws₃, h₃⟩ := skipSpace_split rest
  rw [hend, List.append_nil] at h₃
  have hlimit : 0 + (py.recursionLimit + 0) ≤ py.recursionLimit := by omega
  obtain ⟨ws₂, hws₂, hobject⟩ := scanValue_dict hlimit (not_mem_skipSpace hs) hvalue
  rcases hobject with ⟨htext, rfl⟩ | ⟨t, htext, hmembers⟩
  · refine ⟨[], ?_, [], by simp, rfl⟩
    rw [h₁, htext, h₃]
    exact .empty ws₁ ws₂ ws₃ hws₁ hws₂ hws₃
  · obtain ⟨members, xs, hne, hok, ht, hxs, rfl⟩ := hmembers.space hws₂
    refine ⟨members, ?_, xs, hxs, rfl⟩
    rw [h₁, htext, ht, h₃]
    exact .members ws₁ ws₃ members hne hws₁ hws₃ (fun k hk => (hok k hk).spaced)
      (fun k hk => (hok k hk).name) fun k hk => (hok k hk).value

theorem loads_sound {py : Interpreter} {finiteOnly : Bool} {data : Bytes} {m : Dict}
    (hdata : 0x5C ∉ data) (h : loads py finiteOnly data = .ok (.dict m)) :
    ∃ s members, encodeUtf8 s = some data ∧ ch '\\' ∉ s ∧
      Denoted py.recursionLimit s members m := by
  unfold loads at h
  split at h
  · cases h
  next s hs =>
  have hencode := encode_of_decode hs
  have hback : ch '\\' ∉ s := by
    intro hmem
    refine hdata ?_
    rw [← utf8_of_encode hencode]
    exact List.mem_flatMap.mpr ⟨_, hmem, by decide⟩
  obtain ⟨members, hdenoted⟩ := loadsText_sound hback h
  exact ⟨s, members, hencode, hback, hdenoted⟩

/-! ### Fields of the dict -/

/-- The value of a key after the assignments: that of the last one to the key. -/
theorem get_assign (names : List Str) (xs : List Value) (d : Dict) (k : Str) :
    (assign d names xs).get k =
      match (names.zip xs).reverse.find? fun e => e.1 = k with
      | some e => e.2
      | none => d.get k := by
  unfold assign
  generalize names.zip xs = es
  induction es generalizing d with
  | nil => rfl
  | cons e es ih =>
    rw [List.foldl_cons, ih, List.reverse_cons, List.find?_append]
    cases es.reverse.find? fun e => e.1 = k with
    | some e' => rfl
    | none =>
      by_cases he : e.1 = k
      · subst he
        simp [Dict.get_set]
      · simp [he, Dict.get_set_of_ne d e.2 he]

/-- The last member of a name. -/
def lastNamed (members : List (Member CodePoint)) (k : Str) : Option (Member CodePoint) :=
  members.reverse.find? fun m => nameOf m = k

theorem Denoted.get {limit : Nat} {s : Str} {members : List (Member CodePoint)} {m : Dict}
    (h : Denoted limit s members m) (k : Str) :
    match lastNamed members k with
    | some last => Denotes last.value (m.get k)
    | none => m.get k = .none := by
  obtain ⟨-, xs, hxs, rfl⟩ := h
  have hlength : members.length ≤ xs.length := by
    have := hxs.length_eq
    rw [List.length_map] at this
    omega
  have hpairs : ∀ e ∈ members.zip xs, Denotes e.1.value e.2 := by
    intro e he
    rw [List.forall₂_map_left_iff] at hxs
    exact (List.forall₂_iff_zip.mp hxs).2 he
  have hzip : (members.map nameOf).zip xs = (members.zip xs).map fun e => (nameOf e.1, e.2) := by
    rw [List.zip_map_left]
    rfl
  have hlast : lastNamed members k =
      ((members.zip xs).reverse.find? fun e => nameOf e.1 = k).map Prod.fst := by
    conv_lhs => rw [lastNamed, ← List.map_fst_zip hlength, ← List.map_reverse, List.find?_map]
    rfl
  rw [get_assign, hzip, ← List.map_reverse, List.find?_map, hlast]
  cases hfind : (members.zip xs).reverse.find? fun e => decide (nameOf e.1 = k) with
  | none =>
    have hfind' : (members.zip xs).reverse.find?
      ((fun e : Str × Value => decide (e.1 = k)) ∘ fun e => (nameOf e.1, e.2)) = none := hfind
    rw [hfind']
    rfl
  | some e =>
    have hfind' : (members.zip xs).reverse.find?
      ((fun e : Str × Value => decide (e.1 = k)) ∘ fun e => (nameOf e.1, e.2)) = some e := hfind
    rw [hfind']
    exact hpairs e (List.mem_reverse.mp (List.mem_of_find?_eq_some hfind))

end Python
