import MsysSdk.Python.JsonEncoder
import Mathlib.Data.Nat.Digits.Defs
import Mathlib.Data.List.Induction
import Mathlib.Data.List.TakeWhile

/-! What the json module accepts and writes: integers that were read are short enough to be
written, and only strings with surrogates fail to be encoded once a text is there. -/

namespace Python

/-! ### Integers that were read -/

/-- An integer short enough for `int.__repr__`. -/
def Value.short (v : Value) : Prop := ∀ i, v = .int i → i.natAbs < 10 ^ intMaxStrDigits

theorem digitsValue_append (ds : Str) (d : CodePoint) :
    digitsValue (ds ++ [d]) = digitsValue ds * 10 + (d.val - 48) := by
  simp [digitsValue]

theorem digitsValue_lt {ds : Str} (h : ∀ d ∈ ds, isDigit d = true) :
    digitsValue ds < 10 ^ ds.length := by
  -- the last digit weighs least, so the list grows at its end
  induction ds using List.reverseRec with
  | nil => simp [digitsValue]
  | append_singleton ds d ih =>
    have hd := h d (by simp)
    have ih := ih fun x hx => h x (by simp [hx])
    have hle : d.val ≤ 57 := by
      simp only [isDigit, Bool.and_eq_true, decide_eq_true_eq] at hd
      exact hd.2
    rw [digitsValue_append, List.length_append, List.length_singleton, pow_succ]
    omega

/-- Neither a container nor an integer too long to be written. -/
def Value.flat (v : Value) : Prop := v.short ∧ ∀ d, v ≠ .dict d

theorem numberValue_flat {py : Interpreter} {sign digits frac exp : Str} {v : Value}
    (hd : ∀ d ∈ digits, isDigit d = true) (h : numberValue py sign digits frac exp = .ok v) :
    v.flat := by
  unfold numberValue at h
  by_cases hint : (frac = [] && exp = []) = true
  · rw [if_pos hint] at h
    by_cases hlong : intMaxStrDigits < digits.length
    · rw [if_pos hlong] at h
      cases h
    · rw [if_neg hlong, Except.ok.injEq] at h
      refine ⟨fun i hi => ?_, by simp [← h]⟩
      -- the sign is not among the digits counted
      have hval : i.natAbs = digitsValue digits := by
        rw [hi, Value.int.injEq] at h
        rw [← h]
        split_ifs <;> simp
      rw [hval]
      exact (digitsValue_lt hd).trans_le (Nat.pow_le_pow_right (by decide) (Nat.le_of_not_lt hlong))
  · rw [if_neg hint, Except.ok.injEq] at h
    simp [← h, Value.flat, Value.short]

theorem scanDigits_digits {d : CodePoint} (rest : Str) (h : isDigit d = true) :
    ∀ x ∈ (scanDigits d rest).1, isDigit x = true := by
  intro x hx
  unfold scanDigits at hx
  split_ifs at hx
  · rwa [List.mem_singleton.mp hx]
  · rcases List.mem_cons.mp hx with rfl | hx
    · exact h
    · exact List.mem_takeWhile_imp hx

theorem scanUnsigned_flat {py : Interpreter} {sign s rest : Str} {v : Value}
    (h : scanUnsigned py sign s = .ok (v, rest)) : v.flat := by
  cases s with
  | nil => cases h
  | cons d tail =>
    simp only [scanUnsigned] at h
    split_ifs at h with hd
    simp at hd
    cases hn : numberValue py sign (scanDigits d tail).1 (scanFraction (scanDigits d tail).2).1
      (scanExponent (scanFraction (scanDigits d tail).2).2).1 with
    | error e =>
      rw [hn] at h
      cases h
    | ok w =>
      rw [hn] at h
      cases h
      exact numberValue_flat (scanDigits_digits tail hd) hn

theorem findSome_mem {names : List (Str × Value)} {s rest : Str} {v : Value}
    (h : scanName names s = some (v, rest)) : ∃ name, (name, v) ∈ names := by
  obtain ⟨⟨name, w⟩, hmem, hw⟩ := List.exists_of_findSome?_eq_some h
  obtain ⟨r, -, hr⟩ := Option.map_eq_some_iff.mp hw
  obtain ⟨rfl, -⟩ := Prod.mk.inj hr
  exact ⟨name, hmem⟩

theorem scanAtom_flat {py : Interpreter} {finiteOnly : Bool} {s rest : Str} {v : Value}
    (h : scanAtom py finiteOnly s = .ok (v, rest)) : v.flat := by
  have named : ∀ names r, scanName names s = some r → (∀ p ∈ names, p.2.flat) → r.1.flat := by
    intro names r hr hall
    obtain ⟨v, rest⟩ := r
    obtain ⟨name, hmem⟩ := findSome_mem hr
    exact hall _ hmem
  unfold scanAtom at h
  split at h
  next r hr =>
    cases h
    exact named _ _ hr (by simp [literals, Value.flat, Value.short])
  next =>
    split at h
    next r hr =>
      split_ifs at h
      cases h
      exact named _ _ hr (by simp [constants, Value.flat, Value.short])
    next =>
      cases s with
      | nil => cases h
      | cons c tail =>
        simp only [scanNumber] at h
        split_ifs at h <;> exact scanUnsigned_flat h

theorem bind_ok {ε α β : Type} {x : Except ε α} {f : α → Except ε β} {b : β}
    (h : x >>= f = .ok b) : ∃ a, x = .ok a ∧ f a = .ok b := by
  cases x with
  | error e => cases h
  | ok a => exact ⟨a, rfl, h⟩

theorem bind_error {ε α β : Type} {x : Except ε α} {f : α → Except ε β} {e : ε}
    (h : x >>= f = .error e) : x = .error e ∨ ∃ a, x = .ok a ∧ f a = .error e := by
  cases x with
  | error e' =>
    cases h
    exact .inl rfl
  | ok a => exact .inr ⟨a, rfl, h⟩

/-- What a scanned value is made of. -/
theorem scanValue_cases {py : Interpreter} {finiteOnly : Bool} {fuel depth : Nat} {s rest : Str}
    {v : Value} (h : scanValue py finiteOnly fuel depth s = .ok (v, rest)) :
    (∃ x, v = .str x) ∨ (∃ xs, v = .list xs) ∨ v = .dict [] ∨
      (∃ fuel' depth' s' r d, v = .dict d ∧
        scanMembers py finiteOnly fuel' depth' [] s' = .ok (d, r)) ∨ v.flat := by
  cases fuel with
  | zero => cases h
  | succ fuel =>
    cases s with
    | nil => cases h
    | cons c tail =>
      unfold scanValue at h
      dsimp only at h
      split_ifs at h
      · split at h
        · cases h
          exact .inl ⟨_, rfl⟩
        · cases h
      · split at h
        · cases h
        · split at h
          · cases h
          · split_ifs at h
            · cases h
              exact .inr (.inr (.inl rfl))
            · obtain ⟨⟨d, r⟩, hm, hd⟩ := bind_ok h
              cases hd
              exact .inr (.inr (.inr (.inl ⟨_, _, _, _, _, rfl, hm⟩)))
      · split at h
        · cases h
        · split at h
          · cases h
          · split_ifs at h
            · cases h
              exact .inr (.inl ⟨_, rfl⟩)
            · obtain ⟨r, -, hd⟩ := bind_ok h
              cases hd
              exact .inr (.inl ⟨_, rfl⟩)
      · exact .inr (.inr (.inr (.inr (scanAtom_flat h))))

theorem scanValue_short {py : Interpreter} {finiteOnly : Bool} {fuel depth : Nat} {s rest : Str}
    {v : Value} (h : scanValue py finiteOnly fuel depth s = .ok (v, rest)) : v.short := by
  rcases scanValue_cases h with ⟨x, rfl⟩ | ⟨xs, rfl⟩ | rfl | ⟨_, _, _, _, d, rfl, -⟩ | hf
  · simp [Value.short]
  · simp [Value.short]
  · simp [Value.short]
  · simp [Value.short]
  · exact hf.1

theorem set_short {d : Dict} {k : Str} {v : Value} (hd : ∀ e ∈ d, e.2.short) (hv : v.short) :
    ∀ e ∈ d.set k v, e.2.short := by
  induction d with
  | nil => simpa [Dict.set] using hv
  | cons a d ih =>
    have hrest : ∀ e ∈ d, e.2.short := fun e he => hd e (List.mem_cons_of_mem _ he)
    unfold Dict.set
    split_ifs
    · exact List.forall_mem_cons.mpr ⟨hv, hrest⟩
    · exact List.forall_mem_cons.mpr ⟨hd a List.mem_cons_self, ih hrest⟩

theorem scanMembers_short {py : Interpreter} {finiteOnly : Bool} {fuel depth : Nat} {s rest : Str}
    {d entries : Dict} (hd : ∀ e ∈ d, e.2.short)
    (h : scanMembers py finiteOnly fuel depth d s = .ok (entries, rest)) :
    ∀ e ∈ entries, e.2.short := by
  -- `d` collects the members read so far; every one of them came from `scanValue`
  induction fuel generalizing d s with
  | zero => cases h
  | succ fuel ih =>
    cases s with
    | nil => cases h
    | cons c tail =>
      unfold scanMembers at h
      dsimp only at h
      split_ifs at h
      split at h
      · cases h
      next k afterKey hk =>
        split at h
        · cases h
        next colon body hc =>
          split_ifs at h
          obtain ⟨⟨v, afterValue⟩, hv, h⟩ := bind_ok h
          have hset := set_short (k := k) hd (scanValue_short hv)
          dsimp only at h
          split at h
          · cases h
          next sep more hs =>
            split_ifs at h
            · cases h
              exact hset
            · exact ih hset h

theorem scanValue_members {py : Interpreter} {finiteOnly : Bool} {fuel depth : Nat} {s rest : Str}
    {d : Dict} (h : scanValue py finiteOnly fuel depth s = .ok (.dict d, rest)) :
    ∀ e ∈ d, e.2.short := by
  rcases scanValue_cases h with ⟨x, hx⟩ | ⟨xs, hx⟩ | hx | ⟨_, _, _, _, d', hx, hm⟩ | hf
  · cases hx
  · cases hx
  · cases hx
    simp
  · obtain rfl := Value.dict.inj hx
    exact scanMembers_short (by simp) hm
  · exact absurd rfl (hf.2 d)

theorem loads_short {py : Interpreter} {finiteOnly : Bool} {data : Bytes} {d : Dict}
    (h : loads py finiteOnly data = .ok (.dict d)) : ∀ e ∈ d, e.2.short := by
  unfold loads at h
  split at h
  · cases h
  next s hs =>
    unfold loadsText at h
    split_ifs at h
    obtain ⟨⟨v, r⟩, hv, h⟩ := bind_ok h
    dsimp only at h
    split_ifs at h
    cases h
    exact scanValue_members hv

theorem intRepr_short {i : Int} (h : i.natAbs < 10 ^ intMaxStrDigits) :
    ∃ s, intRepr i = .ok s ∧ s.length ≤ intMaxStrDigits + 1 := by
  have hlen : (natRepr i.natAbs).length ≤ intMaxStrDigits := by
    rw [natRepr, List.length_map]
    exact Nat.toDigits_length 10 _ _ (by decide) h
  refine ⟨_, if_neg (Nat.not_lt.mpr hlen), ?_⟩
  split_ifs
  · simpa using hlen
  · omega

/-! ### Texts without surrogates -/

def encodable (s : Str) : Bool := s.all fun c => !c.isSurrogate

@[simp] theorem encodable_nil : encodable [] = true := rfl

@[simp] theorem encodable_cons (c : CodePoint) (s : Str) :
    encodable (c :: s) = (!c.isSurrogate && encodable s) := rfl

@[simp] theorem encodable_append (s t : Str) :
    encodable (s ++ t) = (encodable s && encodable t) := List.all_append

theorem isSurrogate_ofNat {n : Nat} (h : n.isValidChar) : (CodePoint.ofNat n).isSurrogate = false := by
  have hn : n < 0x110000 := by
    rcases h with h | h <;> omega
  simp only [CodePoint.isSurrogate, CodePoint.ofNat, Fin.ofNat, Nat.mod_eq_of_lt hn]
  rcases h with h | h <;> simp <;> omega

@[simp] theorem isSurrogate_ch (c : Char) : (ch c).isSurrogate = false := isSurrogate_ofNat c.valid

@[simp] theorem encodable_str (s : String) : encodable (str s) = true := by
  simp only [encodable, str, List.all_map, List.all_eq_true]
  intro c _
  exact (congrArg (!·) (isSurrogate_ch c)).trans rfl

@[simp] theorem encodable_natRepr (n : Nat) : encodable (natRepr n) = true := by
  simp only [encodable, natRepr, List.all_map, List.all_eq_true]
  intro c _
  exact (congrArg (!·) (isSurrogate_ch c)).trans rfl

theorem isSurrogate_hexDigit {n : Nat} (h : n < 16) : (hexDigit n).isSurrogate = false := by
  unfold hexDigit
  split_ifs
  · exact isSurrogate_ofNat (.inl (by omega))
  · exact isSurrogate_ofNat (.inl (by omega))

theorem encodable_intRepr {i : Int} {s : Str} (h : intRepr i = .ok s) : encodable s = true := by
  unfold intRepr at h
  dsimp only at h
  split_ifs at h <;> cases h <;> simp

theorem encodable_escapeChar (c : CodePoint) : encodable (escapeChar c) = !c.isSurrogate := by
  unfold escapeChar
  split_ifs with h1 h2 h3 h4 h5 h6 h7 h8
  · simp [h1]
  · simp [h2]
  · rw [h3]
    decide
  · rw [h4]
    decide
  · rw [h5]
    decide
  · rw [h6]
    decide
  · rw [h7]
    decide
  · have hc : c.val < 32 := h8
    have hs : c.isSurrogate = false := by
      simp [CodePoint.isSurrogate]
      omega
    simp [hs, isSurrogate_hexDigit (show c.val / 16 < 16 by omega),
      isSurrogate_hexDigit (show c.val % 16 < 16 by omega)]
  · simp

@[simp] theorem encodable_quoted (s : Str) : encodable (quoted s) = encodable s := by
  have h : encodable (s.flatMap escapeChar) = encodable s := by
    induction s with
    | nil => rfl
    | cons c s ih => rw [List.flatMap_cons, encodable_append, ih, encodable_escapeChar, encodable_cons]
  simp [quoted, h]

theorem escapeChar_length (c : CodePoint) : (escapeChar c).length ≤ 6 := by
  unfold escapeChar
  split_ifs <;> simp

theorem quoted_length (s : Str) : (quoted s).length ≤ 6 * s.length + 2 := by
  have h : (s.flatMap escapeChar).length ≤ 6 * s.length := by
    induction s with
    | nil => simp
    | cons c s ih =>
      have := escapeChar_length c
      simp only [List.flatMap_cons, List.length_append, List.length_cons]
      omega
  simp only [quoted, List.length_cons, List.length_append, List.length_nil]
  omega

theorem encodable_surrogateText (s : Str) : encodable (surrogateText s) = true := by
  have hex : ∀ n, (hexDigit (n % 16)).isSurrogate = false :=
    fun n => isSurrogate_hexDigit (Nat.mod_lt _ (by decide))
  unfold surrogateText
  dsimp only
  split <;> simp [hex]

/-! ### The exceptions of the encoder -/

theorem floatRepr_error {allowNan : Bool} {f : Float64} {e : DumpsError}
    (h : floatRepr allowNan f = .error e) : encodable e.text = true := by
  cases f <;> simp only [floatRepr] at h
  · cases h
  · split_ifs at h
    cases h
    exact encodable_str _
  · split_ifs at h
    cases h
    exact encodable_str _

theorem intRepr_error {i : Int} {e : DumpsError} (h : intRepr i = .error e) :
    encodable e.text = true := by
  unfold intRepr at h
  dsimp only at h
  split_ifs at h
  rw [← Except.error.inj h, DumpsError.text]
  exact encodable_str _

theorem refused_text (t : String) : encodable (keyText.refused t).text = true := by
  simp only [keyText.refused, DumpsError.text, encodable_append, encodable_str, Bool.and_self]

theorem keyText_error {allowNan : Bool} {v : Value} {e : DumpsError}
    (h : keyText allowNan v = .error e) : encodable e.text = true := by
  unfold keyText at h
  split at h
  next => cases h
  next => cases h
  next => cases h
  next => exact intRepr_error h
  next => exact floatRepr_error h
  next => exact Except.error.inj h ▸ refused_text _
  next => exact Except.error.inj h ▸ refused_text _
  next => exact Except.error.inj h ▸ refused_text _
  next => exact Except.error.inj h ▸ refused_text _

mutual
theorem dumpValue_error {allowNan : Bool} : ∀ {depth : Nat} {v : Value} {e : DumpsError},
    dumpValue allowNan depth v = .error e → encodable e.text = true
  | _, .none, _, h | _, .bool _, _, h | _, .str _, _, h => by
    unfold dumpValue at h
    cases h
  | _, .int _, _, h => by
    unfold dumpValue at h
    exact intRepr_error h
  | _, .float _, _, h => by
    unfold dumpValue at h
    exact floatRepr_error h
  | 0, .list _, _, h | 0, .dict _, _, h | _, .cyclic, _, h => by
    unfold dumpValue at h
    cases h
    exact encodable_str _
  | depth + 1, .list xs, e, h => by
    unfold dumpValue at h
    cases hb : dumpItems allowNan depth xs with
    | error e' =>
      rw [hb] at h
      cases h
      exact dumpItems_error hb
    | ok b =>
      rw [hb] at h
      cases h
  | depth + 1, .dict d, e, h => by
    unfold dumpValue at h
    cases hb : dumpEntries allowNan depth d with
    | error e' =>
      rw [hb] at h
      cases h
      exact dumpEntries_error hb
    | ok b =>
      rw [hb] at h
      cases h
  | _, .object t, _, h => by
    unfold dumpValue at h
    cases h
    simp only [DumpsError.text, encodable_append, encodable_str, Bool.and_self]

theorem dumpItems_error {allowNan : Bool} : ∀ {depth : Nat} {xs : List Value} {e : DumpsError},
    dumpItems allowNan depth xs = .error e → encodable e.text = true
  | _, [], _, h => by cases h
  | depth, [x], e, h => by
    unfold dumpItems at h
    exact dumpValue_error h
  | depth, x :: y :: xs, e, h => by
    unfold dumpItems at h
    rcases bind_error h with hx | ⟨a, -, h⟩
    · exact dumpValue_error hx
    · rcases bind_error h with hx | ⟨b, -, h⟩
      · exact dumpItems_error hx
      · cases h

theorem dumpEntries_error {allowNan : Bool} :
    ∀ {depth : Nat} {d : List (Value × Value)} {e : DumpsError},
      dumpEntries allowNan depth d = .error e → encodable e.text = true
  | _, [], _, h => by cases h
  | depth, [(k, v)], e, h => by
    unfold dumpEntries at h
    rcases bind_error h with hk | ⟨a, -, h⟩
    · exact keyText_error hk
    · rcases bind_error h with hv | ⟨b, -, h⟩
      · exact dumpValue_error hv
      · cases h
  | depth, (k, v) :: a :: d, e, h => by
    unfold dumpEntries at h
    rcases bind_error h with hk | ⟨a, -, h⟩
    · exact keyText_error hk
    · rcases bind_error h with hv | ⟨b, -, h⟩
      · exact dumpValue_error hv
      · rcases bind_error h with hr | ⟨r, -, h⟩
        · exact dumpEntries_error hr
        · cases h
end

/-- Whatever `dumps` complains about, it does so in a text that can be encoded. -/
theorem dumps_error {py : Interpreter} {allowNan : Bool} {v : Value} {e : DumpsError}
    (h : dumps py allowNan v = .error e) : encodable e.text = true := by
  unfold dumps at h
  rcases bind_error h with hv | ⟨s, -, h⟩
  · exact dumpValue_error hv
  · split at h
    · cases h
    · cases h
      exact encodable_surrogateText s

end Python
