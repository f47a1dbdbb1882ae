import MsysSdk.Python.JsonRoundTrip

/-! The decoder with the hook for NaN and the infinities against the one without it: they read
the same value, unless one of the names stands outside of the string literals. -/

namespace Python
open Json (Number Spaces)

/-- Where a look for the names stands: outside of the string literals, in one, or behind a
backslash in one. -/
inductive Place
  | outside
  | inside
  | escaped
deriving DecidableEq

def Place.next : Place → CodePoint → Place
  | .outside, c => if c = ch '"' then .inside else .outside
  | .inside, c => if c = ch '"' then .outside else if c = ch '\\' then .escaped else .inside
  | .escaped, _ => .inside

def Place.after (p : Place) (s : Str) : Place := s.foldl Place.next p

/-- The letters that no other value has. -/
def isConstantLetter (c : CodePoint) : Bool := c = ch 'N' || c = ch 'I'

def hasConstant : Place → Str → Bool
  | _, [] => false
  | p, c :: s => (p = .outside && isConstantLetter c) || hasConstant (p.next c) s

/-- The bytes of a JSON text name a NaN or an infinity. -/
def namesConstant (data : Bytes) : Bool :=
  match decodeUtf8 data with
  | some s => hasConstant .outside s
  | none => false

theorem Place.after_append (p : Place) (s t : Str) : p.after (s ++ t) = (p.after s).after t :=
  List.foldl_append

theorem hasConstant_append (p : Place) (s t : Str) :
    hasConstant p (s ++ t) = (hasConstant p s || hasConstant (p.after s) t) := by
  induction s generalizing p with
  | nil => rfl
  | cons c s ih =>
    rw [List.cons_append, hasConstant, ih, hasConstant, Bool.or_assoc]
    rfl

/-! ### Texts without a name -/

/-- No quote and neither of the letters. -/
def silent (c : CodePoint) : Bool := c ≠ ch '"' && !isConstantLetter c

theorem after_silent {s : Str} (h : ∀ c ∈ s, silent c = true) :
    Place.outside.after s = .outside ∧ hasConstant .outside s = false := by
  induction s with
  | nil => exact ⟨rfl, rfl⟩
  | cons c s ih =>
    rw [List.forall_mem_cons] at h
    obtain ⟨hc, hs⟩ := h
    simp only [silent, Bool.and_eq_true, decide_eq_true_eq, Bool.not_eq_true'] at hc
    have hnext : Place.outside.next c = .outside := if_neg hc.1
    obtain ⟨hafter, hnone⟩ := ih hs
    constructor
    · show Place.after (Place.outside.next c) s = .outside
      rw [hnext, hafter]
    · rw [hasConstant, hnext, hnone, hc.2]
      rfl

theorem silent_spaces {ws : Str} (h : Spaces dialect ws) : ∀ c ∈ ws, silent c = true := by
  intro c hc
  have hspace : isSpace c = true := h c hc
  simp only [isSpace, Bool.or_eq_true, decide_eq_true_eq] at hspace
  rcases hspace with ((rfl | rfl) | rfl) | rfl <;> decide

theorem silent_number (n : Number) : ∀ c ∈ n.text dialect, silent c = true := by
  refine forall_number_text (fun c hc => ?_) (List.all_eq_true.mp (by decide)) n
  have hne : ∀ a, isDigit a = false → c ≠ a := by
    rintro a ha rfl
    cases ha.symm.trans hc
  simp [silent, isConstantLetter, hne (ch '"') (by decide), hne (ch 'N') (by decide),
    hne (ch 'I') (by decide)]

/-! ### String literals -/

/-- What is read from inside a literal on, up to the place `p`. -/
structure InLiteral (used : Str) (p : Place) : Prop where
  after : Place.inside.after used = p
  silent : hasConstant .inside used = false

theorem InLiteral.nil : InLiteral [] .inside := ⟨rfl, rfl⟩

theorem InLiteral.close : InLiteral [ch '"'] .outside := ⟨by decide, by decide⟩

theorem InLiteral.cons {c : CodePoint} {used : Str} {p : Place}
    (hc : Place.inside.next c = .inside) (h : InLiteral used p) : InLiteral (c :: used) p where
  after := by
    show Place.after (Place.inside.next c) used = p
    rw [hc, h.after]
  silent := by
    rw [hasConstant, hc, h.silent]
    rfl

theorem InLiteral.append {a b : Str} {p : Place} (ha : InLiteral a .inside)
    (hb : InLiteral b p) : InLiteral (a ++ b) p where
  after := by rw [Place.after_append, ha.after, hb.after]
  silent := by rw [hasConstant_append, ha.silent, ha.after, hb.silent, Bool.or_false]

theorem InLiteral.escape (e : CodePoint) : InLiteral [ch '\\', e] .inside where
  after := rfl
  silent := by
    have hnext : Place.inside.next (ch '\\') = .escaped := by decide
    simp [hasConstant, hnext]

theorem next_of_hexValue {c : CodePoint} {n : Nat} (h : hexValue c = some n) :
    Place.inside.next c = .inside := by
  have hquote : c ≠ ch '"' := by
    rintro rfl
    revert h
    decide +revert
  have hslash : c ≠ ch '\\' := by
    rintro rfl
    revert h
    decide +revert
  rw [Place.next, if_neg hquote, if_neg hslash]

theorem hexQuad_used {s rest : Str} {n : Nat} (h : hexQuad s = some (n, rest)) :
    ∃ used, s = used ++ rest ∧ InLiteral used .inside := by
  match s, h with
  | a :: b :: c :: d :: s, h =>
    simp only [hexQuad, Option.bind_eq_bind, Option.bind_eq_some_iff, Option.pure_def,
      Option.some.injEq, Prod.mk.injEq] at h
    obtain ⟨w, hw, x, hx, y, hy, z, hz, -, rfl⟩ := h
    exact ⟨[a, b, c, d], rfl, .cons (next_of_hexValue hw) (.cons (next_of_hexValue hx)
      (.cons (next_of_hexValue hy) (.cons (next_of_hexValue hz) .nil)))⟩

theorem scanUnicode_used {s rest : Str} {c : CodePoint} (h : scanUnicode s = some (c, rest)) :
    ∃ used, s = used ++ rest ∧ InLiteral used .inside := by
  simp only [scanUnicode, Option.bind_eq_bind, Option.bind_eq_some_iff] at h
  obtain ⟨⟨n, after⟩, hquad, h⟩ := h
  obtain ⟨used, rfl, hused⟩ := hexQuad_used hquad
  have alone : after = rest → ∃ u, used ++ after = u ++ rest ∧ InLiteral u .inside :=
    fun hr => ⟨used, by rw [hr], hused⟩
  dsimp only at h
  split_ifs at h with hhigh
  · split at h
    next a b low =>
      split_ifs at h with hu
      · split at h
        next m more hlow =>
          split_ifs at h
          · -- the low surrogate of a pair
            obtain rfl := (Prod.mk.inj (Option.some.inj h)).2
            obtain ⟨used', rfl, hused'⟩ := hexQuad_used hlow
            simp only [Bool.and_eq_true, decide_eq_true_eq] at hu
            obtain ⟨rfl, rfl⟩ := hu
            refine ⟨used ++ ([ch '\\', ch 'u'] ++ used'), by simp, ?_⟩
            exact hused.append ((InLiteral.escape _).append hused')
          · exact alone (Prod.mk.inj (Option.some.inj h)).2
        next =>
          exact alone (Prod.mk.inj (Option.some.inj h)).2
      · exact alone (Prod.mk.inj (Option.some.inj h)).2
    next =>
      exact alone (Prod.mk.inj (Option.some.inj h)).2
  · exact alone (Prod.mk.inj (Option.some.inj h)).2

theorem scanString_used {n : Nat} {s x rest : Str} (h : scanString n s = some (x, rest)) :
    ∃ used, s = used ++ rest ∧ InLiteral used .outside := by
  induction n generalizing s x with
  | zero => cases h
  | succ n ih =>
    cases s with
    | nil => cases h
    | cons c s =>
      unfold scanString at h
      dsimp only at h
      split_ifs at h with hquote hslash hcontrol
      · cases h
        exact ⟨[c], rfl, hquote ▸ .close⟩
      · subst hslash
        split at h
        next => cases h
        next e s =>
          split_ifs at h with hu
          · simp only [Option.bind_eq_bind, Option.bind_eq_some_iff] at h
            obtain ⟨⟨y, more⟩, hy, ⟨ys, tail⟩, hys, h⟩ := h
            cases h
            obtain ⟨used, rfl, hused⟩ := scanUnicode_used hy
            obtain ⟨used', rfl, hused'⟩ := ih hys
            exact ⟨[ch '\\', e] ++ (used ++ used'), by simp,
              (InLiteral.escape e).append (hused.append hused')⟩
          · simp only [Option.bind_eq_bind, Option.bind_eq_some_iff] at h
            obtain ⟨y, hy, ⟨ys, tail⟩, hys, h⟩ := h
            cases h
            obtain ⟨used, rfl, hused⟩ := ih hys
            exact ⟨[ch '\\', e] ++ used, rfl, (InLiteral.escape e).append hused⟩
      · simp only [Option.bind_eq_bind, Option.bind_eq_some_iff] at h
        obtain ⟨⟨ys, tail⟩, hys, h⟩ := h
        cases h
        obtain ⟨used, rfl, hused⟩ := ih hys
        have hnext : Place.inside.next c = .inside := by
          rw [Place.next, if_neg hquote, if_neg hslash]
        exact ⟨c :: used, rfl, .cons hnext hused⟩

/-! ### Both decoders on one text -/

/-- `s` was read up to `rest`, giving `x`; with the hook the same is read, unless what was read
names a constant. -/
def Reads {α : Type} (s rest : Str) (strict : Except LoadsError (α × Str)) (x : α) : Prop :=
  ∃ used, s = used ++ rest ∧ Place.outside.after used = .outside ∧
    strict = if hasConstant .outside used then .error .constant else .ok (x, rest)

section
variable {α β : Type} {s t mid rest : Str} {strict : Except LoadsError (α × Str)} {x : α} {y : β}

theorem Reads.of_silent (h : ∀ c ∈ s, silent c = true) : Reads (s ++ rest) rest (.ok (x, rest)) x := by
  obtain ⟨hafter, hnone⟩ := after_silent h
  exact ⟨s, rfl, hafter, by rw [hnone]; rfl⟩

theorem Reads.done : Reads rest rest (.ok (x, rest)) x :=
  .of_silent (s := []) (by simp)

theorem Reads.of_literal (h : InLiteral s .outside) :
    Reads (ch '"' :: (s ++ rest)) rest (.ok (x, rest)) x := by
  have hnext : Place.outside.next (ch '"') = .inside := by decide
  have hletter : isConstantLetter (ch '"') = false := by decide
  refine ⟨ch '"' :: s, rfl, ?_, ?_⟩
  · show Place.after (Place.outside.next (ch '"')) s = .outside
    rw [hnext, h.after]
  · rw [hasConstant, hnext, h.silent, hletter]
    rfl

theorem Reads.bind {f : α × Str → Except LoadsError (β × Str)} (hx : Reads s mid strict x)
    (hy : Reads mid rest (f (x, mid)) y) : Reads s rest (strict >>= f) y := by
  obtain ⟨a, rfl, hafter, hstrict⟩ := hx
  obtain ⟨b, rfl, hafter', hstrict'⟩ := hy
  refine ⟨a ++ b, (List.append_assoc ..).symm, ?_, ?_⟩
  · rw [Place.after_append, hafter, hafter']
  · rw [hasConstant_append, hafter, hstrict]
    cases hasConstant .outside a with
    | true => rfl
    | false =>
      show f (x, b ++ rest) = _
      rw [hstrict', Bool.false_or]

/-- Something without a name in it stands before. -/
theorem Reads.prepend (ht : ∀ c ∈ t, silent c = true) (h : Reads s rest strict x) :
    Reads (t ++ s) rest strict x := by
  obtain ⟨used, rfl, hafter, hstrict⟩ := h
  obtain ⟨hquiet, hnone⟩ := after_silent ht
  refine ⟨t ++ used, (List.append_assoc ..).symm, ?_, ?_⟩
  · rw [Place.after_append, hquiet, hafter]
  · rw [hasConstant_append, hnone, hquiet, Bool.false_or, hstrict]

theorem Reads.space (h : Reads (skipSpace s) rest strict x) : Reads s rest strict x := by
  obtain ⟨ws, hws, hs⟩ := skipSpace_split s
  rw [hs]
  exact h.prepend (silent_spaces hws)

theorem Reads.cons {c : CodePoint} (hc : silent c = true) (h : Reads s rest strict x) :
    Reads (c :: s) rest strict x :=
  h.prepend (t := [c]) (List.forall_mem_singleton.mpr hc)

/-- A literal stands before. -/
theorem Reads.literal (ht : InLiteral t .outside) (h : Reads s rest strict x) :
    Reads (ch '"' :: (t ++ s)) rest strict x := by
  have hlit : Reads (ch '"' :: (t ++ s)) s (.ok ((), s)) () := .of_literal ht
  exact hlit.bind (f := fun _ => strict) h

end

section
variable {py : Interpreter} {s rest : Str}

theorem literals_silent : ∀ e ∈ literals, ∀ c ∈ e.1, silent c = true := by
  have h : (literals.all fun e => e.1.all silent) = true := by decide +kernel
  exact fun e he => List.all_eq_true.mp (List.all_eq_true.mp h e he)

theorem constants_named : ∀ e ∈ constants, Place.outside.after e.1 = .outside ∧
    hasConstant .outside e.1 = true := by decide +kernel

theorem scanAtom_reads {v : Value} (h : scanAtom py false s = .ok (v, rest)) :
    Reads s rest (scanAtom py true s) v := by
  unfold scanAtom at h ⊢
  cases hliteral : scanName literals s with
  | some r =>
    rw [hliteral] at h
    cases h
    obtain ⟨name, hmem, rfl⟩ := scanName_sound hliteral
    exact .of_silent (literals_silent _ hmem)
  | none =>
    rw [hliteral] at h
    dsimp only at h ⊢
    cases hconstant : scanName constants s with
    | some r =>
      rw [hconstant] at h
      cases h
      obtain ⟨name, hmem, rfl⟩ := scanName_sound hconstant
      obtain ⟨hafter, hnamed⟩ := constants_named _ hmem
      exact ⟨name, rfl, hafter, by rw [hnamed]⟩
    | none =>
      rw [hconstant] at h
      obtain ⟨n, hs, -⟩ := scanNumber_sound h
      dsimp only at h ⊢
      rw [h, hs]
      exact .of_silent (silent_number n)

/-- On the fuel: what the three scanners read, the strict ones read as well. -/
theorem scan_reads (py : Interpreter) (fuel : Nat) :
    (∀ depth s rest v, scanValue py false fuel depth s = .ok (v, rest) →
      Reads s rest (scanValue py true fuel depth s) v) ∧
    (∀ depth before s rest d, scanMembers py false fuel depth before s = .ok (d, rest) →
      Reads s rest (scanMembers py true fuel depth before s) d) ∧
    (∀ depth s rest xs, scanItems py false fuel depth s = .ok (xs, rest) →
      Reads s rest (scanItems py true fuel depth s) xs) := by
  induction fuel with
  | zero =>
    refine ⟨?_, ?_, ?_⟩ <;> (intros; contradiction)
  | succ fuel ih =>
    obtain ⟨ihValue, ihMembers, ihItems⟩ := ih
    refine ⟨fun depth s rest v h => ?_, fun depth before s rest d h => ?_,
      fun depth s rest xs h => ?_⟩
    · cases s with
      | nil => cases h
      | cons c s =>
        unfold scanValue at h ⊢
        dsimp only at h ⊢
        by_cases hq : c = ch '"'
        · rw [if_pos hq] at h ⊢
          cases hs : scanString (fuel + 1) s with
          | none =>
            rw [hs] at h
            cases h
          | some r =>
            rw [hs] at h
            cases h
            obtain ⟨used, rfl, hused⟩ := scanString_used hs
            rw [hq]
            exact .of_literal hused
        rw [if_neg hq] at h ⊢
        by_cases hb : c = ch '\x7b'
        · rw [if_pos hb] at h ⊢
          cases depth with
          | zero => cases h
          | succ depth =>
            refine .cons (hb ▸ by decide) (.space ?_)
            cases hsp : skipSpace s with
            | nil =>
              rw [hsp] at h
              cases h
            | cons d more =>
              rw [hsp] at h
              dsimp only at h ⊢
              by_cases hd : d = ch '\x7d'
              · rw [if_pos hd] at h ⊢
                cases h
                exact .cons (hd ▸ by decide) .done
              · rw [if_neg hd] at h ⊢
                obtain ⟨⟨entries, r⟩, hm, h⟩ := bind_ok h
                cases h
                exact (ihMembers _ _ _ _ _ hm).bind .done
        rw [if_neg hb] at h ⊢
        by_cases hl : c = ch '['
        · rw [if_pos hl] at h ⊢
          cases depth with
          | zero => cases h
          | succ depth =>
            refine .cons (hl ▸ by decide) (.space ?_)
            cases hsp : skipSpace s with
            | nil =>
              rw [hsp] at h
              cases h
            | cons d more =>
              rw [hsp] at h
              dsimp only at h ⊢
              by_cases hd : d = ch ']'
              · rw [if_pos hd] at h ⊢
                cases h
                exact .cons (hd ▸ by decide) .done
              · rw [if_neg hd] at h ⊢
                obtain ⟨⟨items, r⟩, hm, h⟩ := bind_ok h
                cases h
                exact (ihItems _ _ _ _ hm).bind .done
        rw [if_neg hl] at h ⊢
        exact scanAtom_reads h
    · cases s with
      | nil => cases h
      | cons c s =>
        unfold scanMembers at h ⊢
        dsimp only at h ⊢
        by_cases hq : c = ch '"'
        swap
        · rw [if_pos hq] at h
          cases h
        rw [if_neg (not_not.mpr hq)] at h ⊢
        cases hs : scanString (fuel + 1) s with
        | none =>
          rw [hs] at h
          cases h
        | some r =>
          obtain ⟨k, r⟩ := r
          rw [hs] at h
          obtain ⟨used, rfl, hused⟩ := scanString_used hs
          rw [hq]
          refine .literal hused (.space ?_)
          dsimp only at h ⊢
          cases hcolon : skipSpace r with
          | nil =>
            rw [hcolon] at h
            cases h
          | cons colon body =>
            rw [hcolon] at h
            dsimp only at h ⊢
            by_cases hc : colon = ch ':'
            swap
            · rw [if_pos hc] at h
              cases h
            rw [if_neg (not_not.mpr hc)] at h ⊢
            obtain ⟨⟨v, mid⟩, hv, h⟩ := bind_ok h
            refine .cons (hc ▸ by decide) (.space ?_)
            dsimp only at h
            cases hsep : skipSpace mid with
            | nil =>
              rw [hsep] at h
              cases h
            | cons sep more =>
              rw [hsep] at h
              dsimp only at h
              by_cases hend : sep = ch '\x7d'
              · rw [if_pos hend] at h
                cases h
                refine (ihValue _ _ _ _ hv).bind (.space ?_)
                rw [hsep]
                dsimp only
                rw [if_pos hend]
                exact .cons (hend ▸ by decide) .done
              · rw [if_neg hend] at h
                by_cases hcomma : sep = ch ','
                swap
                · rw [if_neg hcomma] at h
                  cases h
                rw [if_pos hcomma] at h
                refine (ihValue _ _ _ _ hv).bind (.space ?_)
                rw [hsep]
                dsimp only
                rw [if_neg hend, if_pos hcomma]
                exact .cons (hcomma ▸ by decide) (.space (ihMembers _ _ _ _ _ h))
    · unfold scanItems at h ⊢
      obtain ⟨⟨v, mid⟩, hv, h⟩ := bind_ok h
      dsimp only at h
      cases hsep : skipSpace mid with
      | nil =>
        rw [hsep] at h
        cases h
      | cons sep more =>
        rw [hsep] at h
        dsimp only at h
        by_cases hend : sep = ch ']'
        · rw [if_pos hend] at h
          cases h
          refine (ihValue _ _ _ _ hv).bind (.space ?_)
          dsimp only
          rw [hsep]
          dsimp only
          rw [if_pos hend]
          exact .cons (hend ▸ by decide) .done
        · rw [if_neg hend] at h
          by_cases hcomma : sep = ch ','
          swap
          · rw [if_neg hcomma] at h
            cases h
          rw [if_pos hcomma] at h
          obtain ⟨⟨vs, r⟩, hvs, h⟩ := bind_ok h
          cases h
          refine (ihValue _ _ _ _ hv).bind (.space ?_)
          dsimp only
          rw [hsep]
          dsimp only
          rw [if_neg hend, if_pos hcomma]
          exact .cons (hcomma ▸ by decide) (.space ((ihItems _ _ _ _ hvs).bind .done))

theorem loads_strict {data : Bytes} {v : Value} (h : loads py false data = .ok v) :
    loads py true data = if namesConstant data then .error .constant else .ok v := by
  unfold loads at h ⊢
  unfold namesConstant
  cases hs : decodeUtf8 data with
  | none =>
    rw [hs] at h
    cases h
  | some s =>
    rw [hs] at h
    dsimp only at h ⊢
    unfold loadsText at h ⊢
    split_ifs at h with hbom
    rw [if_neg hbom]
    obtain ⟨⟨x, rest⟩, hscan, h⟩ := bind_ok h
    dsimp only at h
    split_ifs at h with hend
    cases h
    obtain ⟨used, hused, hafter, hstrict⟩ :=
      ((scan_reads py (s.length + 1)).1 _ _ _ _ hscan).space
    -- only white space is left behind the value
    obtain ⟨ws, hws, hrest⟩ := skipSpace_split rest
    rw [hend, List.append_nil] at hrest
    have hnone := (after_silent (silent_spaces hws)).2
    have hall : hasConstant .outside s = hasConstant .outside used := by
      rw [hused, hasConstant_append, hafter, hrest, hnone, Bool.or_false]
    show _ = if hasConstant .outside s = true then _ else _
    rw [hstrict, hall]
    cases hasConstant .outside used with
    | true => rfl
    | false => exact if_pos hend

end

example : namesConstant (bytes "\x7b\"NaN\":\"I\"\x7d") = false := by decide +kernel

end Python
