import MsysSdk.Python.JsonRoundTrip

/-! A JSON text that the decoder has read is read alike when more text stands behind it, with
more fuel, and less deep in another text. -/

namespace Python

/-! ### Strings -/

theorem hexQuad_append {s r : Str} {n : Nat} (t : Str) (h : hexQuad s = some (n, r)) :
    hexQuad (s ++ t) = some (n, r ++ t) := by
  match s, h with
  | a :: b :: c :: d :: s, h =>
    simp only [hexQuad, Option.bind_eq_bind, Option.bind_eq_some_iff, Option.pure_def,
      Option.some.injEq, Prod.mk.injEq] at h
    obtain ⟨w, hw, x, hx, y, hy, z, hz, rfl, rfl⟩ := h
    simp [hexQuad, hw, hx, hy, hz]

theorem scanUnicode_quad {s r : Str} {n : Nat} (h : hexQuad s = some (n, r)) :
    scanUnicode s = if 0xD800 ≤ n && n ≤ 0xDBFF then
      match r with
      | a :: b :: r' =>
        if a = ch '\\' && b = ch 'u' then
          match hexQuad r' with
          | some (m, r'') =>
            if 0xDC00 ≤ m && m ≤ 0xDFFF then
              some (.ofNat (0x10000 + (n - 0xD800) * 0x400 + (m - 0xDC00)), r'')
            else some (.ofNat n, r)
          | none => some (.ofNat n, r)
        else some (.ofNat n, r)
      | _ => some (.ofNat n, r)
    else some (.ofNat n, r) := by
  rw [scanUnicode, h]
  rfl

/-- An escape is read alike if the string goes on behind it. -/
theorem scanUnicode_append {s r : Str} {x : CodePoint} (t : Str)
    (h : scanUnicode s = some (x, r)) {n : Nat} {z : Str × Str} (hr : scanString n r = some z) :
    scanUnicode (s ++ t) = some (x, r ++ t) := by
  cases hquad : hexQuad s with
  | none =>
    rw [scanUnicode, hquad] at h
    cases h
  | some p =>
    obtain ⟨code, after⟩ := p
    rw [scanUnicode_quad hquad] at h
    rw [scanUnicode_quad (hexQuad_append t hquad)]
    by_cases hhigh : (0xD800 ≤ code && code ≤ 0xDBFF) = true
    swap
    · rw [if_neg hhigh] at h ⊢
      cases h
      rfl
    rw [if_pos hhigh] at h ⊢
    cases n with
    | zero => cases hr
    | succ n =>
      rcases after with _ | ⟨a, _ | ⟨b, low⟩⟩
      · cases h
        cases hr
      · cases h
        -- nothing but the closing quote
        have ha : a = ch '"' := by
          by_contra hne
          by_cases hslash : a = ch '\\'
          · subst hslash
            simp [scanString, hne] at hr
          · unfold scanString at hr
            simp only [if_neg hne, if_neg hslash] at hr
            split_ifs at hr
            cases n <;> simp [scanString] at hr
        subst ha
        have hne : (ch '"' = ch '\\') = False := by decide
        cases t with
        | nil => rfl
        | cons b t => simp [hne]
      · dsimp only [List.cons_append] at h ⊢
        by_cases hu : (a = ch '\\' && b = ch 'u') = true
        swap
        · rw [if_neg hu] at h ⊢
          cases h
          rfl
        rw [if_pos hu] at h ⊢
        cases hlow : hexQuad low with
        | none =>
          -- then the string could not go on
          rw [hlow] at h
          cases h
          simp only [Bool.and_eq_true, decide_eq_true_eq] at hu
          obtain ⟨rfl, rfl⟩ := hu
          have hne : ch '\\' ≠ ch '"' := by decide
          unfold scanString at hr
          dsimp only at hr
          rw [if_neg hne] at hr
          simp only [if_true, scanUnicode, hlow] at hr
          cases hr
        | some q =>
          obtain ⟨m, more⟩ := q
          rw [hlow] at h
          rw [hexQuad_append t hlow]
          dsimp only at h ⊢
          by_cases hm : (0xDC00 ≤ m && m ≤ 0xDFFF) = true
          · rw [if_pos hm, Option.some.injEq, Prod.mk.injEq] at h
            rw [if_pos hm, h.1, h.2]
          · rw [if_neg hm, Option.some.injEq, Prod.mk.injEq] at h
            rw [if_neg hm, h.1, ← h.2]
            rfl

theorem scanString_append {n m : Nat} {s x r : Str} (t : Str) (h : scanString n s = some (x, r))
    (hnm : n ≤ m) : scanString m (s ++ t) = some (x, r ++ t) := by
  induction n generalizing s x m with
  | zero => cases h
  | succ n ih =>
    obtain ⟨m, rfl⟩ : ∃ m', m = m' + 1 := ⟨m - 1, by omega⟩
    have hnm : n ≤ m := by omega
    cases s with
    | nil => cases h
    | cons c s =>
      unfold scanString at h
      rw [List.cons_append]
      unfold scanString
      dsimp only at h ⊢
      by_cases hquote : c = ch '"'
      · rw [if_pos hquote] at h ⊢
        cases h
        rfl
      rw [if_neg hquote] at h ⊢
      by_cases hslash : c = ch '\\'
      · rw [if_pos hslash] at h ⊢
        cases s with
        | nil => cases h
        | cons e s =>
          dsimp only [List.cons_append] at h ⊢
          by_cases hu : e = ch 'u'
          · rw [if_pos hu] at h ⊢
            simp only [Option.bind_eq_bind, Option.bind_eq_some_iff] at h
            obtain ⟨⟨y, more⟩, hy, ⟨ys, tail⟩, hys, h⟩ := h
            cases h
            exact Option.bind_eq_some_iff.mpr ⟨_, scanUnicode_append t hy hys,
              Option.bind_eq_some_iff.mpr ⟨_, ih hys hnm, rfl⟩⟩
          · rw [if_neg hu] at h ⊢
            simp only [Option.bind_eq_bind, Option.bind_eq_some_iff] at h
            obtain ⟨y, hy, ⟨ys, tail⟩, hys, h⟩ := h
            cases h
            exact Option.bind_eq_some_iff.mpr ⟨_, hy,
              Option.bind_eq_some_iff.mpr ⟨_, ih hys hnm, rfl⟩⟩
      rw [if_neg hslash] at h ⊢
      split_ifs at h ⊢
      simp only [Option.bind_eq_bind, Option.bind_eq_some_iff] at h
      obtain ⟨⟨ys, tail⟩, hys, h⟩ := h
      cases h
      exact Option.bind_eq_some_iff.mpr ⟨_, ih hys hnm, rfl⟩

/-! ### Numbers -/

/-- No number goes on here. -/
def Stops (rest : Str) : Prop :=
  ∀ c, rest.head? = some c → isDigit c = false ∧ c ≠ ch '.' ∧ c ≠ ch 'e' ∧ c ≠ ch 'E'

theorem Stops.noDigit {rest : Str} (h : Stops rest) : NoDigit rest := fun c hc => (h c hc).1

theorem Stops.of_nil {r t : Str} (h : Stops (r ++ t)) (hr : r = []) : Stops t := by
  subst hr
  exact h

theorem takeDigits_append {s t : Str} (h : s.dropWhile isDigit = [] → NoDigit t) :
    (s ++ t).takeWhile isDigit = s.takeWhile isDigit ∧
      (s ++ t).dropWhile isDigit = s.dropWhile isDigit ++ t := by
  have hstop : NoDigit (s.dropWhile isDigit ++ t) := by
    cases hs : s.dropWhile isDigit with
    | nil => exact h hs
    | cons c r =>
      intro x hx
      cases hx
      have hc := List.head?_dropWhile_not isDigit s
      rwa [hs] at hc
  have htake := takeDigits (fun c (hc : c ∈ s.takeWhile isDigit) => List.mem_takeWhile_imp hc) hstop
  rwa [← List.append_assoc, List.takeWhile_append_dropWhile] at htake

theorem scanDigits_append {d : CodePoint} {s ds r t : Str} (h : scanDigits d s = (ds, r))
    (hr : r = [] → NoDigit t) : scanDigits d (s ++ t) = (ds, r ++ t) := by
  unfold scanDigits at h ⊢
  split_ifs at h ⊢ with hd
  · cases h
    rfl
  · cases h
    obtain ⟨htake, hdrop⟩ := takeDigits_append hr
    rw [htake, hdrop]

theorem scanFraction_append {s f r t : Str} (h : scanFraction s = (f, r))
    (hr : r = [] → Stops t) (hs : s.length < 2 → Stops (s ++ t)) :
    scanFraction (s ++ t) = (f, r ++ t) := by
  match s, h with
  | [], h =>
    cases h
    match t, hr rfl with
    | [], _ => rfl
    | [p], _ => rfl
    | p :: d :: t, hstop =>
      have hp : p ≠ ch '.' := (hstop p rfl).2.1
      simp [scanFraction, hp]
  | [p], h =>
    cases h
    have hp : p ≠ ch '.' := (hs (by simp) p rfl).2.1
    cases t with
    | nil => rfl
    | cons d t => simp [scanFraction, hp]
  | p :: d :: s, h =>
    simp only [scanFraction, List.cons_append] at h ⊢
    split_ifs at h ⊢ with hp
    · cases h
      obtain ⟨htake, hdrop⟩ := takeDigits_append fun hnil => (hr hnil).noDigit
      rw [htake, hdrop]
    · cases h
      rfl

theorem scanExponent_append {s e r t : Str} (h : scanExponent s = (e, r)) (hr : Stops (r ++ t)) :
    scanExponent (s ++ t) = (e, r ++ t) := by
  have hstop : ∀ rest : Str, Stops rest → scanExponent rest = ([], rest) := by
    intro rest hrest
    rcases rest with _ | ⟨c, _ | ⟨d, rest⟩⟩
    · rfl
    · rfl
    · obtain ⟨-, -, he, hE⟩ := hrest c rfl
      simp [scanExponent, he, hE]
  rcases s with _ | ⟨c, _ | ⟨d, s⟩⟩
  · cases h
    exact hstop _ hr
  · cases h
    exact hstop _ hr
  · by_cases he : (c = ch 'e' || c = ch 'E') = true
    swap
    · simp only [scanExponent, if_neg he] at h
      cases h
      exact hstop _ hr
    by_cases hd : isDigit d = true
    · simp only [scanExponent, List.cons_append, if_pos he, if_pos hd] at h ⊢
      cases h
      obtain ⟨htake, hdrop⟩ := takeDigits_append fun hnil => (hr.of_nil hnil).noDigit
      rw [htake, hdrop]
    by_cases hsign : (d = ch '+' || d = ch '-') = true
    swap
    · simp only [scanExponent, if_pos he, if_neg hd, if_neg hsign] at h
      cases h
      exact hstop _ hr
    cases s with
    | nil =>
      simp only [scanExponent, if_pos he, if_neg hd, if_pos hsign] at h
      cases h
      exact hstop _ hr
    | cons f s =>
      by_cases hf : isDigit f = true
      · simp only [scanExponent, List.cons_append, if_pos he, if_neg hd, if_pos hsign,
          if_pos hf] at h ⊢
        cases h
        obtain ⟨htake, hdrop⟩ := takeDigits_append fun hnil => (hr.of_nil hnil).noDigit
        rw [htake, hdrop]
      · simp only [scanExponent, if_pos he, if_neg hd, if_pos hsign, if_neg hf] at h
        cases h
        exact hstop _ hr

/-- A fraction or an exponent needs two characters. -/
theorem scan_short {s : Str} (h : s.length < 2) :
    scanFraction s = ([], s) ∧ scanExponent s = ([], s) := by
  match s, h with
  | [], _ => exact ⟨rfl, rfl⟩
  | [c], _ => exact ⟨rfl, rfl⟩

section
variable {py : Interpreter} {finiteOnly : Bool}

theorem scanUnsigned_append {sign s r t : Str} {v : Value}
    (h : scanUnsigned py sign s = .ok (v, r)) (hr : Stops (r ++ t)) :
    scanUnsigned py sign (s ++ t) = .ok (v, r ++ t) := by
  cases s with
  | nil => cases h
  | cons d s =>
    rw [List.cons_append]
    unfold scanUnsigned at h ⊢
    dsimp only at h ⊢
    split_ifs at h ⊢
    cases hdigits : scanDigits d s with | mk ds r₁ =>
    cases hfraction : scanFraction r₁ with | mk f r₂ =>
    cases hexponent : scanExponent r₂ with | mk e r₃ =>
    simp only [hdigits, hfraction, hexponent] at h
    obtain ⟨x, hx, h⟩ := bind_ok h
    cases h
    -- what is short is left over
    have hshort : r₁.length < 2 → r = r₁ := by
      intro hlen
      obtain ⟨hf, he⟩ := scan_short hlen
      rw [hf] at hfraction
      cases hfraction
      rw [he] at hexponent
      cases hexponent
      rfl
    have hnil : r₂ = [] → Stops t := by
      rintro rfl
      cases hexponent
      exact hr.of_nil rfl
    have hdigits' := scanDigits_append (t := t) hdigits fun h₁ => by
      subst h₁
      rw [hshort (by simp)] at hr
      exact hr.noDigit
    have hfraction' := scanFraction_append hfraction hnil fun hlen => by rwa [hshort hlen] at hr
    simp only [hdigits', hfraction', scanExponent_append hexponent hr, hx]
    rfl

theorem scanNumber_append {s r t : Str} {v : Value} (h : scanNumber py s = .ok (v, r))
    (hr : Stops (r ++ t)) : scanNumber py (s ++ t) = .ok (v, r ++ t) := by
  cases s with
  | nil => cases h
  | cons c s =>
    rw [List.cons_append]
    unfold scanNumber at h ⊢
    dsimp only at h ⊢
    split_ifs at h ⊢
    · exact scanUnsigned_append h hr
    · exact scanUnsigned_append h hr

/-! ### Values -/

theorem scanAtom_literal (name : Str) (v : Value) (rest : Str) (h : (name, v) ∈ literals) :
    scanAtom py finiteOnly (name ++ rest) = .ok (v, rest) := by
  simp only [literals, List.mem_cons, Prod.mk.injEq, List.not_mem_nil, or_false] at h
  rcases h with ⟨rfl, rfl⟩ | ⟨rfl, rfl⟩ | ⟨rfl, rfl⟩ <;> rfl

theorem scanAtom_append {s r t : Str} {v : Value} (h : scanAtom py finiteOnly s = .ok (v, r))
    (hr : Stops (r ++ t)) : scanAtom py finiteOnly (s ++ t) = .ok (v, r ++ t) := by
  unfold scanAtom at h
  cases hliteral : scanName literals s with
  | some p =>
    rw [hliteral] at h
    cases h
    obtain ⟨name, hmem, rfl⟩ := scanName_sound hliteral
    rw [List.append_assoc]
    exact scanAtom_literal name v _ hmem
  | none =>
    rw [hliteral] at h
    dsimp only at h
    cases hconstant : scanName constants s with
    | some p =>
      rw [hconstant] at h
      cases finiteOnly with
      | true => cases h
      | false =>
        cases h
        obtain ⟨name, hmem, rfl⟩ := scanName_sound hconstant
        rw [List.append_assoc]
        exact scanAtom_constant name v hmem
    | none =>
      rw [hconstant] at h
      obtain ⟨n, rfl, -⟩ := scanNumber_sound h
      rw [List.append_assoc, scanAtom_number, ← List.append_assoc]
      exact scanNumber_append h hr

theorem skipSpace_append {s rest : Str} {c : CodePoint} (h : skipSpace s = c :: rest) (t : Str) :
    skipSpace (s ++ t) = c :: (rest ++ t) := by
  unfold skipSpace at h ⊢
  rw [List.dropWhile_append, h]
  rfl

/-- White space and the signs of a container end a number. -/
theorem stops_of_next {r more : Str} {c : CodePoint} (h : skipSpace r = c :: more)
    (hc : c ∈ [ch ',', ch ']', ch '\x7d']) (t : Str) : Stops (r ++ t) := by
  have key : ∀ x : CodePoint, isSpace x = true ∨ x ∈ [ch ',', ch ']', ch '\x7d'] →
      isDigit x = false ∧ x ≠ ch '.' ∧ x ≠ ch 'e' ∧ x ≠ ch 'E' := by
    rintro x (hx | hx)
    · simp only [isSpace, Bool.or_eq_true, decide_eq_true_eq] at hx
      rcases hx with ((rfl | rfl) | rfl) | rfl <;> decide
    · simp only [List.mem_cons, List.not_mem_nil, or_false] at hx
      rcases hx with rfl | rfl | rfl <;> decide
  intro x hx
  cases r with
  | nil => cases h
  | cons y r =>
    obtain rfl : y = x := Option.some.inj hx
    by_cases hspace : isSpace y = true
    · exact key y (.inl hspace)
    · rw [skipSpace_cons r (by simpa using hspace)] at h
      exact key y (.inr ((List.cons.inj h).1 ▸ hc))

/-- On the fuel: all three scanners read the text alike in front of `t`. -/
theorem scan_extend (t : Str) (fuel : Nat) :
    (∀ depth s r v, scanValue py finiteOnly fuel depth s = .ok (v, r) → Stops (r ++ t) →
      ∀ fuel' ≥ fuel, ∀ depth' ≥ depth,
        scanValue py finiteOnly fuel' depth' (s ++ t) = .ok (v, r ++ t)) ∧
    (∀ depth before s r d, scanMembers py finiteOnly fuel depth before s = .ok (d, r) →
      ∀ fuel' ≥ fuel, ∀ depth' ≥ depth,
        scanMembers py finiteOnly fuel' depth' before (s ++ t) = .ok (d, r ++ t)) ∧
    (∀ depth s r xs, scanItems py finiteOnly fuel depth s = .ok (xs, r) →
      ∀ fuel' ≥ fuel, ∀ depth' ≥ depth,
        scanItems py finiteOnly fuel' depth' (s ++ t) = .ok (xs, r ++ t)) := by
  induction fuel with
  | zero =>
    refine ⟨?_, ?_, ?_⟩ <;> (intros; contradiction)
  | succ fuel ih =>
    obtain ⟨ihValue, ihMembers, ihItems⟩ := ih
    refine ⟨fun depth s r v h hr fuel' hfuel depth' hdepth => ?_,
      fun depth before s r d h fuel' hfuel depth' hdepth => ?_,
      fun depth s r xs h fuel' hfuel depth' hdepth => ?_⟩
    all_goals obtain ⟨fuel', rfl⟩ : ∃ n, fuel' = n + 1 := ⟨fuel' - 1, by omega⟩
    all_goals have hfuel : fuel ≤ fuel' := by omega
    · cases s with
      | nil => cases h
      | cons c s =>
        rw [List.cons_append]
        unfold scanValue at h ⊢
        dsimp only at h ⊢
        by_cases hq : c = ch '"'
        · rw [if_pos hq] at h ⊢
          cases hs : scanString (fuel + 1) s with
          | none =>
            rw [hs] at h
            cases h
          | some p =>
            rw [hs] at h
            cases h
            rw [scanString_append t hs (by omega)]
        rw [if_neg hq] at h ⊢
        by_cases hb : c = ch '\x7b'
        · rw [if_pos hb] at h ⊢
          cases depth with
          | zero => cases h
          | succ depth =>
            obtain ⟨depth', rfl⟩ : ∃ n, depth' = n + 1 := ⟨depth' - 1, by omega⟩
            dsimp only at h ⊢
            cases hsp : skipSpace s with
            | nil =>
              rw [hsp] at h
              cases h
            | cons d more =>
              rw [hsp] at h
              rw [skipSpace_append hsp t]
              dsimp only at h ⊢
              by_cases hd : d = ch '\x7d'
              · rw [if_pos hd] at h ⊢
                cases h
                rfl
              · rw [if_neg hd] at h ⊢
                obtain ⟨⟨entries, r'⟩, hm, h⟩ := bind_ok h
                cases h
                have hmore := ihMembers _ _ _ _ _ hm fuel' hfuel depth' (by omega)
                rw [List.cons_append] at hmore
                rw [hmore]
                rfl
        rw [if_neg hb] at h ⊢
        by_cases hl : c = ch '['
        · rw [if_pos hl] at h ⊢
          cases depth with
          | zero => cases h
          | succ depth =>
            obtain ⟨depth', rfl⟩ : ∃ n, depth' = n + 1 := ⟨depth' - 1, by omega⟩
            dsimp only at h ⊢
            cases hsp : skipSpace s with
            | nil =>
              rw [hsp] at h
              cases h
            | cons d more =>
              rw [hsp] at h
              rw [skipSpace_append hsp t]
              dsimp only at h ⊢
              by_cases hd : d = ch ']'
              · rw [if_pos hd] at h ⊢
                cases h
                rfl
              · rw [if_neg hd] at h ⊢
                obtain ⟨⟨items, r'⟩, hm, h⟩ := bind_ok h
                cases h
                have hmore := ihItems _ _ _ _ hm fuel' hfuel depth' (by omega)
                rw [List.cons_append] at hmore
                rw [hmore]
                rfl
        rw [if_neg hl] at h ⊢
        exact scanAtom_append h hr
    · cases s with
      | nil => cases h
      | cons c s =>
        rw [List.cons_append]
        unfold scanMembers at h ⊢
        dsimp only at h ⊢
        by_cases hq : c = ch '"'
        swap
        · rw [if_pos hq] at h
          cases h
        rw [if_neg (not_not.mpr hq)] at h ⊢
        cases hs : scanString (fuel + 1) s with
        | none =>
          rw [hs] at h
          cases h
        | some p =>
          obtain ⟨k, after⟩ := p
          rw [hs] at h
          rw [scanString_append t hs (by omega)]
          dsimp only at h ⊢
          cases hcolon : skipSpace after with
          | nil =>
            rw [hcolon] at h
            cases h
          | cons colon body =>
            rw [hcolon] at h
            rw [skipSpace_append hcolon t]
            dsimp only at h ⊢
            by_cases hc : colon = ch ':'
            swap
            · rw [if_pos hc] at h
              cases h
            rw [if_neg (not_not.mpr hc)] at h ⊢
            obtain ⟨⟨v, mid⟩, hv, h⟩ := bind_ok h
            dsimp only at h
            cases hsep : skipSpace mid with
            | nil =>
              rw [hsep] at h
              cases h
            | cons sep more =>
              rw [hsep] at h
              dsimp only at h
              have hvalue : sep ∈ [ch ',', ch ']', ch '\x7d'] →
                  scanValue py finiteOnly fuel' depth' (skipSpace (body ++ t)) =
                    .ok (v, mid ++ t) := by
                intro hmem
                cases hbody : skipSpace body with
                | nil =>
                  rw [hbody] at hv
                  cases fuel <;> cases hv
                | cons b tail =>
                  rw [skipSpace_append hbody t, ← List.cons_append, ← hbody]
                  exact ihValue _ _ _ _ hv (stops_of_next hsep hmem t) fuel' hfuel depth' hdepth
              by_cases hend : sep = ch '\x7d'
              · rw [if_pos hend] at h
                cases h
                rw [hvalue (by simp [hend])]
                dsimp only [bind, Except.bind]
                rw [skipSpace_append hsep t]
                exact if_pos hend
              · rw [if_neg hend] at h
                by_cases hcomma : sep = ch ','
                swap
                · rw [if_neg hcomma] at h
                  cases h
                rw [if_pos hcomma] at h
                rw [hvalue (by simp [hcomma])]
                dsimp only [bind, Except.bind]
                rw [skipSpace_append hsep t]
                dsimp only
                rw [if_neg hend, if_pos hcomma]
                cases hmore : skipSpace more with
                | nil =>
                  rw [hmore] at h
                  cases fuel <;> cases h
                | cons b tail =>
                  rw [skipSpace_append hmore t, ← List.cons_append, ← hmore]
                  exact ihMembers _ _ _ _ _ h fuel' hfuel depth' hdepth
    · unfold scanItems at h ⊢
      obtain ⟨⟨v, mid⟩, hv, h⟩ := bind_ok h
      dsimp only at h
      cases hsep : skipSpace mid with
      | nil =>
        rw [hsep] at h
        cases h
      | cons sep more =>
        rw [hsep] at h
        dsimp only at h
        have hvalue : sep ∈ [ch ',', ch ']', ch '\x7d'] →
            scanValue py finiteOnly fuel' depth' (s ++ t) = .ok (v, mid ++ t) := fun hmem =>
          ihValue _ _ _ _ hv (stops_of_next hsep hmem t) fuel' hfuel depth' hdepth
        by_cases hend : sep = ch ']'
        · rw [if_pos hend] at h
          cases h
          rw [hvalue (by simp [hend])]
          dsimp only [bind, Except.bind]
          rw [skipSpace_append hsep t]
          exact if_pos hend
        · rw [if_neg hend] at h
          by_cases hcomma : sep = ch ','
          swap
          · rw [if_neg hcomma] at h
            cases h
          rw [if_pos hcomma] at h
          obtain ⟨⟨vs, r'⟩, hvs, h⟩ := bind_ok h
          cases h
          rw [hvalue (by simp [hcomma])]
          dsimp only [bind, Except.bind]
          rw [skipSpace_append hsep t]
          dsimp only
          rw [if_neg hend, if_pos hcomma]
          cases hmore : skipSpace more with
          | nil =>
            rw [hmore] at hvs
            cases fuel with
            | zero => cases hvs
            | succ fuel =>
              unfold scanItems at hvs
              cases fuel <;> cases hvs
          | cons b tail =>
            rw [skipSpace_append hmore t, ← List.cons_append, ← hmore,
              ihItems _ _ _ _ hvs fuel' hfuel depth' hdepth]
            rfl

end

end Python
