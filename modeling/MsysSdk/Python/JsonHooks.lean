import MsysSdk.Python.JsonText

/-! `json.loads` of a text with the hooks `object_pairs_hook` and `parse_constant`. What no hook
builds has no key twice. -/

namespace Python

/-- The two hooks; an error is the text of a ValueError. -/
structure Hooks where
  objectPairs : List (Str × Value) → Except Str Value
  parseConstant : Str → Except Str Value

inductive HookedError
  | loads (error : LoadsError)
  | raised (text : Str)
deriving DecidableEq

/-- What `json.loads` itself raises, or a hook. -/
def ofLoads {α : Type} (result : Except LoadsError α) : Except HookedError α :=
  result.mapError .loads

def ofHook {α : Type} (result : Except Str α) : Except HookedError α := result.mapError .raised

section Scan

variable (py : Interpreter) (hooks : Hooks)

def hookedAtom (s : Str) : Except HookedError (Value × Str) :=
  match scanName literals s with
  | some r => .ok r
  | none =>
    match constants.findSome? fun (name, _) => (takePrefix name s).map (name, ·) with
    | some (name, rest) => do return (← ofHook (hooks.parseConstant name), rest)
    | none => ofLoads (scanNumber py s)

mutual
/-- `scanValue`, with the hooks called where an object ends and at a constant. -/
def hookedValue : Nat → Nat → Str → Except HookedError (Value × Str)
  | 0, _, _ => .error (.loads .malformed)
  | fuel + 1, depth, s =>
    match s with
    | [] => .error (.loads .malformed)
    | c :: rest =>
      if c = ch '"' then
        match scanString (fuel + 1) rest with
        | some (x, rest) => .ok (.str x, rest)
        | none => .error (.loads .malformed)
      else if c = ch '{' then
        match depth with
        | 0 => .error (.loads .recursion)
        | depth + 1 =>
          match skipSpace rest with
          | [] => .error (.loads .malformed)
          | d :: rest' =>
            if d = ch '}' then do return (← ofHook (hooks.objectPairs []), rest')
            else do
              let (pairs, rest) ← hookedMembers fuel depth (d :: rest')
              return (← ofHook (hooks.objectPairs pairs), rest)
      else if c = ch '[' then
        match depth with
        | 0 => .error (.loads .recursion)
        | depth + 1 =>
          match skipSpace rest with
          | [] => .error (.loads .malformed)
          | d :: rest' =>
            if d = ch ']' then .ok (.list [], rest')
            else do
              let (items, rest) ← hookedItems fuel depth (d :: rest')
              return (.list items, rest)
      else hookedAtom py hooks (c :: rest)

/-- The members of a non-empty object up to its closing brace, as they come. -/
def hookedMembers : Nat → Nat → Str → Except HookedError (List (Str × Value) × Str)
  | 0, _, _ => .error (.loads .malformed)
  | fuel + 1, depth, s =>
    match s with
    | [] => .error (.loads .malformed)
    | c :: rest =>
      if c ≠ ch '"' then .error (.loads .malformed)
      else match scanString (fuel + 1) rest with
        | none => .error (.loads .malformed)
        | some (k, rest) =>
          match skipSpace rest with
          | [] => .error (.loads .malformed)
          | c :: rest =>
            if c ≠ ch ':' then .error (.loads .malformed)
            else do
              let (v, rest) ← hookedValue fuel depth (skipSpace rest)
              match skipSpace rest with
              | [] => .error (.loads .malformed)
              | c :: rest =>
                if c = ch '}' then return ([(k, v)], rest)
                else if c = ch ',' then do
                  let (pairs, rest) ← hookedMembers fuel depth (skipSpace rest)
                  return ((k, v) :: pairs, rest)
                else .error (.loads .malformed)

/-- The items of a non-empty array up to its closing bracket. -/
def hookedItems : Nat → Nat → Str → Except HookedError (List Value × Str)
  | 0, _, _ => .error (.loads .malformed)
  | fuel + 1, depth, s => do
    let (v, rest) ← hookedValue fuel depth s
    match skipSpace rest with
    | [] => .error (.loads .malformed)
    | c :: rest =>
      if c = ch ']' then return ([v], rest)
      else if c = ch ',' then do
        let (vs, rest) ← hookedItems fuel depth (skipSpace rest)
        return (v :: vs, rest)
      else .error (.loads .malformed)
end

/-- `json.loads(s, object_pairs_hook=…, parse_constant=…)`. -/
def hookedLoads (s : Str) : Except HookedError Value :=
  if s.head? = some (.ofNat 0xFEFF) then .error (.loads .malformed)
  else do
    let (v, rest) ← hookedValue py hooks (s.length + 1) py.recursionLimit (skipSpace s)
    if skipSpace rest = [] then .ok v else .error (.loads .malformed)

end Scan

/-! ### No key twice -/

/-- The hooks build no mapping that has a key twice. -/
structure Hooks.Distinct (hooks : Hooks) : Prop where
  objectPairs : ∀ pairs v, (∀ e ∈ pairs, e.2.distinct = true) → hooks.objectPairs pairs = .ok v →
    v.distinct = true
  parseConstant : ∀ name v, hooks.parseConstant name = .ok v → v.distinct = true

variable {py : Interpreter} {hooks : Hooks}

theorem mapError_ok {ε δ α : Type} {f : ε → δ} {x : Except ε α} {a : α}
    (h : x.mapError f = .ok a) : x = .ok a := by
  cases x with
  | error e => cases h
  | ok b =>
    cases h
    rfl

theorem scanNumber_distinct {s rest : Str} {v : Value} (h : scanNumber py s = .ok (v, rest)) :
    v.distinct = true := by
  have hvalue : ∀ {sign digits frac exp : Str} {v : Value},
      numberValue py sign digits frac exp = .ok v → v.distinct = true := by
    intro sign digits frac exp v h
    rw [numberValue] at h
    split_ifs at h <;> cases h <;> rfl
  have hunsigned : ∀ {sign s rest : Str} {v : Value},
      scanUnsigned py sign s = .ok (v, rest) → v.distinct = true := by
    intro sign s rest v h
    cases s with
    | nil => cases h
    | cons d tail =>
      rw [scanUnsigned] at h
      split_ifs at h
      obtain ⟨w, hw, heq⟩ := bind_ok h
      cases heq
      exact hvalue hw
  cases s with
  | nil => cases h
  | cons c tail =>
    rw [scanNumber] at h
    split_ifs at h
    · exact hunsigned h
    · exact hunsigned h

theorem hookedAtom_distinct (hh : hooks.Distinct) {s rest : Str} {v : Value}
    (h : hookedAtom py hooks s = .ok (v, rest)) : v.distinct = true := by
  rw [hookedAtom] at h
  split at h
  next r hr =>
    obtain ⟨e, he, hsome⟩ := List.exists_of_findSome?_eq_some hr
    obtain ⟨tail, -, rfl⟩ := Option.map_eq_some_iff.mp hsome
    cases h
    have hall : literals.all (fun e => e.2.distinct) = true := rfl
    exact List.all_eq_true.mp hall e he
  next =>
    split at h
    next name rest' _ =>
      obtain ⟨w, hw, heq⟩ := bind_ok h
      cases heq
      exact hh.parseConstant name _ (mapError_ok hw)
    next => exact scanNumber_distinct (mapError_ok h)

theorem distinctItems_iff {xs : List Value} :
    distinctItems xs = true ↔ ∀ x ∈ xs, x.distinct = true := by
  induction xs with
  | nil => simp [distinctItems]
  | cons x xs ih => rw [distinctItems, Bool.and_eq_true, ih, List.forall_mem_cons]

/-- What a scan finds has no key twice. -/
structure ScansDistinct (py : Interpreter) (hooks : Hooks) (fuel : Nat) : Prop where
  value : ∀ {depth s v rest}, hookedValue py hooks fuel depth s = .ok (v, rest) →
    v.distinct = true
  members : ∀ {depth s pairs rest}, hookedMembers py hooks fuel depth s = .ok (pairs, rest) →
    ∀ e ∈ pairs, e.2.distinct = true
  items : ∀ {depth s xs rest}, hookedItems py hooks fuel depth s = .ok (xs, rest) →
    ∀ x ∈ xs, x.distinct = true

theorem hookedValue_distinct (hh : hooks.Distinct) {fuel : Nat}
    (ih : ScansDistinct py hooks fuel) {depth : Nat} {s rest : Str} {v : Value}
    (h : hookedValue py hooks (fuel + 1) depth s = .ok (v, rest)) : v.distinct = true := by
  have hobject : ∀ {pairs : List (Str × Value)} {tail : Str},
      (∀ e ∈ pairs, e.2.distinct = true) →
      (do return (← ofHook (hooks.objectPairs pairs), tail)) = Except.ok (v, rest) →
      v.distinct = true := by
    intro pairs tail hpairs hreturn
    obtain ⟨w, hw, heq⟩ := bind_ok hreturn
    cases heq
    exact hh.objectPairs pairs _ hpairs (mapError_ok hw)
  unfold hookedValue at h
  cases s with
  | nil => cases h
  | cons c tail =>
    dsimp only at h
    split_ifs at h
    · split at h <;> cases h
      rfl
    · split at h
      · cases h
      · split at h
        · cases h
        · split_ifs at h
          · exact hobject (List.forall_mem_nil _) h
          · obtain ⟨⟨pairs, after⟩, hmembers, hreturn⟩ := bind_ok h
            exact hobject (ih.members hmembers) hreturn
    · split at h
      · cases h
      · split at h
        · cases h
        · split_ifs at h
          · cases h
            rfl
          · obtain ⟨⟨xs, after⟩, hitems, hreturn⟩ := bind_ok h
            cases hreturn
            exact distinctItems_iff.mpr (ih.items hitems)
    · exact hookedAtom_distinct hh h

theorem hookedMembers_distinct {fuel : Nat} (ih : ScansDistinct py hooks fuel) {depth : Nat}
    {s rest : Str} {pairs : List (Str × Value)}
    (h : hookedMembers py hooks (fuel + 1) depth s = .ok (pairs, rest)) :
    ∀ e ∈ pairs, e.2.distinct = true := by
  cases s with
  | nil =>
    rw [hookedMembers] at h
    cases h
  | cons c tail =>
    rw [hookedMembers] at h
    split_ifs at h
    split at h
    · cases h
    split at h
    · cases h
    split_ifs at h
    obtain ⟨⟨v, after⟩, hvalue, hrest⟩ := bind_ok h
    dsimp only at hrest
    split at hrest
    · cases hrest
    split_ifs at hrest
    · cases hrest
      exact List.forall_mem_singleton.mpr (ih.value hvalue)
    · obtain ⟨⟨more, after'⟩, hmembers, hreturn⟩ := bind_ok hrest
      cases hreturn
      exact List.forall_mem_cons.mpr ⟨ih.value hvalue, ih.members hmembers⟩

theorem hookedItems_distinct {fuel : Nat} (ih : ScansDistinct py hooks fuel) {depth : Nat}
    {s rest : Str} {xs : List Value}
    (h : hookedItems py hooks (fuel + 1) depth s = .ok (xs, rest)) :
    ∀ x ∈ xs, x.distinct = true := by
  rw [hookedItems] at h
  obtain ⟨⟨v, after⟩, hvalue, hrest⟩ := bind_ok h
  dsimp only at hrest
  split at hrest
  · cases hrest
  split_ifs at hrest
  · cases hrest
    exact List.forall_mem_singleton.mpr (ih.value hvalue)
  · obtain ⟨⟨more, after'⟩, hitems, hreturn⟩ := bind_ok hrest
    cases hreturn
    exact List.forall_mem_cons.mpr ⟨ih.value hvalue, ih.items hitems⟩

theorem scansDistinct (hh : hooks.Distinct) (fuel : Nat) : ScansDistinct py hooks fuel := by
  induction fuel with
  | zero =>
    constructor
    · intro depth s v rest h
      rw [hookedValue] at h
      cases h
    · intro depth s pairs rest h
      rw [hookedMembers] at h
      cases h
    · intro depth s xs rest h
      rw [hookedItems] at h
      cases h
  | succ fuel ih =>
    exact ⟨hookedValue_distinct hh ih, hookedMembers_distinct ih, hookedItems_distinct ih⟩

theorem hookedLoads_distinct (hh : hooks.Distinct) {s : Str} {v : Value}
    (h : hookedLoads py hooks s = .ok v) : v.distinct = true := by
  rw [hookedLoads] at h
  split_ifs at h
  obtain ⟨⟨w, rest⟩, hvalue, hrest⟩ := bind_ok h
  dsimp only at hrest
  split_ifs at hrest
  cases hrest
  exact (scansDistinct hh _).value hvalue

end Python
