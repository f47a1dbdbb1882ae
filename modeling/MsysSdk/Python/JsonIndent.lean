import MsysSdk.Python.JsonRoundTrip

/-! `json.dumps(v, ensure_ascii=False, indent=n)`: every item and every member on a line of its own.
`json.loads` reads it back. -/

namespace Python

/-- A new line on the level. -/
def lineStart (indent level : Nat) : Str := ch '\n' :: List.replicate (indent * level) (ch ' ')

mutual
/-- The text of a value on a level; the first number is the nesting the recursion limit leaves. -/
def dumpIndented (indent : Nat) : Nat → Nat → Value → Except DumpsError Str
  | depth + 1, level, .list (x :: xs) => do
    let body ← indentedItems indent depth (level + 1) (x :: xs)
    return ch '[' :: (lineStart indent (level + 1) ++ (body ++ (lineStart indent level ++ [ch ']'])))
  | depth + 1, level, .dict (e :: d) => do
    let body ← indentedEntries indent depth (level + 1) (e :: d)
    return ch '{' :: (lineStart indent (level + 1) ++ (body ++ (lineStart indent level ++ [ch '}'])))
  -- what has no items, and what is nested too deep
  | depth, _, v => dumpValue true depth v

def indentedItems (indent depth level : Nat) : List Value → Except DumpsError Str
  | [] => .ok []
  | [x] => dumpIndented indent depth level x
  | x :: y :: xs => do
    let a ← dumpIndented indent depth level x
    let b ← indentedItems indent depth level (y :: xs)
    return a ++ ch ',' :: (lineStart indent level ++ b)

def indentedEntries (indent depth level : Nat) : List (Value × Value) → Except DumpsError Str
  | [] => .ok []
  | [(k, v)] => do
    let a ← keyText true k
    let b ← dumpIndented indent depth level v
    return quoted a ++ ch ':' :: ch ' ' :: b
  | (k, v) :: e :: d => do
    let a ← keyText true k
    let b ← dumpIndented indent depth level v
    let rest ← indentedEntries indent depth level (e :: d)
    return quoted a ++ ch ':' :: ch ' ' :: (b ++ ch ',' :: (lineStart indent level ++ rest))
end

example : dumpIndented 2 8 0 (.dict [(.str (str "a"), .list [.int 1, .list []])]) =
    .ok (str "\x7b\n  \"a\": [\n    1,\n    []\n  ]\n\x7d") := rfl

/-! ### White space between the tokens -/

theorem blank_lineStart (indent level : Nat) : Blank (lineStart indent level) := by
  refine List.forall_mem_cons.mpr ⟨by decide, fun c hc => ?_⟩
  rw [List.eq_of_mem_replicate hc]
  decide

theorem blank_space : Blank [ch ' '] := List.forall_mem_singleton.mpr (by decide)

theorem closes_lineStart (indent level : Nat) (t : Str) : Closes (lineStart indent level ++ t) := by
  simp [lineStart, Closes]

section
variable {py : Interpreter} {finiteOnly : Bool} {depth fuel : Nat} {s w : Str} {x : Value}

/-- Blanks behind an opening bracket or brace. -/
theorem scanValue_opening {c : CodePoint} (hc : c = ch '[' ∨ c = ch '{') (hw : Blank w) (t : Str) :
    scanValue py finiteOnly (fuel + 1) depth (c :: (w ++ t)) =
      scanValue py finiteOnly (fuel + 1) depth (c :: t) := by
  have hq : ch '[' ≠ ch '"' ∧ ch '{' ≠ ch '"' ∧ ch '[' ≠ ch '{' := by decide
  obtain ⟨hlist, hdict, hne⟩ := hq
  rcases hc with rfl | rfl
  · unfold scanValue
    dsimp only
    rw [if_neg hlist, if_neg hne, if_pos rfl, if_neg hlist, if_neg hne, if_pos rfl, hw.skip]
  · unfold scanValue
    dsimp only
    rw [if_neg hdict, if_pos rfl, if_neg hdict, if_pos rfl, hw.skip]

/-! ### Heads -/

variable {indent level : Nat} {v : Value}

theorem dumpIndented_opens (h : dumpIndented indent depth level v = .ok s) (hv : v.IsJson py) :
    Opens s := by
  unfold dumpIndented at h
  split at h
  next =>
    obtain ⟨body, -, h⟩ := bind_ok h
    rw [← Except.ok.inj h]
    exact ⟨_, _, rfl, by decide, by decide, by decide⟩
  next =>
    obtain ⟨body, -, h⟩ := bind_ok h
    rw [← Except.ok.inj h]
    exact ⟨_, _, rfl, by decide, by decide, by decide⟩
  next => exact dumpValue_opens h hv

theorem indentedItems_opens {xs : List Value}
    (h : indentedItems indent depth level (x :: xs) = .ok s) (hx : x.IsJson py) : Opens s := by
  cases xs with
  | nil =>
    unfold indentedItems at h
    exact dumpIndented_opens h hx
  | cons y ys =>
    unfold indentedItems at h
    obtain ⟨a, ha, h⟩ := bind_ok h
    obtain ⟨b, -, h⟩ := bind_ok h
    rw [← Except.ok.inj h]
    exact (dumpIndented_opens ha hx).append _

theorem indentedEntries_opens {k : Str} {d : Dict}
    (h : indentedEntries indent depth level ((.str k, v) :: d) = .ok s) : ∃ t, s = ch '"' :: t := by
  cases d with
  | nil =>
    unfold indentedEntries at h
    obtain ⟨a, -, h⟩ := bind_ok h
    obtain ⟨b, -, h⟩ := bind_ok h
    exact ⟨_, (Except.ok.inj h).symm⟩
  | cons e d =>
    unfold indentedEntries at h
    obtain ⟨a, -, h⟩ := bind_ok h
    obtain ⟨b, -, h⟩ := bind_ok h
    obtain ⟨c, -, h⟩ := bind_ok h
    exact ⟨_, (Except.ok.inj h).symm⟩

theorem dumpIndented_cases (h : dumpIndented indent depth level v = .ok s) :
    dumpValue true depth v = .ok s ∨
      (∃ n x xs body, depth = n + 1 ∧ v = .list (x :: xs) ∧
        indentedItems indent n (level + 1) (x :: xs) = .ok body ∧ s = ch '[' ::
          (lineStart indent (level + 1) ++ (body ++ (lineStart indent level ++ [ch ']'])))) ∨
      ∃ n e d body, depth = n + 1 ∧ v = .dict (e :: d) ∧
        indentedEntries indent n (level + 1) (e :: d) = .ok body ∧ s = ch '{' ::
          (lineStart indent (level + 1) ++ (body ++ (lineStart indent level ++ [ch '}']))) := by
  unfold dumpIndented at h
  split at h
  next n x xs =>
    obtain ⟨body, hbody, h⟩ := bind_ok h
    exact .inr (.inl ⟨n, x, xs, body, rfl, rfl, hbody, (Except.ok.inj h).symm⟩)
  next n e d =>
    obtain ⟨body, hbody, h⟩ := bind_ok h
    exact .inr (.inr ⟨n, e, d, body, rfl, rfl, hbody, (Except.ok.inj h).symm⟩)
  next => exact .inl h

end

/-! ### The round trip -/

section
variable (py : Interpreter) (finiteOnly : Bool) (indent : Nat)

/-- With so much fuel the values are read back that are written in less. -/
def ReadsValues (fuel : Nat) : Prop :=
  ∀ depth level v s rest, dumpIndented indent depth level v = .ok s → v.IsJson py →
    s.length < fuel → Closes rest →
      scanValue py finiteOnly fuel depth (s ++ rest) = readBack finiteOnly v.finite v rest

def ReadsItems (fuel : Nat) : Prop :=
  ∀ depth level last x xs s rest, indentedItems indent depth level (x :: xs) = .ok s →
    ItemsJson py (x :: xs) → s.length + 1 < fuel →
      scanItems py finiteOnly fuel depth (s ++ (lineStart indent last ++ ch ']' :: rest)) =
        readBack finiteOnly (finiteItems (x :: xs)) (x :: xs) rest

def ReadsEntries (fuel : Nat) : Prop :=
  ∀ depth level last e d before s rest, indentedEntries indent depth level (e :: d) = .ok s →
    EntriesJson py (e :: d) → ((before ++ e :: d).map Prod.fst).Nodup → s.length + 1 < fuel →
      scanMembers py finiteOnly fuel depth before
        (s ++ (lineStart indent last ++ ch '}' :: rest)) =
          readBack finiteOnly (finiteEntries (e :: d)) (before ++ e :: d) rest

variable {py finiteOnly indent} {fuel : Nat}

theorem readsValues_succ (hitems : ReadsItems py finiteOnly indent fuel)
    (hentries : ReadsEntries py finiteOnly indent fuel) :
    ReadsValues py finiteOnly indent (fuel + 1) := by
  intro depth level v s rest h hv hn hrest
  obtain hatom | ⟨n, x, xs, body, rfl, rfl, hbody, rfl⟩ | ⟨n, e, d, body, rfl, rfl, hbody, rfl⟩ :=
    dumpIndented_cases h
  · exact scanValue_dump hatom hv hn hrest
  · simp only [List.length_append, List.length_cons, List.length_nil] at hn
    unfold Value.IsJson at hv
    have hopens := (indentedItems_opens hbody hv.1).append (lineStart indent level ++ ch ']' :: rest)
    rw [List.cons_append, List.append_assoc, scanValue_opening (.inl rfl) (blank_lineStart _ _),
      List.append_assoc, List.append_assoc, List.singleton_append, scanValue_list hopens,
      hitems n (level + 1) level x xs body rest hbody hv (by omega), Value.finite,
      readBack_map Value.list]
  · simp only [List.length_append, List.length_cons, List.length_nil] at hn
    unfold Value.IsJson at hv
    obtain ⟨hkeys, hmembers⟩ := hv
    have hread := hentries n (level + 1) level e d [] body rest hbody hmembers hkeys (by omega)
    obtain ⟨k, w⟩ := e
    obtain ⟨⟨key, rfl⟩, -⟩ := hmembers
    obtain ⟨t, rfl⟩ := indentedEntries_opens hbody
    rw [List.cons_append, List.append_assoc, scanValue_opening (.inr rfl) (blank_lineStart _ _),
      List.append_assoc, List.append_assoc, List.singleton_append, List.cons_append,
      scanValue_object, ← List.cons_append, hread, Value.finite, readBack_map Value.dict,
      List.nil_append]

theorem readsItems_succ (hvalues : ReadsValues py finiteOnly indent fuel)
    (hitems : ReadsItems py finiteOnly indent fuel) : ReadsItems py finiteOnly indent (fuel + 1) := by
  intro depth level last x xs s rest h hv hn
  cases xs with
  | nil =>
    unfold indentedItems at h
    rw [finiteItems, finiteItems, Bool.and_true]
    exact scanItems_last (blank_lineStart _ _)
      (hvalues depth level x s _ h hv.1 (by omega) (closes_lineStart _ _ _))
  | cons y ys =>
    unfold indentedItems at h
    obtain ⟨a, ha, h⟩ := bind_ok h
    obtain ⟨b, hb, h⟩ := bind_ok h
    obtain rfl := Except.ok.inj h
    simp only [List.length_append, List.length_cons] at hn
    have hopens := (indentedItems_opens hb hv.2.1).append (lineStart indent last ++ ch ']' :: rest)
    have hx := hvalues depth level x a (ch ',' :: (lineStart indent level ++
      (b ++ (lineStart indent last ++ ch ']' :: rest)))) ha hv.1 (by omega) (by simp [Closes])
    have hys := hitems depth level last y ys b rest hb hv.2 (by omega)
    rw [finiteItems, List.append_assoc, List.cons_append, List.append_assoc]
    exact scanItems_next (blank_lineStart _ _) hopens hx hys

theorem readsEntries_succ (hvalues : ReadsValues py finiteOnly indent fuel)
    (hentries : ReadsEntries py finiteOnly indent fuel) :
    ReadsEntries py finiteOnly indent (fuel + 1) := by
  intro depth level last e d before s rest h hv hkeys hn
  obtain ⟨k, v⟩ := e
  obtain ⟨⟨key, rfl⟩, hv, hd⟩ := hv
  have hlen := length_le_quoted key
  have hset := set_new (v := v) (not_mem_before hkeys)
  cases d with
  | nil =>
    unfold indentedEntries at h
    obtain ⟨a, ha, h⟩ := bind_ok h
    obtain ⟨b, hb, h⟩ := bind_ok h
    obtain rfl : key = a := Except.ok.inj ha
    obtain rfl := Except.ok.inj h
    simp only [List.length_append, List.length_cons] at hn
    have hx := hvalues depth level v b (lineStart indent last ++ ch '}' :: rest) hb hv (by omega)
      (closes_lineStart _ _ _)
    rw [finiteEntries, finiteEntries, Bool.and_true, List.append_assoc, List.cons_append,
      List.cons_append, ← hset]
    exact scanMembers_last blank_space (blank_lineStart _ _) (by omega) (dumpIndented_opens hb hv) hx
  | cons e d =>
    unfold indentedEntries at h
    obtain ⟨a, ha, h⟩ := bind_ok h
    obtain ⟨b, hb, h⟩ := bind_ok h
    obtain ⟨c, hc, h⟩ := bind_ok h
    obtain rfl : key = a := Except.ok.inj ha
    obtain rfl := Except.ok.inj h
    simp only [List.length_append, List.length_cons] at hn
    have hx := hvalues depth level v b (ch ',' :: (lineStart indent level ++
      (c ++ (lineStart indent last ++ ch '}' :: rest)))) hb hv (by omega) (by simp [Closes])
    have hnext := hentries depth level last e d (before ++ [(.str key, v)]) c rest hc hd
      (by simpa using hkeys) (by omega)
    have hopens : Opens (c ++ (lineStart indent last ++ ch '}' :: rest)) := by
      obtain ⟨k', w⟩ := e
      obtain ⟨⟨name, rfl⟩, -⟩ := hd
      obtain ⟨t, rfl⟩ := indentedEntries_opens hc
      exact ⟨_, _, rfl, by decide, by decide, by decide⟩
    rw [List.append_assoc, List.singleton_append, ← hset] at hnext
    rw [finiteEntries]
    have hlast := scanMembers_next blank_space (blank_lineStart _ _) (by omega) (dumpIndented_opens hb hv)
      hopens hx hnext
    simpa only [List.append_assoc, List.cons_append, List.nil_append] using hlast

theorem reads_indented (fuel : Nat) : ReadsValues py finiteOnly indent fuel ∧
    ReadsItems py finiteOnly indent fuel ∧ ReadsEntries py finiteOnly indent fuel := by
  induction fuel with
  | zero =>
    refine ⟨?_, ?_, ?_⟩
    · intro depth level v s rest h hv hn
      exact absurd hn (Nat.not_lt_zero _)
    · intro depth level last x xs s rest h hv hn
      exact absurd hn (Nat.not_lt_zero _)
    · intro depth level last e d before s rest h hv hkeys hn
      exact absurd hn (Nat.not_lt_zero _)
  | succ fuel ih =>
    obtain ⟨hvalues, hitems, hentries⟩ := ih
    exact ⟨readsValues_succ hitems hentries, readsItems_succ hvalues hitems,
      readsEntries_succ hvalues hentries⟩

/-- `json.loads(json.dumps(v, indent=n) + "\n")` -/
theorem loadsText_indented {v : Value} {s : Str} (hv : v.IsJson py)
    (hs : dumpIndented indent py.recursionLimit 0 v = .ok s) :
    loadsText py finiteOnly (s ++ [ch '\n']) =
      if finiteOnly && !v.finite then .error .constant else .ok v := by
  have hopens : Opens (s ++ [ch '\n']) := (dumpIndented_opens hs hv).append _
  have hscan : scanValue py finiteOnly ((s ++ [ch '\n']).length + 1) py.recursionLimit
      (s ++ [ch '\n']) = readBack finiteOnly v.finite v [ch '\n'] :=
    (reads_indented _).1 _ 0 v s _ hs hv (by rw [List.length_append]; omega) (by simp [Closes])
  have hbom : (s ++ [ch '\n']).head? ≠ some (.ofNat 0xFEFF) := by
    obtain ⟨c, t, ht, -, -, hc⟩ := hopens
    rw [ht, List.head?_cons, ne_eq, Option.some.injEq]
    rintro rfl
    revert hc
    decide
  rw [loadsText, if_neg hbom, hopens.skipSpace, hscan, readBack]
  split_ifs
  · rfl
  · rfl

end

/-! ### What can be written -/

/-- Nested no deeper than the number says, without floats, and of strings that can be encoded. -/
def Value.Writable : Nat → Value → Prop
  | _, .none | _, .bool _ => True
  | _, .int i => i.natAbs < 10 ^ intMaxStrDigits
  | _, .str s => encodable s = true
  | depth + 1, .list xs => ∀ x ∈ xs, x.Writable depth
  | depth + 1, .dict d => (d.map Prod.fst).Nodup ∧
      ∀ e ∈ d, (∃ k, e.1 = .str k ∧ encodable k = true) ∧ e.2.Writable depth
  | _, _ => False

theorem encodable_lineStart (indent level : Nat) : encodable (lineStart indent level) = true := by
  have hspaces : encodable (List.replicate (indent * level) (ch ' ')) = true :=
    List.all_eq_true.mpr fun c hc => by rw [List.eq_of_mem_replicate hc]; rfl
  rw [lineStart, encodable_cons, hspaces]
  rfl

section
variable {indent level depth limit : Nat}

/-- The text of a part is there and can be encoded. -/
def Written (x : Except DumpsError Str) : Prop := ∃ s, x = .ok s ∧ encodable s = true

theorem indentedItems_written {xs : List Value}
    (h : ∀ x ∈ xs, Written (dumpIndented indent depth level x)) :
    Written (indentedItems indent depth level xs) := by
  induction xs with
  | nil =>
    unfold indentedItems
    exact ⟨[], rfl, rfl⟩
  | cons x xs ih =>
    obtain ⟨⟨a, ha, hea⟩, hxs⟩ := List.forall_mem_cons.mp h
    cases xs with
    | nil =>
      unfold indentedItems
      exact ⟨a, ha, hea⟩
    | cons y ys =>
      obtain ⟨b, hb, heb⟩ := ih hxs
      unfold indentedItems
      rw [ha, hb]
      exact ⟨_, rfl, by simp [hea, heb, encodable_lineStart]⟩

theorem indentedEntries_written {d : Dict} (h : ∀ e ∈ d, (∃ k, e.1 = .str k ∧ encodable k = true) ∧
    Written (dumpIndented indent depth level e.2)) :
    Written (indentedEntries indent depth level d) := by
  induction d with
  | nil =>
    unfold indentedEntries
    exact ⟨[], rfl, rfl⟩
  | cons e d ih =>
    obtain ⟨⟨⟨k, hk, hek⟩, b, hb, heb⟩, hd⟩ := List.forall_mem_cons.mp h
    obtain ⟨key, v⟩ := e
    obtain rfl : key = .str k := hk
    have hb : dumpIndented indent depth level v = .ok b := hb
    cases d with
    | nil =>
      unfold indentedEntries keyText
      rw [hb]
      exact ⟨_, rfl, by simp [hek, heb]⟩
    | cons e d =>
      obtain ⟨c, hc, hec⟩ := ih hd
      unfold indentedEntries keyText
      rw [hb, hc]
      exact ⟨_, rfl, by simp [hek, heb, hec, encodable_lineStart]⟩

theorem written_atom {v : Value} (h : v.Writable limit) (hlist : ∀ xs, v ≠ .list xs)
    (hdict : ∀ d, v ≠ .dict d) : Written (dumpIndented indent depth level v) := by
  have hatom : dumpIndented indent depth level v = dumpValue true depth v := by
    unfold dumpIndented
    split
    next => exact absurd rfl (hlist _)
    next => exact absurd rfl (hdict _)
    next => rfl
  rw [hatom]
  unfold Value.Writable at h
  unfold dumpValue
  cases v with
  | none => exact ⟨_, rfl, encodable_str _⟩
  | bool b =>
    refine ⟨_, rfl, ?_⟩
    split_ifs <;> exact encodable_str _
  | int i =>
    obtain ⟨s, hs, -⟩ := intRepr_short h
    exact ⟨s, hs, encodable_intRepr hs⟩
  | str s => exact ⟨_, rfl, (encodable_quoted s).trans h⟩
  | list xs => exact absurd rfl (hlist xs)
  | dict d => exact absurd rfl (hdict d)
  | float f => exact h.elim
  | cyclic => exact h.elim
  | object t => exact h.elim

theorem dumpIndented_nil : dumpIndented indent (depth + 1) level (.list []) = .ok (str "[]") := by
  unfold dumpIndented dumpValue dumpItems
  rfl

theorem dumpIndented_empty :
    dumpIndented indent (depth + 1) level (.dict []) = .ok (str "\x7b\x7d") := by
  unfold dumpIndented dumpValue dumpEntries
  rfl

theorem Value.Writable.written {v : Value} (h : v.Writable limit) (hlimit : limit ≤ depth) :
    Written (dumpIndented indent depth level v) := by
  induction limit generalizing v depth level with
  | zero =>
    refine written_atom h ?_ ?_
    · rintro xs rfl
      unfold Value.Writable at h
      exact h
    · rintro d rfl
      unfold Value.Writable at h
      exact h
  | succ limit ih =>
    obtain ⟨depth, rfl⟩ : ∃ n, depth = n + 1 := ⟨depth - 1, by omega⟩
    by_cases hlist : ∃ xs, v = .list xs
    · obtain ⟨xs, rfl⟩ := hlist
      unfold Value.Writable at h
      cases xs with
      | nil => exact ⟨_, dumpIndented_nil, encodable_str _⟩
      | cons x xs =>
        obtain ⟨body, hbody, hencodable⟩ :
            Written (indentedItems indent depth (level + 1) (x :: xs)) :=
          indentedItems_written fun y hy => ih (h y hy) (Nat.le_of_succ_le_succ hlimit)
        unfold dumpIndented
        rw [hbody]
        exact ⟨_, rfl, by simp [hencodable, encodable_lineStart]⟩
    by_cases hdict : ∃ d, v = .dict d
    · obtain ⟨d, rfl⟩ := hdict
      unfold Value.Writable at h
      cases d with
      | nil => exact ⟨_, dumpIndented_empty, encodable_str _⟩
      | cons e d =>
        obtain ⟨body, hbody, hencodable⟩ :
            Written (indentedEntries indent depth (level + 1) (e :: d)) :=
          indentedEntries_written fun m hm =>
            ⟨(h.2 m hm).1, ih (h.2 m hm).2 (Nat.le_of_succ_le_succ hlimit)⟩
        unfold dumpIndented
        rw [hbody]
        exact ⟨_, rfl, by simp [hencodable, encodable_lineStart]⟩
    exact written_atom h (not_exists.mp hlist) (not_exists.mp hdict)

theorem itemsJson_of_forall {py : Interpreter} {xs : List Value} (h : ∀ x ∈ xs, x.IsJson py) :
    ItemsJson py xs := by
  induction xs with
  | nil => trivial
  | cons x xs ih =>
    obtain ⟨hx, hxs⟩ := List.forall_mem_cons.mp h
    exact ⟨hx, ih hxs⟩

theorem entriesJson_of_forall {py : Interpreter} {d : Dict}
    (h : ∀ e ∈ d, (∃ k, e.1 = .str k) ∧ e.2.IsJson py) : EntriesJson py d := by
  induction d with
  | nil => trivial
  | cons e d ih =>
    obtain ⟨⟨hk, hv⟩, hd⟩ := List.forall_mem_cons.mp h
    exact ⟨hk, hv, ih hd⟩

theorem Value.Writable.isJson {v : Value} (h : v.Writable limit) (py : Interpreter) :
    v.IsJson py := by
  induction limit generalizing v with
  | zero =>
    unfold Value.Writable at h
    unfold Value.IsJson
    cases v with
    | float f => exact h.elim
    | list xs => exact h.elim
    | dict d => exact h.elim
    | cyclic => exact h
    | object t => exact h
    | _ => trivial
  | succ limit ih =>
    unfold Value.Writable at h
    unfold Value.IsJson
    cases v with
    | list xs => exact itemsJson_of_forall fun x hx => ih (h x hx)
    | dict d =>
      refine ⟨h.1, entriesJson_of_forall fun e he => ?_⟩
      obtain ⟨⟨k, hk, -⟩, hv⟩ := h.2 e he
      exact ⟨⟨k, hk⟩, ih hv⟩
    | float f => exact h.elim
    | cyclic => exact h
    | object t => exact h
    | _ => trivial

/-- `json.dumps` writes it, the text can be encoded, and `json.loads` reads it back. -/
theorem Value.Writable.round_trip {v : Value} (h : v.Writable limit) {py : Interpreter}
    (hlimit : limit ≤ py.recursionLimit) (indent : Nat) : ∃ s data,
      dumpIndented indent py.recursionLimit 0 v = .ok s ∧ encodeUtf8 (s ++ [ch '\n']) = some data ∧
        loads py false data = .ok v := by
  obtain ⟨s, hs, hencodable⟩ : Written (dumpIndented indent py.recursionLimit 0 v) :=
    h.written hlimit
  have hall : encodable (s ++ [ch '\n']) = true := by simp [hencodable]
  have hline : Encodable (s ++ [ch '\n']) := by
    simpa only [encodable, Encodable, List.all_eq_true, Bool.not_eq_true'] using hall
  have hencode := encodable_iff.mp hline
  refine ⟨s, _, hs, hencode, ?_⟩
  rw [loads, decode_of_encode hencode]
  exact loadsText_indented (h.isJson py) hs

end

end Python
