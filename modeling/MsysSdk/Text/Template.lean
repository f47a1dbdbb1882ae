import Mathlib.Data.List.TakeWhile
import Mathlib.Tactic.Common

/-! Templates: names in braces are filled in, and a doubled brace stands for the brace. The
transducer is over any alphabet, and an encoding of the alphabet commutes with it. -/

namespace Template

/-- The braces of an alphabet, and which strings are names. -/
structure Braces (α : Type*) where
  opening : α
  closing : α
  isName : List α → Bool
  opening_ne_closing : opening ≠ closing
  isName_nil : isName [] = false

inductive State (α : Type*)
  | text
  | name (read : List α)
  | closed

variable {α β : Type*} [DecidableEq α] [DecidableEq β]

def step (b : Braces α) (fill : List α → List α) : State α → α → Option (List α × State α)
  | .text, c =>
    if c = b.opening then some ([], .name [])
    else if c = b.closing then some ([], .closed)
    else some ([c], .text)
  | .name read, c =>
    if c = b.closing then if b.isName read then some (fill read, .text) else none
    else if read = [] ∧ c = b.opening then some ([c], .text)
    else some ([], .name (read ++ [c]))
  | .closed, c => if c = b.closing then some ([c], .text) else none

/-- The expansion of a template from a state on; `none` if it is not well formed. -/
def expand (b : Braces α) (fill : List α → List α) : State α → List α → Option (List α)
  | .text, [] => some []
  | .name _, [] | .closed, [] => none
  | st, c :: s => (step b fill st c).bind fun next => (expand b fill next.2 s).map (next.1 ++ ·)

variable {b : Braces α} {fill : List α → List α}

theorem expand_cons (st : State α) (c : α) (s : List α) : expand b fill st (c :: s) =
    (step b fill st c).bind fun next => (expand b fill next.2 s).map (next.1 ++ ·) := by
  cases st <;> rfl

theorem expand_step {st st' : State α} {c : α} {out : List α}
    (h : step b fill st c = some (out, st')) (s : List α) :
    expand b fill st (c :: s) = (expand b fill st' s).map (out ++ ·) := by
  rw [expand_cons, h, Option.bind_some]

theorem expand_silent {st st' : State α} {c : α} (h : step b fill st c = some ([], st'))
    (s : List α) : expand b fill st (c :: s) = expand b fill st' s := by
  rw [expand_step h]
  exact Option.map_id'

theorem expand_stuck {st : State α} {c : α} (h : step b fill st c = none) (s : List α) :
    expand b fill st (c :: s) = none := by
  rw [expand_cons, h, Option.bind_none]

theorem step_plain {c : α} (ho : c ≠ b.opening) (hc : c ≠ b.closing) :
    step b fill .text c = some ([c], .text) := by
  rw [step, if_neg ho, if_neg hc]

theorem step_opening : step b fill .text b.opening = some ([], .name []) := if_pos rfl

theorem step_closing : step b fill .text b.closing = some ([], .closed) := by
  rw [step, if_neg b.opening_ne_closing.symm, if_pos rfl]

theorem step_closed (c : α) : step b fill .closed c =
    if c = b.closing then some ([c], .text) else none := rfl

theorem step_escape : step b fill (.name []) b.opening = some ([b.opening], .text) := by
  rw [step, if_neg b.opening_ne_closing, if_pos ⟨rfl, rfl⟩]

theorem step_name_closing (read : List α) : step b fill (.name read) b.closing =
    if b.isName read then some (fill read, .text) else none := if_pos rfl

theorem step_name {read : List α} {c : α} (hc : c ≠ b.closing)
    (h : read = [] → c ≠ b.opening) :
    step b fill (.name read) c = some ([], .name (read ++ [c])) := by
  rw [step, if_neg hc, if_neg fun hescape => h hescape.1 hescape.2]

/-! ### Rules -/

theorem expand_plain {c : α} (ho : c ≠ b.opening) (hc : c ≠ b.closing) (s : List α) :
    expand b fill .text (c :: s) = (expand b fill .text s).map (c :: ·) :=
  expand_step (step_plain ho hc) s

theorem expand_opening_opening (s : List α) :
    expand b fill .text (b.opening :: b.opening :: s) =
      (expand b fill .text s).map (b.opening :: ·) := by
  rw [expand_silent step_opening, expand_step step_escape]
  rfl

theorem expand_closing_closing (s : List α) :
    expand b fill .text (b.closing :: b.closing :: s) =
      (expand b fill .text s).map (b.closing :: ·) := by
  rw [expand_silent step_closing, expand_step ((step_closed _).trans (if_pos rfl))]
  rfl

theorem expand_closing {s : List α} (h : s.head? ≠ some b.closing) :
    expand b fill .text (b.closing :: s) = none := by
  rw [expand_silent step_closing]
  cases s with
  | nil => rfl
  | cons c s =>
    have hne : c ≠ b.closing := fun hc => h (by rw [hc]; rfl)
    exact expand_stuck ((step_closed c).trans (if_neg hne)) s

theorem expand_name_append (read : List α) {name : List α} (hname : b.closing ∉ name)
    (h : read = [] → name.head? ≠ some b.opening) (s : List α) :
    expand b fill (.name read) (name ++ s) = expand b fill (.name (read ++ name)) s := by
  induction name generalizing read with
  | nil => simp
  | cons c name ih =>
    rw [List.mem_cons, not_or] at hname
    have hescape : read = [] → c ≠ b.opening := fun hread hc => h hread (by rw [hc]; rfl)
    rw [List.cons_append, expand_silent (step_name (Ne.symm hname.1) hescape),
      ih (read ++ [c]) hname.2 (by simp)]
    simp

theorem expand_opening {name : List α} (hname : b.closing ∉ name)
    (h : name.head? ≠ some b.opening) (s : List α) :
    expand b fill .text (b.opening :: (name ++ b.closing :: s)) =
      if b.isName name then (expand b fill .text s).map (fill name ++ ·) else none := by
  rw [expand_silent step_opening, expand_name_append [] hname fun _ => h, List.nil_append]
  split_ifs with hvalid
  · exact expand_step (by rw [step_name_closing, if_pos hvalid]) s
  · exact expand_stuck (by rw [step_name_closing, if_neg hvalid]) s

theorem expand_unclosed {s : List α} (hs : b.closing ∉ s) (h : s.head? ≠ some b.opening) :
    expand b fill .text (b.opening :: s) = none := by
  have hread : expand b fill (.name []) (s ++ []) = expand b fill (.name ([] ++ s)) [] :=
    expand_name_append [] hs (fun _ => h) []
  rw [List.append_nil, List.nil_append] at hread
  rw [expand_silent step_opening, hread]
  rfl

/-- A reader that looks for the closing brace finds the end of the name, if it has one. -/
theorem find_cases (c : α) (s : List α) :
    (c ∉ s ∧ s.dropWhile (· ≠ c) = []) ∨
      ∃ after, c ∉ s.takeWhile (· ≠ c) ∧ s.dropWhile (· ≠ c) = c :: after ∧
        s.takeWhile (· ≠ c) ++ c :: after = s := by
  have hname : c ∉ s.takeWhile (· ≠ c) := fun h => by simpa using List.mem_takeWhile_imp h
  have hsplit := List.takeWhile_append_dropWhile (p := (· ≠ c)) (l := s)
  generalize hdrop : s.dropWhile (· ≠ c) = rest at hsplit
  cases rest with
  | nil =>
    rw [List.append_nil] at hsplit
    exact .inl ⟨hsplit ▸ hname, rfl⟩
  | cons d after =>
    have hne : s.dropWhile (· ≠ c) ≠ [] := by
      rw [hdrop]
      exact List.cons_ne_nil d after
    have hstop := List.head_dropWhile_not _ hne
    simp only [hdrop, List.head_cons, decide_eq_false_iff_not, not_not] at hstop
    obtain rfl : d = c := hstop
    exact .inr ⟨after, hname, rfl, hsplit⟩

/-- A reader at a brace that is not doubled: the template is cut where the name ends. -/
theorem expand_opening_cases {s : List α} (h : s.head? ≠ some b.opening) :
    (s.dropWhile (· ≠ b.closing) = [] ∧ expand b fill .text (b.opening :: s) = none) ∨
      ∃ after, after.length < s.length ∧ s.dropWhile (· ≠ b.closing) = b.closing :: after ∧
        expand b fill .text (b.opening :: s) =
          if b.isName (s.takeWhile (· ≠ b.closing)) then
            (expand b fill .text after).map (fill (s.takeWhile (· ≠ b.closing)) ++ ·)
          else none := by
  rcases find_cases b.closing s with ⟨hclosing, hdrop⟩ | ⟨after, hname, hdrop, hs⟩
  · exact .inl ⟨hdrop, expand_unclosed hclosing h⟩
  · have hhead : (s.takeWhile (· ≠ b.closing)).head? ≠ some b.opening := fun hhead => by
      rw [← hs, List.head?_append, hhead] at h
      exact h rfl
    refine .inr ⟨after, ?_, hdrop, ?_⟩
    · have hlen := congrArg List.length hs
      rw [List.length_append, List.length_cons] at hlen
      omega
    · rw [← expand_opening hname hhead after, hs]

/-! ### Encodings -/

/-- The encoding of a character is never empty, and has a brace only if the character is it. -/
structure Encoding (p : α → Prop) (a : Braces α) (b : Braces β) (h : α → List β) : Prop where
  opening : h a.opening = [b.opening]
  closing : h a.closing = [b.closing]
  nonempty : ∀ c, p c → h c ≠ []
  plain : ∀ c, p c → c ≠ a.opening → c ≠ a.closing → b.opening ∉ h c ∧ b.closing ∉ h c
  isName : ∀ s, (∀ c ∈ s, p c) → b.isName (s.flatMap h) = a.isName s

def State.flatMap (h : α → List β) : State α → State β
  | .text => .text
  | .name read => .name (read.flatMap h)
  | .closed => .closed

def State.Holds (p : α → Prop) : State α → Prop
  | .name read => ∀ c ∈ read, p c
  | .text | .closed => True

theorem step_holds {p : α → Prop} {st st' : State α} {c : α} {out : List α} (hst : st.Holds p)
    (hc : p c) (h : step b fill st c = some (out, st')) : st'.Holds p := by
  cases st with
  | text =>
    rw [step] at h
    split_ifs at h <;> cases h
    · simp [State.Holds]
    · trivial
    · trivial
  | closed =>
    rw [step_closed] at h
    split_ifs at h
    cases h
    trivial
  | name read =>
    rw [step] at h
    split_ifs at h <;> cases h
    · trivial
    · trivial
    · exact List.forall_mem_append.mpr ⟨hst, by simpa using hc⟩

/-- What holds of the template and of what is filled in holds of the expansion. -/
theorem expand_forall {p : α → Prop} (hfill : ∀ n, (∀ c ∈ n, p c) → ∀ c ∈ fill n, p c)
    {s : List α} (hs : ∀ c ∈ s, p c) {st : State α} (hst : st.Holds p) {out : List α}
    (h : expand b fill st s = some out) : ∀ c ∈ out, p c := by
  induction s generalizing st out with
  | nil =>
    cases st <;> cases h
    simp
  | cons c s ih =>
    obtain ⟨hc, hs⟩ := List.forall_mem_cons.mp hs
    rw [expand_cons] at h
    obtain ⟨⟨first, st'⟩, hstep, h⟩ := Option.bind_eq_some_iff.mp h
    obtain ⟨rest, hrest, rfl⟩ := Option.map_eq_some_iff.mp h
    refine List.forall_mem_append.mpr ⟨?_, ih hs (step_holds hst hc hstep) hrest⟩
    cases st <;> rw [step] at hstep <;> split_ifs at hstep <;> cases hstep
    all_goals first
      | exact hfill _ hst
      | exact List.forall_mem_singleton.mpr hc
      | exact List.forall_mem_nil _

theorem expand_plain_append {w : List α} (hw : b.opening ∉ w ∧ b.closing ∉ w) (s : List α) :
    expand b fill .text (w ++ s) = (expand b fill .text s).map (w ++ ·) := by
  induction w with
  | nil => simp
  | cons c w ih =>
    rw [List.mem_cons, not_or, List.mem_cons, not_or] at hw
    rw [List.cons_append, expand_plain (Ne.symm hw.1.1) (Ne.symm hw.2.1), ih ⟨hw.1.2, hw.2.2⟩,
      Option.map_map]
    rfl

namespace Encoding

variable {p : α → Prop} {a : Braces α} {b : Braces β} {h : α → List β}

omit [DecidableEq β] in
theorem closing_notMem (e : Encoding p a b h) {c : α} (hp : p c) (hc : c ≠ a.closing) :
    b.closing ∉ h c := by
  by_cases ho : c = a.opening
  · rw [ho, e.opening, List.mem_singleton]
    exact b.opening_ne_closing.symm
  · exact (e.plain c hp ho hc).2

omit [DecidableEq α] [DecidableEq β] in
theorem flatMap_eq_nil (e : Encoding p a b h) {s : List α} (hs : ∀ c ∈ s, p c)
    (hnil : s.flatMap h = []) : s = [] := by
  cases s with
  | nil => rfl
  | cons c s =>
    rw [List.flatMap_cons, List.append_eq_nil_iff] at hnil
    exact absurd hnil.1 (e.nonempty c (hs c List.mem_cons_self))

variable {fill : List α → List α} {fill' : List β → List β}

/-- The encoding of a character does what the character does. -/
theorem expand_char (e : Encoding p a b h)
    (hfill : ∀ n, (∀ c ∈ n, p c) → a.isName n = true → fill' (n.flatMap h) = (fill n).flatMap h)
    {st : State α} (hst : st.Holds p) {c : α} (hc : p c) (s : List β) :
    expand b fill' (st.flatMap h) (h c ++ s) = (step a fill st c).bind fun next =>
      (expand b fill' (next.2.flatMap h) s).map (next.1.flatMap h ++ ·) := by
  cases st with
  | text =>
    by_cases ho : c = a.opening
    · rw [ho, e.opening, step_opening, Option.bind_some]
      exact expand_step step_opening s
    by_cases hcl : c = a.closing
    · rw [hcl, e.closing, step_closing, Option.bind_some]
      exact expand_step step_closing s
    rw [step_plain ho hcl, Option.bind_some, List.flatMap_singleton]
    exact expand_plain_append (e.plain c hc ho hcl) s
  | closed =>
    rw [step_closed]
    by_cases hcl : c = a.closing
    · rw [if_pos hcl, hcl, Option.bind_some, List.flatMap_singleton, e.closing]
      exact expand_step ((step_closed _).trans (if_pos rfl)) s
    · obtain ⟨x, w, hx⟩ := List.exists_cons_of_ne_nil (e.nonempty c hc)
      have hne : x ≠ b.closing := fun hxc => e.closing_notMem hc hcl (by rw [hx, hxc]; simp)
      rw [if_neg hcl, hx]
      exact expand_stuck ((step_closed x).trans (if_neg hne)) _
  | name read =>
    by_cases hcl : c = a.closing
    · rw [hcl, e.closing, step_name_closing, ← e.isName read hst]
      split_ifs with hvalid
      · rw [Option.bind_some, ← hfill read hst (by rw [← e.isName read hst, hvalid])]
        exact expand_step ((step_name_closing _).trans (if_pos hvalid)) s
      · exact expand_stuck ((step_name_closing _).trans (if_neg hvalid)) s
    by_cases hescape : read = [] ∧ c = a.opening
    · obtain ⟨rfl, rfl⟩ := hescape
      rw [step_escape, Option.bind_some, List.flatMap_singleton, e.opening]
      exact expand_step step_escape s
    · rw [not_and] at hescape
      have hhead : read.flatMap h = [] → (h c).head? ≠ some b.opening := fun hnil hhead =>
        (e.plain c hc (hescape (e.flatMap_eq_nil hst hnil)) hcl).1 (List.mem_of_mem_head? hhead)
      rw [step_name hcl hescape, Option.bind_some]
      refine (expand_name_append _ (e.closing_notMem hc hcl) hhead s).trans ?_
      simp [State.flatMap]

/-- The expansion of the encoded template is the encoded expansion. -/
theorem expand (e : Encoding p a b h)
    (hfill : ∀ n, (∀ c ∈ n, p c) → a.isName n = true → fill' (n.flatMap h) = (fill n).flatMap h)
    {s : List α} (hs : ∀ c ∈ s, p c) {st : State α} (hst : st.Holds p) :
    expand b fill' (st.flatMap h) (s.flatMap h) =
      (expand a fill st s).map (List.flatMap h) := by
  induction s generalizing st with
  | nil => cases st <;> rfl
  | cons c s ih =>
    obtain ⟨hc, hs⟩ := List.forall_mem_cons.mp hs
    rw [List.flatMap_cons, e.expand_char hfill hst hc, expand_cons]
    cases hstep : step a fill st c with
    | none => rfl
    | some next =>
      rw [Option.bind_some, Option.bind_some, ih hs (step_holds hst hc hstep), Option.map_map,
        Option.map_map]
      refine congrArg (Option.map · _) (funext fun out => ?_)
      simp

end Encoding

end Template
