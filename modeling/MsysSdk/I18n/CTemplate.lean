import MsysSdk.I18n.CLocale
import MsysSdk.Text.Template

/-! `msys_i18n_render`, over a `size_t` of any number of bits. The scan over the bytes appends the
expansion of the template; its lengths wrap. -/

namespace Msys.I18n.C
open Libc

/-- `msys_i18n_param`; no name and no value stand for NULL. -/
structure Param where
  name : Option Bytes
  value : Option Bytes

def findParam (name : Bytes) : List Param → Option Bytes
  | [] => none
  | ⟨some n, some value⟩ :: params =>
    if n.length = name.length && n = name then some value else findParam name params
  | _ :: params => findParam name params

/-- The output buffer, unless it is NULL, and the length of the output so far. -/
structure Output where
  buffer : Option Buffer
  length : Nat

/-- `invalid` after the loop over the bytes of a name. -/
def nameInvalid : Bytes → Bool
  | [] => false
  | b :: bs => !(isalpha b || b = chr '_') || bs.any fun b => !(isalnum b || b = chr '_')

/-- The result, the memory at `output`, and `*required` where it is set. -/
structure Rendered where
  result : Result
  buffer : Option Buffer
  required : Option Nat

section Render

-- the bits of `size_t`
variable (bits : Nat)

def appendBytes (capacity : Nat) (output : Output) (value : Bytes) : Output where
  buffer :=
    if 0 < capacity ∧ output.length < capacity - 1 then
      output.buffer.map fun m => m.copy output.length (value.take (capacity - 1 - output.length))
    else output.buffer
  length := (output.length + value.length) % 2 ^ bits

/-- The loop over the message, and `invalid` after it; every round takes at least one byte. -/
def renderLoop (params : List Param) (capacity : Nat) : Nat → Bytes → Output → Output × Bool
  | _, [], output | 0, _, output => (output, false)
  | fuel + 1, b :: rest, output =>
    if b = chr '{' ∧ rest.head? = some (chr '{') then
      renderLoop params capacity fuel rest.tail (appendBytes bits capacity output [chr '{'])
    else if b = chr '}' ∧ rest.head? = some (chr '}') then
      renderLoop params capacity fuel rest.tail (appendBytes bits capacity output [chr '}'])
    else if b = chr '{' then
      let name := rest.takeWhile (· ≠ chr '}')
      match rest.dropWhile (· ≠ chr '}') with
      | [] => (output, true)
      | _ :: after =>
        if name = [] || nameInvalid name then (output, true)
        else
          match findParam name params with
          | none => renderLoop params capacity fuel after
              (appendBytes bits capacity (appendBytes bits capacity
                (appendBytes bits capacity output [chr '{']) name) [chr '}'])
          | some value =>
            renderLoop params capacity fuel after (appendBytes bits capacity output value)
    else if b = chr '}' then (output, true)
    else renderLoop params capacity fuel rest (appendBytes bits capacity output [b])

/-- `msys_i18n_render` behind its test of the arguments. -/
def renderMessage (message : Bytes) (params : List Param) (output : Option Buffer)
    (capacity : Nat) : Rendered :=
  let (out, invalid) := renderLoop bits params capacity message.length message ⟨output, 0⟩
  { result :=
      if invalid then .invalidTemplate
      else if capacity < (out.length + 1) % 2 ^ bits then .bufferTooSmall
      else .ok
    buffer :=
      if 0 < capacity then
        out.buffer.map fun m =>
          Function.update m (if out.length < capacity then out.length else capacity - 1) 0
      else out.buffer
    required := some out.length }

/-- `msys_i18n_render`; `none` is NULL, and for the parameters NULL with a count. -/
def render (message : Option Bytes) (params : Option (List Param)) (output : Option Buffer)
    (capacity : Nat) : Rendered :=
  match message, params with
  | some message, some params =>
    if capacity ≠ 0 ∧ output.isNone then ⟨.invalidArgument, output, none⟩
    else renderMessage bits message params output capacity
  | _, _ => ⟨.invalidArgument, output, none⟩

end Render

variable {bits : Nat}

theorem render_some {message : Bytes} {params : List Param} {output : Option Buffer}
    {capacity : Nat} (h : capacity ≠ 0 → output.isSome = true) :
    render bits (some message) (some params) output capacity =
      renderMessage bits message params output capacity := by
  rw [render, if_neg]
  rintro ⟨hcap, hnone⟩
  rw [Option.isNone_iff_eq_none] at hnone
  have hsome := h hcap
  rw [hnone] at hsome
  cases hsome

/-! ### The calls of `append_bytes` -/

/-- What the loop over the message appends, call by call, and `invalid` after it. -/
def appended (params : List Param) : Nat → Bytes → List Bytes × Bool
  | _, [] | 0, _ => ([], false)
  | fuel + 1, b :: rest =>
    if b = chr '{' ∧ rest.head? = some (chr '{') then
      let (values, invalid) := appended params fuel rest.tail
      ([chr '{'] :: values, invalid)
    else if b = chr '}' ∧ rest.head? = some (chr '}') then
      let (values, invalid) := appended params fuel rest.tail
      ([chr '}'] :: values, invalid)
    else if b = chr '{' then
      let name := rest.takeWhile (· ≠ chr '}')
      match rest.dropWhile (· ≠ chr '}') with
      | [] => ([], true)
      | _ :: after =>
        if name = [] || nameInvalid name then ([], true)
        else
          let (values, invalid) := appended params fuel after
          match findParam name params with
          | none => ([chr '{'] :: name :: [chr '}'] :: values, invalid)
          | some value => (value :: values, invalid)
    else if b = chr '}' then ([], true)
    else
      let (values, invalid) := appended params fuel rest
      ([b] :: values, invalid)

/-- The loop makes these calls. -/
theorem renderLoop_eq (params : List Param) (capacity fuel : Nat) (s : Bytes) (output : Output) :
    renderLoop bits params capacity fuel s output =
      ((appended params fuel s).1.foldl (appendBytes bits capacity) output,
        (appended params fuel s).2) := by
  induction fuel generalizing s output with
  | zero => cases s <;> rfl
  | succ fuel ih =>
    cases s with
    | nil => rfl
    | cons b rest =>
      rw [renderLoop, appended]
      split_ifs
      · exact ih _ _
      · exact ih _ _
      · dsimp only
        cases rest.dropWhile (· ≠ chr '}') with
        | nil => rfl
        | cons c after =>
          dsimp only
          split_ifs
          · rfl
          · cases findParam (rest.takeWhile (· ≠ chr '}')) params with
            | none => exact ih _ _
            | some value => exact ih _ _
      · rfl
      · exact ih _ _

/-! ### The expansion -/

def braces : Template.Braces UInt8 where
  opening := chr '{'
  closing := chr '}'
  isName name := name ≠ [] && !nameInvalid name
  opening_ne_closing := by decide
  isName_nil := rfl

/-- What the renderer writes in the place of a name. -/
def fillWith (params : List Param) (name : Bytes) : Bytes :=
  (findParam name params).getD (chr '{' :: name ++ [chr '}'])

open Template (expand)

/-- The calls append the expansion. -/
def Appends (e : Option Bytes) : List Bytes × Bool → Prop
  | (_, true) => e = none
  | (values, false) => e = some values.flatten

theorem Appends.cons {e : Option Bytes} {r : List Bytes × Bool} (h : Appends e r) (value : Bytes) :
    Appends (e.map (value ++ ·)) (value :: r.1, r.2) := by
  obtain ⟨values, invalid⟩ := r
  cases invalid with
  | true =>
    obtain rfl : e = none := h
    exact rfl
  | false =>
    obtain rfl : e = some values.flatten := h
    exact rfl

theorem Appends.invalid {e : Option Bytes} {r : List Bytes × Bool} (h : Appends e r) :
    r.2 = true ↔ e = none := by
  obtain ⟨values, invalid⟩ := r
  cases invalid with
  | true => exact iff_of_true rfl h
  | false =>
    obtain rfl : e = some values.flatten := h
    exact iff_of_false (by simp) (by simp)

theorem Appends.flatten {text : Bytes} {r : List Bytes × Bool} (h : Appends (some text) r) :
    r.2 = false ∧ r.1.flatten = text := by
  obtain ⟨values, invalid⟩ := r
  cases invalid with
  | true => cases h
  | false => exact ⟨rfl, (Option.some.inj h).symm⟩

theorem appended_expand (params : List Param) {fuel : Nat} {s : Bytes} (hfuel : s.length ≤ fuel) :
    Appends (expand braces (fillWith params) .text s) (appended params fuel s) := by
  induction fuel generalizing s with
  | zero =>
    obtain rfl := List.length_eq_zero_iff.mp (Nat.le_zero.mp hfuel)
    exact rfl
  | succ fuel ih =>
    cases s with
    | nil => exact rfl
    | cons b rest =>
      have hrest : rest.length ≤ fuel := by simpa using hfuel
      rw [appended]
      by_cases hescape : b = chr '{' ∧ rest.head? = some (chr '{')
      · obtain ⟨rfl, hnext⟩ := hescape
        obtain ⟨rest, rfl⟩ : ∃ t, rest = chr '{' :: t :=
          ⟨rest.tail, (List.cons_head?_tail hnext).symm⟩
        have hexpand : expand braces (fillWith params) .text (chr '{' :: chr '{' :: rest) = _ :=
          Template.expand_opening_opening rest
        rw [if_pos ⟨rfl, rfl⟩, hexpand]
        exact (ih (Nat.le_of_succ_le hrest)).cons [chr '{']
      rw [if_neg hescape]
      by_cases hescape' : b = chr '}' ∧ rest.head? = some (chr '}')
      · obtain ⟨rfl, hnext⟩ := hescape'
        obtain ⟨rest, rfl⟩ : ∃ t, rest = chr '}' :: t :=
          ⟨rest.tail, (List.cons_head?_tail hnext).symm⟩
        have hexpand : expand braces (fillWith params) .text (chr '}' :: chr '}' :: rest) = _ :=
          Template.expand_closing_closing rest
        rw [if_pos ⟨rfl, rfl⟩, hexpand]
        exact (ih (Nat.le_of_succ_le hrest)).cons [chr '}']
      rw [if_neg hescape']
      by_cases ho : b = chr '{'
      · subst ho
        have hnext : rest.head? ≠ some (chr '{') := fun hnext => hescape ⟨rfl, hnext⟩
        rw [if_pos rfl]
        rcases Template.expand_opening_cases (b := braces) hnext with
          ⟨hdrop, hexpand⟩ | ⟨after, hafter, hdrop, hexpand⟩
        · have hdrop : rest.dropWhile (· ≠ chr '}') = [] := hdrop
          have hexpand : expand braces (fillWith params) .text (chr '{' :: rest) = none := hexpand
          rw [hdrop, hexpand]
          exact rfl
        · generalize hname : rest.takeWhile (· ≠ chr '}') = name
          have hdrop : rest.dropWhile (· ≠ chr '}') = chr '}' :: after := hdrop
          have hexpand : expand braces (fillWith params) .text (chr '{' :: rest) =
              if name ≠ [] && !nameInvalid name then
                (expand braces (fillWith params) .text after).map (fillWith params name ++ ·)
              else none := hname ▸ hexpand
          rw [hdrop, hexpand]
          have hrefused : (name = [] || nameInvalid name) = !(name ≠ [] && !nameInvalid name) := by
            simp
          simp only [hrefused]
          cases hvalid : name ≠ [] && !nameInvalid name with
          | false => exact rfl
          | true =>
            simp only [Bool.not_true, if_neg Bool.false_ne_true, if_true]
            have hafter : Appends _ (appended params fuel after) := ih (by omega)
            cases hfind : findParam name params with
            | none =>
              have hfill : fillWith params name = [chr '{'] ++ (name ++ [chr '}']) := by
                rw [fillWith, hfind]
                rfl
              have hcalls := ((hafter.cons [chr '}']).cons name).cons [chr '{']
              simpa only [Option.map_map, Function.comp_def, ← List.append_assoc, ← hfill]
                using hcalls
            | some value =>
              have hfill : fillWith params name = value := by rw [fillWith, hfind, Option.getD_some]
              rw [hfill]
              exact hafter.cons value
      rw [if_neg ho]
      by_cases hc : b = chr '}'
      · subst hc
        have hnext : rest.head? ≠ some (chr '}') := fun hnext => hescape' ⟨rfl, hnext⟩
        have hexpand : expand braces (fillWith params) .text (chr '}' :: rest) = none :=
          Template.expand_closing hnext
        rw [if_pos rfl, hexpand]
        exact rfl
      · rw [if_neg hc, Template.expand_plain ho hc]
        exact (ih hrest).cons [b]

end Msys.I18n.C
