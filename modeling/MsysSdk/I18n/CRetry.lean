import MsysSdk.I18n.CTemplate

/-! What a caller of `msys_i18n_render` is told with each capacity. What is appended does not depend
on the capacity, so neither does the length that a retry is told; it is one too small for the test
at the end exactly if it is `SIZE_MAX`. -/

namespace Msys.I18n.C
open Libc
open Template (expand)

/-! ### The output without a capacity -/

/-- Memory without end, and the length of the output so far. -/
structure Tape where
  buffer : Buffer
  length : Nat

section Tape

variable (bits : Nat)

/-- What is appended, laid out in memory without end. -/
def layOut (tape : Tape) (value : Bytes) : Tape where
  buffer := tape.buffer.copy tape.length value
  length := (tape.length + value.length) % 2 ^ bits

/-- The memory after all calls, for a message and its parameters. -/
def laidOut (message : Bytes) (params : List Param) : Tape :=
  (appended params message.length message).1.foldl (layOut bits) ⟨fun _ => 0, 0⟩

/-- The output that all capacities share. -/
def outputText (message : Bytes) (params : List Param) : Bytes :=
  (laidOut bits message params).buffer.read (laidOut bits message params).length

end Tape

variable {bits : Nat}

theorem length_layOut (bits capacity : Nat) {output : Output} {tape : Tape}
    (h : output.length = tape.length) (values : List Bytes) :
    (values.foldl (appendBytes bits capacity) output).length =
      (values.foldl (layOut bits) tape).length := by
  induction values generalizing output tape with
  | nil => exact h
  | cons value values ih =>
    refine ih ?_
    rw [appendBytes, layOut, h]

theorem length_layOut_mod (tape : Tape) (h : tape.length < 2 ^ bits) (values : List Bytes) :
    (values.foldl (layOut bits) tape).length =
      (tape.length + values.flatten.length) % 2 ^ bits := by
  induction values generalizing tape with
  | nil => exact (Nat.mod_eq_of_lt h).symm
  | cons value values ih =>
    rw [List.foldl_cons, ih _ (Nat.mod_lt _ (Nat.two_pow_pos bits)), List.flatten_cons,
      List.length_append, layOut, Nat.mod_add_mod, Nat.add_assoc]

/-- Up to `high` everything has been written; what fits is as on the tape, and the rest is as it
was. -/
structure Follows (capacity : Nat) (initial : Buffer) (high : Nat) (tape : Tape)
    (output : Output) : Prop where
  length : output.length = tape.length
  length_le : tape.length ≤ high
  buffer : ∃ m, output.buffer = some m ∧ (∀ j, j < high → j < capacity - 1 → m j = tape.buffer j) ∧
    ∀ j, capacity - 1 ≤ j → m j = initial j

theorem Follows.append {capacity : Nat} {initial : Buffer} {high : Nat} {tape : Tape}
    {output : Output} (h : Follows capacity initial high tape output) (value : Bytes) :
    Follows capacity initial (max high (tape.length + value.length)) (layOut bits tape value)
      (appendBytes bits capacity output value) := by
  obtain ⟨hlength, hhigh, m, hm, hwritten, hrest⟩ := h
  refine ⟨by rw [appendBytes, layOut, hlength],
    (Nat.mod_le _ _).trans (Nat.le_max_right _ _), ?_⟩
  rw [appendBytes, layOut, hm, hlength]
  dsimp only
  split_ifs with hroom
  · refine ⟨_, rfl, fun j hj hcap => ?_, fun j hj => ?_⟩
    · simp only [Buffer.copy]
      split_ifs with hstart
      · by_cases hin : j - tape.length < value.length
        · rw [List.getElem?_eq_getElem hin, List.getElem?_eq_getElem (by
            rw [List.length_take]
            omega), List.getElem_take]
          rfl
        · rw [List.getElem?_eq_none (Nat.not_lt.mp hin), List.getElem?_eq_none (by
            rw [List.length_take]
            omega)]
          exact hwritten j (by omega) hcap
      · exact hwritten j (by omega) hcap
    · simp only [Buffer.copy]
      split_ifs
      · rw [List.getElem?_eq_none (by
          rw [List.length_take]
          omega)]
        exact hrest j hj
      · exact hrest j hj
  · refine ⟨m, rfl, fun j hj hcap => ?_, hrest⟩
    rw [Buffer.copy, if_neg (by omega)]
    exact hwritten j (by omega) hcap

theorem Follows.foldl (bits : Nat) {capacity : Nat} {initial : Buffer} {high : Nat} {tape : Tape}
    {output : Output} (h : Follows capacity initial high tape output) (values : List Bytes) :
    ∃ high', Follows capacity initial high' (values.foldl (layOut bits) tape)
      (values.foldl (appendBytes bits capacity) output) := by
  induction values generalizing high tape output with
  | nil => exact ⟨high, h⟩
  | cons value values ih => exact ih (h.append value)

/-! ### Size, then retry -/

/-- A call gives the length of the text, and as much of it as fits. -/
structure RendersTo (text : Bytes) (valid : Bool) (capacity : Nat) (output : Option Buffer)
    (r : Rendered) : Prop where
  required : r.required = some text.length
  result : r.result = if valid then if text.length < capacity then .ok else .bufferTooSmall
    else .invalidTemplate
  buffer : ∀ m, output = some m → ∃ m', r.buffer = some m' ∧ (∀ j, capacity ≤ j → m' j = m j) ∧
    (0 < capacity → m'.read (min text.length (capacity - 1)) = text.take (capacity - 1) ∧
      m' (min text.length (capacity - 1)) = 0)

/-- One text and one verdict for all capacities that a `size_t` can say. -/
def SupportsRetry (bits : Nat) (message : Bytes) (params : List Param) : Prop :=
  ∃ text valid, ∀ capacity < 2 ^ bits, ∀ output : Option Buffer,
    (capacity ≠ 0 → output.isSome = true) →
      RendersTo text valid capacity output
        (render bits (some message) (some params) output capacity)

theorem length_outputText (message : Bytes) (params : List Param) :
    (outputText bits message params).length = (laidOut bits message params).length := by
  simp [outputText, Buffer.read]

theorem length_laidOut (message : Bytes) (params : List Param) :
    (laidOut bits message params).length =
      (appended params message.length message).1.flatten.length % 2 ^ bits := by
  rw [laidOut, length_layOut_mod _ (Nat.two_pow_pos bits), Nat.zero_add]

/-- With any capacity the loop over the message comes to the length on the tape. -/
theorem length_appended (message : Bytes) (params : List Param) (output : Option Buffer)
    (capacity : Nat) :
    ((appended params message.length message).1.foldl (appendBytes bits capacity)
      ⟨output, 0⟩).length = (laidOut bits message params).length :=
  @length_layOut bits capacity ⟨output, 0⟩ _ rfl _

theorem renderMessage_result (message : Bytes) (params : List Param) (output : Option Buffer)
    (capacity : Nat) : (renderMessage bits message params output capacity).result =
      if (appended params message.length message).2 then .invalidTemplate
      else if capacity < ((laidOut bits message params).length + 1) % 2 ^ bits then
        .bufferTooSmall
      else .ok := by
  rw [← length_appended message params output capacity, renderMessage, renderLoop_eq]

theorem renderMessage_required (message : Bytes) (params : List Param) (output : Option Buffer)
    (capacity : Nat) : (renderMessage bits message params output capacity).required =
      some (outputText bits message params).length := by
  rw [length_outputText, ← length_appended message params output capacity, renderMessage,
    renderLoop_eq]

theorem renderMessage_buffer (message : Bytes) (params : List Param) (initial : Buffer)
    (capacity : Nat) : ∃ m,
      (renderMessage bits message params (some initial) capacity).buffer = some m ∧
      (∀ j, capacity ≤ j → m j = initial j) ∧
      (0 < capacity →
        m.read (min (outputText bits message params).length (capacity - 1)) =
          (outputText bits message params).take (capacity - 1) ∧
        m (min (outputText bits message params).length (capacity - 1)) = 0) := by
  have hstart : Follows capacity initial 0 ⟨fun _ => 0, 0⟩ ⟨some initial, 0⟩ :=
    ⟨rfl, le_rfl, initial, rfl, fun _ hj => absurd hj (Nat.not_lt_zero _), fun _ _ => rfl⟩
  obtain ⟨high, hlength, hhigh, m, hm, hwritten, hrest⟩ :=
    hstart.foldl bits (appended params message.length message).1
  have htape : (appended params message.length message).1.foldl (layOut bits) ⟨fun _ => 0, 0⟩ =
      laidOut bits message params := rfl
  rw [htape] at hlength hhigh hwritten
  have hbuffer : (renderMessage bits message params (some initial) capacity).buffer =
      if 0 < capacity then some (Function.update m
        (if (laidOut bits message params).length < capacity then
          (laidOut bits message params).length else capacity - 1) 0)
      else some m := by
    rw [renderMessage, renderLoop_eq]
    dsimp only
    rw [hm, hlength]
    rfl
  rw [hbuffer, length_outputText]
  by_cases hcap : 0 < capacity
  · have hend : (if (laidOut bits message params).length < capacity then
        (laidOut bits message params).length else capacity - 1) =
        min (laidOut bits message params).length (capacity - 1) := by
      split_ifs <;> omega
    rw [if_pos hcap, hend]
    refine ⟨_, rfl, fun j hj => ?_, fun _ => ⟨?_, Function.update_self ..⟩⟩
    · rw [Function.update_of_ne (by omega), hrest j (by omega)]
    · rw [outputText, Buffer.read, Buffer.read, ← List.map_take, List.take_range, Nat.min_comm]
      refine List.map_congr_left fun j hj => ?_
      rw [List.mem_range] at hj
      rw [Function.update_of_ne (by omega)]
      exact hwritten j (by omega) (by omega)
  · rw [if_neg hcap]
    exact ⟨m, rfl, fun j hj => hrest j (by omega), fun h => absurd h hcap⟩

/-- The expansion is as long as a retry can be told. -/
theorem rendersTo_outputText {message : Bytes} {params : List Param}
    (h : (appended params message.length message).2 = false →
      (laidOut bits message params).length ≠ 2 ^ bits - 1)
    {capacity : Nat} (output : Option Buffer) :
    RendersTo (outputText bits message params) (!(appended params message.length message).2)
      capacity output (renderMessage bits message params output capacity) where
  required := renderMessage_required message params output capacity
  result := by
    rw [renderMessage_result, length_outputText]
    cases hinvalid : (appended params message.length message).2 with
    | true => rfl
    | false =>
      have hlast := h hinvalid
      have hlt : (laidOut bits message params).length < 2 ^ bits := by
        rw [length_laidOut]
        exact Nat.mod_lt _ (Nat.two_pow_pos bits)
      rw [Nat.mod_eq_of_lt (by omega)]
      simp only [Bool.not_false, if_true, if_neg Bool.false_ne_true]
      split_ifs with htoo hfits hfits
      · omega
      · rfl
      · rfl
      · omega
  buffer := by
    rintro initial rfl
    exact renderMessage_buffer message params initial capacity

/-- With a length of `SIZE_MAX` the test at the end passes whatever the capacity. -/
theorem renderMessage_wraps {message : Bytes} {params : List Param}
    (hvalid : (appended params message.length message).2 = false)
    (hlast : (laidOut bits message params).length = 2 ^ bits - 1) (output : Option Buffer)
    (capacity : Nat) : (renderMessage bits message params output capacity).result = .ok := by
  have hsucc : 2 ^ bits - 1 + 1 = 2 ^ bits := Nat.sub_add_cancel (Nat.two_pow_pos bits)
  rw [renderMessage_result, hvalid, hlast, hsucc, Nat.mod_self, if_neg Bool.false_ne_true,
    if_neg (Nat.not_lt_zero _)]

theorem not_supportsRetry {message : Bytes} {params : List Param}
    (hvalid : (appended params message.length message).2 = false)
    (hlast : (laidOut bits message params).length = 2 ^ bits - 1) :
    ¬ SupportsRetry bits message params := by
  rintro ⟨text, valid, hall⟩
  have hcall := hall 0 (Nat.two_pow_pos bits) none fun h => absurd rfl h
  rw [render_some fun h => absurd rfl h] at hcall
  have hresult := hcall.result
  rw [renderMessage_wraps hvalid hlast] at hresult
  cases valid with
  | true =>
    rw [if_pos rfl, if_neg (Nat.not_lt_zero _)] at hresult
    cases hresult
  | false => cases hresult

/-- The length that the caller is told of a well-formed template. -/
theorem length_expand (bits : Nat) {message : Bytes} {params : List Param} {text : Bytes}
    (h : expand braces (fillWith params) .text message = some text) :
    (appended params message.length message).2 = false ∧
      (laidOut bits message params).length = text.length % 2 ^ bits := by
  have happended := appended_expand params (le_refl message.length)
  rw [h] at happended
  obtain ⟨hvalid, hflatten⟩ := happended.flatten
  exact ⟨hvalid, by rw [length_laidOut, hflatten]⟩

/-- Size, then retry works for a template unless its expansion is one byte short of a multiple of
`SIZE_MAX + 1`. -/
theorem supportsRetry_iff (bits : Nat) (message : Bytes) (params : List Param) :
    SupportsRetry bits message params ↔
      ∀ text, expand braces (fillWith params) .text message = some text →
        text.length % 2 ^ bits ≠ 2 ^ bits - 1 := by
  constructor
  · intro hretry text htext hlast
    obtain ⟨hvalid, hlength⟩ := length_expand bits htext
    exact not_supportsRetry hvalid (hlength.trans hlast) hretry
  · intro h
    refine ⟨outputText bits message params, !(appended params message.length message).2,
      fun capacity _ output hout => ?_⟩
    rw [render_some hout]
    refine rendersTo_outputText (fun hvalid => ?_) output
    obtain ⟨text, htext⟩ := Option.ne_none_iff_exists'.mp fun hexpand => by
      rw [(appended_expand params le_rfl).invalid.mpr hexpand] at hvalid
      cases hvalid
    rw [(length_expand bits htext).2]
    exact h text htext

/-! ### An expansion that fits -/

theorem read_copy_append (m : Buffer) (n : Nat) (s : Bytes) :
    (m.copy n s).read (n + s.length) = m.read n ++ s := by
  refine List.ext_getElem (by simp [Buffer.read]) fun j hj _ => ?_
  have hj : j < n + s.length := by simpa [Buffer.read] using hj
  rw [List.getElem_append]
  split_ifs with hn
  · have hn : j < n := by simpa [Buffer.read] using hn
    simp [Buffer.read, Buffer.copy, Nat.not_le.mpr hn]
  · have hn : n ≤ j := by simpa [Buffer.read] using hn
    have hs : j - n < s.length := by omega
    simp [Buffer.read, Buffer.copy, hn, hs]

/-- As long as nothing wraps, the tape has one value behind the other. -/
theorem read_layOut (tape : Tape) (values : List Bytes)
    (h : tape.length + values.flatten.length < 2 ^ bits) :
    (values.foldl (layOut bits) tape).buffer.read (values.foldl (layOut bits) tape).length =
      tape.buffer.read tape.length ++ values.flatten := by
  induction values generalizing tape with
  | nil => exact (List.append_nil _).symm
  | cons value values ih =>
    rw [List.flatten_cons, List.length_append] at h
    have hlength : (layOut bits tape value).length = tape.length + value.length :=
      Nat.mod_eq_of_lt (by omega)
    rw [List.foldl_cons, ih _ (by rw [hlength]; omega), hlength, layOut, read_copy_append,
      List.flatten_cons, List.append_assoc]

theorem outputText_eq {message : Bytes} {params : List Param} {text : Bytes}
    (h : expand braces (fillWith params) .text message = some text)
    (hfits : text.length < 2 ^ bits) : outputText bits message params = text := by
  have happended := appended_expand params (le_refl message.length)
  rw [h] at happended
  obtain ⟨-, hflatten⟩ := happended.flatten
  rw [outputText, laidOut, read_layOut _ _ (by rw [hflatten, Nat.zero_add]; exact hfits), hflatten]
  rfl

/-- `msys_i18n_render` of a well-formed template, whose expansion is shorter than `SIZE_MAX`. -/
theorem render_fits (bits : Nat) {message : Bytes} {params : List Param} {text : Bytes}
    (h : expand braces (fillWith params) .text message = some text)
    (hfits : text.length + 1 < 2 ^ bits) {capacity : Nat} {output : Option Buffer}
    (hout : capacity ≠ 0 → output.isSome = true) :
    RendersTo text true capacity output
      (render bits (some message) (some params) output capacity) := by
  obtain ⟨hvalid, hlength⟩ := length_expand bits h
  have hmod : text.length % 2 ^ bits = text.length := Nat.mod_eq_of_lt (by omega)
  have hrenders := @rendersTo_outputText bits message params
    (fun _ => by rw [hlength, hmod]; omega) capacity output
  rw [outputText_eq h (by omega), hvalid] at hrenders
  rw [render_some hout]
  exact hrenders

/-! ### An output of `SIZE_MAX` bytes -/

/-- The placeholder over and over. -/
def repeated (n : Nat) : Bytes := (List.replicate n (text "\x7ba\x7d")).flatten

theorem expand_repeated (value : Bytes) (n : Nat) :
    expand braces (fillWith [⟨some (text "a"), some value⟩]) .text (repeated n) =
      some (List.replicate n value).flatten := by
  induction n with
  | zero => rfl
  | succ n ih =>
    have hcons : repeated (n + 1) = chr '\x7b' :: (text "a" ++ chr '\x7d' :: repeated n) := rfl
    have hclosing : chr '\x7d' ∉ text "a" := by decide
    have hhead : (text "a").head? ≠ some (chr '\x7b') := by decide
    have hopening := @Template.expand_opening _ _ braces
      (fillWith [⟨some (text "a"), some value⟩]) _ hclosing hhead (repeated n)
    have hname : braces.isName (text "a") = true := by decide +kernel
    have hfill : fillWith [⟨some (text "a"), some value⟩] (text "a") = value := by
      rw [fillWith, findParam, if_pos (by decide +kernel)]
      rfl
    rw [hname, if_pos rfl, ih, hfill] at hopening
    rw [hcons]
    exact hopening

theorem length_repeated (n k : Nat) (b : UInt8) :
    (List.replicate n (List.replicate k b)).flatten.length = n * k := by
  rw [List.length_flatten, List.map_replicate, List.length_replicate, List.sum_replicate,
    smul_eq_mul]

/-- On a 32-bit target, 65535 placeholders for a value of 65537 bytes. -/
theorem retry_wraps :
    ¬ SupportsRetry 32 (repeated 65535) [⟨some (text "a"), some (List.replicate 65537 0x78)⟩] := by
  have hexpand := expand_repeated (List.replicate 65537 0x78) 65535
  obtain ⟨hvalid, hlength⟩ := length_expand 32 hexpand
  refine not_supportsRetry hvalid (hlength.trans ?_)
  rw [length_repeated]
  norm_num

end Msys.I18n.C
