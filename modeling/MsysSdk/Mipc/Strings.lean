import MsysSdk.Mipc.Decoding
import MsysSdk.Mipc.Finding

/-! What `msys_mipc_json_get_string` leaves behind: the string that a literal denotes, cut to the
room there is, and the buffer after an error. -/

namespace Msys.Mipc
open Libc Json

instance validDecidable : (p : Piece UInt8) → Decidable (p.Valid dialect)
  | .plain b => inferInstanceAs (Decidable (dialect.plain b = true))
  | .escape c => inferInstanceAs (Decidable (c ∈ shortEscapes))
  | .unicode h₁ h₂ h₃ h₄ =>
    inferInstanceAs (Decidable (Json.isHex h₁ ∧ Json.isHex h₂ ∧ Json.isHex h₃ ∧ Json.isHex h₄))

/-- The value of the key in the record is this string literal. -/
def StringAt (json key : CString) (body : List (Piece UInt8)) : Prop :=
  (∀ p ∈ body, p.Valid dialect) ∧ ∃ tail, FieldAt json.bytes key.bytes (quoted dialect body) tail

/-- A value that begins with a quote is a string literal. -/
theorem quoted_of_head {limit d : Nat} {v : Bytes} (h : Value dialect limit d v)
    (hq : v.head? = some (chr '"')) :
    ∃ body : List (Piece UInt8), (∀ p ∈ body, p.Valid dialect) ∧ v = quoted dialect body := by
  have other : ∀ {c : Char} {t : Bytes}, v = chr c :: t → chr c ≠ chr '"' → False := by
    rintro c t rfl hc
    exact hc (Option.some.inj hq)
  cases h with
  | string body hd hb => exact ⟨body, hb, rfl⟩
  | number n =>
    obtain ⟨b, t, hb, hhead⟩ := number_head n
    rw [hb] at hq
    exact absurd (Option.some.inj hq) (ne_of_number_head hhead).2.2.2.1
  | word hw =>
    have key : ∀ w ∈ dialect.words, w.head? ≠ some (chr '"') := by decide
    exact absurd hq (key v hw)
  | emptyArray ws => exact (other rfl (by decide)).elim
  | array items => exact (other rfl (by decide)).elim
  | emptyObject ws => exact (other rfl (by decide)).elim
  | object members => exact (other rfl (by decide)).elim

theorem length_quoted (body : List (Piece UInt8)) :
    (quoted dialect body).length = (bodyText dialect body).length + 2 := by
  simp [quoted]

/-- The call on a string literal is the loop on its body. -/
theorem jsonGetString_literal {json key : CString} {body : List (Piece UInt8)}
    (h : StringAt json key body) (m : Buffer) {capacity : Nat} (hc : 1 ≤ capacity) :
    jsonGetString json.bytes key.bytes m capacity =
      outcome capacity (Function.update m 0 0) 0 (decode body) := by
  obtain ⟨hvalid, tail, hfield⟩ := h
  have hrounds := rounds_decode hvalid
  refine jsonGetString_rounds hrounds (findTopLevelValue_iff.mpr hfield) m ?_ hc
  have hdecoded := hrounds.length_le
  have hvalue := hfield.length_le
  have hrecord := json.sized
  rw [length_quoted] at hvalue
  omega

/-- On any other value, and where none is found, the call fails with the buffer emptied. -/
theorem jsonGetString_other {json key : CString} (h : ∀ body, ¬StringAt json key body) (m : Buffer)
    {capacity : Nat} (hc : 1 ≤ capacity) :
    ∃ e, e ≠ .ok ∧ e ≠ .bufferTooSmall ∧
      jsonGetString json.bytes key.bytes m capacity = ⟨e, Function.update m 0 0, 0⟩ := by
  rw [jsonGetString, if_neg (by omega)]
  cases hfind : findTopLevelValue json.bytes key.bytes with
  | error e =>
    refine ⟨e, ?_, ?_, rfl⟩ <;>
      rcases findTopLevelValue_error hfind with rfl | rfl | rfl <;> decide
  | ok found =>
    obtain ⟨cursor, finish⟩ := found
    obtain ⟨value, rfl, hfield⟩ := findTopLevelValue_sound hfind
    refine ⟨.invalidJson, by decide, by decide, ?_⟩
    simp only [between_append]
    rw [if_pos]
    have hquote : value.head? ≠ some (chr '"') := by
      intro hq
      obtain ⟨body, hvalid, rfl⟩ := quoted_of_head hfield.value hq
      exact h body ⟨hvalid, finish, hfield⟩
    simp [hquote]

/-! ### Every capacity -/

/-- What a call on a string literal is for, whatever room there is: a whole string is counted in
full and stored as far as it fits, with its NUL. -/
structure Exact (decoded : List Decoded) (m : Buffer) (capacity : Nat) (r : StringResult) :
    Prop where
  whole : unpaired decoded = false → ∃ s : Bytes, decoded = s.map .byte ∧
    r.length = s.length ∧ r.buffer.holds (s.take (capacity - 1)) ∧
    r.result = if s.length < capacity then .ok else .bufferTooSmall
  broken : unpaired decoded = true → r.result = .invalidJson
  inside : ∀ j, capacity ≤ j → r.buffer j = m j

theorem outcome_inside (decoded : List Decoded) (m : Buffer) {capacity : Nat} (hc : 1 ≤ capacity)
    {j : Nat} (hj : capacity ≤ j) :
    (outcome capacity (Function.update m 0 0) 0 decoded).buffer j = m j := by
  have hfirst : Function.update m 0 0 j = m j := Function.update_of_ne (by omega) _ _
  have hstore : ∀ s, storeBytes capacity (Function.update m 0 0) 0 s j = m j := fun s =>
    (storeBytes_outside (by omega)).trans hfirst
  cases hpaired : unpaired decoded with
  | true =>
    rw [outcome_broken hpaired]
    exact hstore _
  | false =>
    rw [decoded_of_paired hpaired, outcome_whole _ hc]
    exact (Function.update_of_ne (by omega) _ _).trans (hstore _)

theorem outcome_exact (decoded : List Decoded) (m : Buffer) {capacity : Nat} (hc : 1 ≤ capacity) :
    Exact decoded m capacity (outcome capacity (Function.update m 0 0) 0 decoded) where
  whole h := by
    have hrun := outcome_whole (decodedBytes decoded) hc (Function.update m 0 0)
    rw [← decoded_of_paired h] at hrun
    rw [hrun]
    exact ⟨_, decoded_of_paired h, rfl, holds_take hc _ _, rfl⟩
  broken h := by rw [outcome_broken h]
  inside _ hj := outcome_inside decoded m hc hj

/-- A call on a string literal decodes it exactly, at every capacity; it fails exactly on a
literal with a surrogate that has no partner. -/
theorem jsonGetString_exact {json key : CString} {body : List (Piece UInt8)}
    (h : StringAt json key body) (m : Buffer) {capacity : Nat} (hc : 1 ≤ capacity) :
    Exact (decode body) m capacity (jsonGetString json.bytes key.bytes m capacity) := by
  rw [jsonGetString_literal h m hc]
  exact outcome_exact _ m hc

/-- The text of an ASCII literal in memory. -/
def cstring (s : String) (h : 0 ∉ text s ∧ (text s).length ≤ sizeMax) : CString :=
  ⟨text s, h.1, h.2⟩

/-- A record with the one field `"t"`. -/
def fieldRecord : String := "\x7b\"t\":\"\\u4e2d\"\x7d"

/-- `{"t":"\u4e2d"}` read into three bytes: two of the character's three bytes fit. -/
theorem jsonGetString_exact_cut :
    Exact [.byte 0xE4, .byte 0xB8, .byte 0xAD] (fun _ => 0xFF) 3
      (jsonGetString (text fieldRecord) (text "t") (fun _ => 0xFF) 3) :=
  @jsonGetString_exact (cstring fieldRecord (by decide +kernel)) (cstring "t" (by decide +kernel))
    [.unicode '4' 'e' '2' 'd'] ⟨by decide +kernel, text "\x7d",
      findTopLevelValue_iff.mp (by decide +kernel)⟩ (fun _ => 0xFF) 3 (by decide)

/-! ### After an error -/

/-- The buffer is a C string, and after an error the empty one. -/
def Terminated (capacity : Nat) (r : StringResult) : Prop :=
  (r.result ≠ .invalidArgument → ∃ j < capacity, r.buffer j = 0) ∧
    (r.result ≠ .ok → r.result ≠ .bufferTooSmall → r.buffer 0 = 0)

/-- Nothing that shows has been decoded when the loop comes to a surrogate without a partner. -/
def Unstored (decoded : List Decoded) : Prop :=
  unpaired decoded = true → ∀ b, decoded.head? = some (.byte b) → b = 0

theorem terminated_of_first {capacity : Nat} (hc : 1 ≤ capacity) {r : StringResult}
    (h : r.buffer 0 = 0) : Terminated capacity r :=
  ⟨fun _ => ⟨0, hc, h⟩, fun _ _ => h⟩

/-- The first byte of the buffer after the loop has failed. -/
theorem storeBytes_first (capacity : Nat) (m : Buffer) (decoded : List Decoded) :
    storeBytes capacity (Function.update m 0 0) 0 (decodedBytes decoded) 0 = 0 ↔
      capacity ≤ 1 ∨ ∀ b, decoded.head? = some (.byte b) → b = 0 := by
  rw [storeBytes_apply, Function.update_self]
  by_cases hroom : capacity ≤ 1
  · rw [if_neg (by omega)]
    simp [hroom]
  · rw [if_pos ⟨le_refl 0, by omega⟩]
    rcases decoded with _ | ⟨b | n, decoded⟩
    · simp [decodedBytes]
    · simp [decodedBytes, hroom]
    · simp [decodedBytes]

theorem outcome_terminated (decoded : List Decoded) (m : Buffer) {capacity : Nat}
    (hc : 1 ≤ capacity) :
    Terminated capacity (outcome capacity (Function.update m 0 0) 0 decoded) ↔
      capacity = 1 ∨ Unstored decoded := by
  cases hpaired : unpaired decoded with
  | true =>
    have hfirst := storeBytes_first capacity m decoded
    have hone : capacity ≤ 1 ↔ capacity = 1 := by omega
    have hunstored : Unstored decoded ↔ ∀ b, decoded.head? = some (.byte b) → b = 0 :=
      forall_prop_of_true hpaired
    rw [outcome_broken hpaired, hunstored, ← hone, ← hfirst]
    constructor
    · intro h
      exact h.2 Result.noConfusion Result.noConfusion
    · intro h
      exact terminated_of_first hc h
  | false =>
    have hunstored : Unstored decoded := fun h => absurd (h.symm.trans hpaired) (by decide)
    refine iff_of_true ?_ (.inr hunstored)
    rw [decoded_of_paired hpaired, outcome_whole _ hc]
    refine ⟨fun _ => ⟨min (decodedBytes decoded).length (capacity - 1), ?_,
      Function.update_self ..⟩, fun hok hsmall => ?_⟩
    · exact (Nat.min_le_right _ _).trans_lt (by omega)
    · dsimp only at hok hsmall
      split_ifs at hok hsmall <;> contradiction

/-- The buffer is terminated, and empty after an error, exactly if it has room for the NUL alone
or no surrogate without a partner follows decoded text in the field's literal. -/
theorem jsonGetString_terminated (json key : CString) (m : Buffer) {capacity : Nat}
    (hc : 1 ≤ capacity) :
    Terminated capacity (jsonGetString json.bytes key.bytes m capacity) ↔
      capacity = 1 ∨ ∀ body, StringAt json key body → Unstored (decode body) := by
  by_cases hliteral : ∃ body, StringAt json key body
  · have hall : ∀ body, StringAt json key body →
        (Terminated capacity (jsonGetString json.bytes key.bytes m capacity) ↔
          capacity = 1 ∨ Unstored (decode body)) := by
      intro body h
      rw [jsonGetString_literal h m hc]
      exact outcome_terminated _ m hc
    constructor
    · intro hterminated
      by_cases hone : capacity = 1
      · exact .inl hone
      · exact .inr fun body h => ((hall body h).mp hterminated).resolve_left hone
    · intro h
      obtain ⟨body, hbody⟩ := hliteral
      exact (hall body hbody).mpr (h.imp_right fun hbodies => hbodies body hbody)
  · have hnone : ∀ body, ¬StringAt json key body := not_exists.mp hliteral
    obtain ⟨e, hok, hsmall, hcall⟩ := jsonGetString_other hnone m hc
    rw [hcall]
    refine iff_of_true ?_ (.inr fun body h => absurd h (hnone body))
    have hfirst : Function.update m 0 0 0 = 0 := Function.update_self 0 0 m
    exact terminated_of_first hc hfirst

/-- The same record as below, in a buffer of one byte. -/
theorem jsonGetString_terminated_byte :
    Terminated 1
      (jsonGetString (text "\x7b\"t\":\"x\\ud800\"\x7d") (text "t") (fun _ => 0xFF) 1) :=
  (@jsonGetString_terminated (cstring "\x7b\"t\":\"x\\ud800\"\x7d" (by decide +kernel))
    (cstring "t" (by decide +kernel)) (fun _ => 0xFF) 1 (by decide)).mpr (.inl rfl)

/-- A lone surrogate behind one letter: the letter stays in the buffer, and no NUL follows it. -/
theorem lone_surrogate_unterminated :
    (jsonGetString (text "\x7b\"t\":\"x\\ud800\"\x7d") (text "t") (fun _ => 0xFF) 2).result =
      .invalidJson ∧
    ¬Terminated 2
      (jsonGetString (text "\x7b\"t\":\"x\\ud800\"\x7d") (text "t") (fun _ => 0xFF) 2) := by
  have hresult : (jsonGetString (text "\x7b\"t\":\"x\\ud800\"\x7d") (text "t") (fun _ => 0xFF)
      2).result = .invalidJson := by decide +kernel
  have hbytes : ∀ j < 2, (jsonGetString (text "\x7b\"t\":\"x\\ud800\"\x7d") (text "t")
      (fun _ => 0xFF) 2).buffer j ≠ 0 := by decide +kernel
  refine ⟨hresult, fun h => ?_⟩
  obtain ⟨j, hj, hnul⟩ := h.1 (by rw [hresult]; decide)
  exact hbytes j hj hnul

end Msys.Mipc
