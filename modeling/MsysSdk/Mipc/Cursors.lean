import MsysSdk.Mipc.Fields
import MsysSdk.Text.Cursor

/-! The scanner and the accessors as the machine runs them: every byte that they test is read from
the memory of a string, through a cursor that is an index into it. `rounds` bounds every loop and
`frames` the calls of `skip_json_value` that are open at one time. -/

namespace Msys.Mipc.Cursor
open Libc

variable (s : Bytes) (rounds : Nat)

def skipSpace (cursor : Nat) : Checked Nat :=
  skipWhile (fun b => b ≠ 0 && isspace b) s rounds cursor

/-! ### The scanner -/

/-- The four digits of a `\u` escape. -/
def skipHex : Nat → Nat → Checked (Option Nat)
  | 0, cursor => pure (some cursor)
  | n + 1, cursor => do
    let b ← readByte s cursor
    if b = 0 || !isHex b then pure none else skipHex n (cursor + 1)

/-- The loop of `skip_json_string`, past the opening quote. -/
def skipStringBody : Nat → Nat → Checked (Option Nat)
  | 0, _ => throw .unfinished
  | rounds + 1, cursor => do
    let byte ← readByte s cursor
    if byte = 0 then pure none
    else if byte = chr '"' then pure (some (cursor + 1))
    else if byte < 0x20 then pure none
    else if byte = chr '\\' then do
      let escape ← readByte s (cursor + 1)
      if escape = 0 then pure none
      else if escape = chr 'u' then do
        match ← skipHex s 4 (cursor + 2) with
        | none => pure none
        | some cursor => skipStringBody rounds cursor
      else if escape ∈ escapes then skipStringBody rounds (cursor + 2)
      else pure none
    else skipStringBody rounds (cursor + 1)

def skipJsonString (cursor : Nat) : Checked (Option Nat) := do
  if (← readByte s cursor) = chr '"' then skipStringBody s rounds (cursor + 1) else pure none

def skipDigits (cursor : Nat) : Checked (Option Nat) := do
  if isdigit (← readByte s cursor) then some <$> skipWhile isdigit s rounds cursor else pure none

def skipSign (cursor : Nat) : Checked Nat := do
  if (← readByte s cursor) = chr '-' then pure (cursor + 1) else pure cursor

def skipInteger (cursor : Nat) : Checked (Option Nat) := do
  if (← readByte s cursor) = chr '0' then pure (some (cursor + 1)) else skipDigits s rounds cursor

def skipFraction (cursor : Nat) : Checked (Option Nat) := do
  if (← readByte s cursor) = chr '.' then skipDigits s rounds (cursor + 1) else pure (some cursor)

def skipExponentSign (cursor : Nat) : Checked Nat := do
  let b ← readByte s cursor
  if b = chr '+' || b = chr '-' then pure (cursor + 1) else pure cursor

def skipExponent (cursor : Nat) : Checked (Option Nat) := do
  let b ← readByte s cursor
  if b = chr 'e' || b = chr 'E' then do
    skipDigits s rounds (← skipExponentSign s (cursor + 1))
  else pure (some cursor)

/-- The last part of `skip_json_value`. -/
def skipNumber (number : Nat) : Checked (Option Nat) := do
  match ← skipInteger s rounds (← skipSign s number) with
  | none => pure none
  | some cursor =>
    match ← skipFraction s rounds cursor with
    | none => pure none
    | some cursor =>
      match ← skipExponent s rounds cursor with
      | none => pure none
      | some cursor => pure (if cursor = number then none else some cursor)

/-- A value that is neither a string nor a container. -/
def skipAtom (cursor : Nat) : Checked (Option Nat) := do
  if ← matchesWord s (text "true") cursor then pure (some (cursor + 4))
  else if ← matchesWord s (text "false") cursor then pure (some (cursor + 5))
  else if ← matchesWord s (text "null") cursor then pure (some (cursor + 4))
  else do
    let b ← readByte s cursor
    if b = chr '-' || isdigit b then skipNumber s rounds cursor else pure none

/-- The loop over the members of an object; `value` is the call for the value of one. -/
def skipMembers (value : Nat → Checked (Option Nat)) : Nat → Nat → Checked (Option Nat)
  | 0, _ => throw .unfinished
  | n + 1, cursor => do
    match ← skipJsonString s rounds cursor with
    | none => pure none
    | some next => do
      let cursor ← skipSpace s rounds next
      if (← readByte s cursor) ≠ chr ':' then pure none
      else
        match ← value (cursor + 1) with
        | none => pure none
        | some cursor => do
          let cursor ← skipSpace s rounds cursor
          let c ← readByte s cursor
          if c = chr '}' then pure (some (cursor + 1))
          else if c ≠ chr ',' then pure none
          else do skipMembers value n (← skipSpace s rounds (cursor + 1))

/-- The loop over the items of an array. -/
def skipItems (value : Nat → Checked (Option Nat)) : Nat → Nat → Checked (Option Nat)
  | 0, _ => throw .unfinished
  | n + 1, cursor => do
    match ← value cursor with
    | none => pure none
    | some cursor => do
      let cursor ← skipSpace s rounds cursor
      let c ← readByte s cursor
      if c = chr ']' then pure (some (cursor + 1))
      else if c ≠ chr ',' then pure none
      else do skipItems value n (← skipSpace s rounds (cursor + 1))

def skipJsonValue : Nat → Nat → Nat → Checked (Option Nat)
  | 0, _, _ => throw .stackOverflow
  | frames + 1, depth, cursor =>
    if jsonMaxDepth < depth then pure none
    else do
      let cursor ← skipSpace s rounds cursor
      let c ← readByte s cursor
      if c = chr '"' then skipJsonString s rounds cursor
      else if c = chr '{' then do
        let cursor ← skipSpace s rounds (cursor + 1)
        if (← readByte s cursor) = chr '}' then pure (some (cursor + 1))
        else skipMembers s rounds (skipJsonValue frames (depth + 1)) rounds cursor
      else if c = chr '[' then do
        let cursor ← skipSpace s rounds (cursor + 1)
        if (← readByte s cursor) = chr ']' then pure (some (cursor + 1))
        else skipItems s rounds (skipJsonValue frames (depth + 1)) rounds cursor
      else skipAtom s rounds cursor

/-! ### The lookup -/

/-- The next byte of a name, decoded, and the cursor behind it. -/
def nextKeyByte (finish cursor : Nat) : Checked (Option (UInt8 × Nat)) := do
  let b ← readByte s cursor
  if b = chr '\\' then
    if finish ≤ cursor + 1 then pure none
    else do
      let escape ← readByte s (cursor + 1)
      pure ((shortEscape escape).map fun decoded => (decoded, cursor + 2))
  else pure (some (b, cursor + 1))

/-- The loop of `json_key_equals`. -/
def keyLoop (key : Bytes) (finish : Nat) : Nat → Nat → Nat → Checked Bool
  | 0, _, _ => throw .unfinished
  | rounds + 1, cursor, keyCursor =>
    if cursor < finish then do
      match ← nextKeyByte s finish cursor with
      | none => pure false
      | some (decoded, cursor) => do
        let k ← readByte key keyCursor
        if k = 0 || decoded ≠ k then pure false
        else keyLoop key finish rounds cursor (keyCursor + 1)
    else do pure ((← readByte key keyCursor) = 0)

def jsonKeyEquals (first finish : Nat) (key : Bytes) : Checked Bool :=
  keyLoop s key (finish - 1) rounds (first + 1) 0

/-- The loop of `find_top_level_value`, from the name of a member. -/
def findMember (frames : Nat) (key : Bytes) : Nat → Nat → Checked (Except Result (Nat × Nat))
  | 0, _ => throw .unfinished
  | n + 1, keyBegin => do
    match ← skipJsonString s rounds keyBegin with
    | none => pure (.error .invalidJson)
    | some keyEnd => do
      let cursor ← skipSpace s rounds keyEnd
      if (← readByte s cursor) ≠ chr ':' then pure (.error .invalidJson)
      else do
        let cursor ← skipSpace s rounds (cursor + 1)
        match ← skipJsonValue s rounds frames 1 cursor with
        | none => pure (.error .invalidJson)
        | some finish => do
          let behind ← readByte s (← skipSpace s rounds finish)
          if behind ≠ chr ',' && behind ≠ chr '}' then pure (.error .invalidJson)
          else if ← jsonKeyEquals s rounds keyBegin keyEnd key then pure (.ok (cursor, finish))
          else do
            let cursor ← skipSpace s rounds finish
            let c ← readByte s cursor
            if c = chr '}' then pure (.error .notFound)
            else if c ≠ chr ',' then pure (.error .invalidJson)
            else do findMember frames key n (← skipSpace s rounds (cursor + 1))

def findTopLevelValue (frames : Nat) (key : Bytes) : Checked (Except Result (Nat × Nat)) := do
  if (← readByte key 0) = 0 then pure (.error .invalidArgument)
  else do
    let cursor ← skipSpace s rounds 0
    if (← readByte s cursor) ≠ chr '{' then pure (.error .invalidJson)
    else do
      let cursor ← skipSpace s rounds (cursor + 1)
      if (← readByte s cursor) = chr '}' then pure (.error .notFound)
      else findMember s rounds frames key rounds cursor

/-! ### The accessors -/

/-- `raw_value`, as the index it points at, and `raw_length`. -/
def jsonGetRaw (frames : Nat) (key : Bytes) : Checked (Except Result (Nat × Nat)) := do
  match ← findTopLevelValue s rounds frames key with
  | .error e => pure (.error e)
  | .ok (first, finish) => pure (.ok (first, finish - first))

/-- The loop of `decode_hex_quad` over the digits that are left. -/
def hexDigits : Nat → Nat → Nat → Checked (Option Nat)
  | 0, _, result => pure (some result)
  | n + 1, cursor, result => do
    match hexValue (← readByte s cursor) with
    | none => pure none
    | some digit => hexDigits n (cursor + 1) (result <<< 4 ||| digit)

def decodeHexQuad (cursor : Nat) : Checked (Option Nat) := hexDigits s 4 cursor 0

/-- A `\u` escape past its `u`: the bytes it stands for, and the cursor behind it. -/
def decodeUnicode (finish cursor : Nat) : Checked (Option (Bytes × Nat)) := do
  if finish - cursor < 4 then pure none
  else
    match ← decodeHexQuad s cursor with
    | none => pure none
    | some codepoint =>
      if 0xD800 ≤ codepoint && codepoint ≤ 0xDBFF then
        if finish - (cursor + 4) < 6 then pure none
        else if (← readByte s (cursor + 4)) ≠ chr '\\' then pure none
        else if (← readByte s (cursor + 5)) ≠ chr 'u' then pure none
        else
          match ← decodeHexQuad s (cursor + 6) with
          | none => pure none
          | some low =>
            if low < 0xDC00 || 0xDFFF < low then pure none
            else
              pure (some (encodeUtf8 (0x10000 + (codepoint - 0xD800) <<< 10 + (low - 0xDC00)),
                cursor + 10))
      else if 0xDC00 ≤ codepoint && codepoint ≤ 0xDFFF then pure none
      else pure (some (encodeUtf8 codepoint, cursor + 4))

/-- One round of the decoding loop. -/
def decodeNext (finish cursor : Nat) : Checked (Option (Bytes × Nat)) := do
  let b ← readByte s cursor
  if b ≠ chr '\\' then pure (some ([b], cursor + 1))
  else if finish ≤ cursor + 1 then pure none
  else do
    let e ← readByte s (cursor + 1)
    if e = chr 'u' then decodeUnicode s finish (cursor + 2)
    else pure ((shortEscape e).map fun b => ([b], cursor + 2))

def decodeString (finish capacity : Nat) : Nat → Buffer → Nat → Nat → Checked StringResult
  | 0, _, _, _ => throw .unfinished
  | rounds + 1, m, written, cursor =>
    if cursor < finish then do
      match ← decodeNext s finish cursor with
      | none => pure ⟨.invalidJson, m, 0⟩
      | some (bytes, cursor) =>
        if written ≤ sizeMax - bytes.length then
          decodeString finish capacity rounds (storeBytes capacity m written bytes)
            (written + bytes.length) cursor
        else pure ⟨.tooLarge, m, 0⟩
    else if capacity ≤ written then
      pure ⟨.bufferTooSmall, Function.update m (capacity - 1) 0, written⟩
    else pure ⟨.ok, Function.update m written 0, written⟩

def jsonGetString (frames : Nat) (key : Bytes) (m : Buffer) (capacity : Nat) :
    Checked StringResult := do
  if capacity = 0 then pure ⟨.invalidArgument, m, 0⟩
  else
    match ← findTopLevelValue s rounds frames key with
    | .error e => pure ⟨e, Function.update m 0 0, 0⟩
    | .ok (cursor, finish) =>
      if (← readByte s cursor) ≠ chr '"' then pure ⟨.invalidJson, Function.update m 0 0, 0⟩
      else if finish ≤ cursor + 1 then pure ⟨.invalidJson, Function.update m 0 0, 0⟩
      else if (← readByte s (finish - 1)) ≠ chr '"' then
        pure ⟨.invalidJson, Function.update m 0 0, 0⟩
      else decodeString s (finish - 1) capacity rounds (Function.update m 0 0) 0 (cursor + 1)

/-- The loop over the digits; `none` when the value would not fit. -/
def parseDigits (finish : Nat) : Nat → Nat → Nat → Checked (Option (Nat × Nat))
  | 0, _, _ => throw .unfinished
  | rounds + 1, parsed, cursor =>
    if cursor < finish then do
      let b ← readByte s cursor
      if isdigit b then
        let digit := b.toNat - 48
        if parsed > (uint64Max - digit) / 10 then pure none
        else parseDigits finish rounds (parsed * 10 + digit) (cursor + 1)
      else pure (some (parsed, cursor))
    else pure (some (parsed, cursor))

def jsonGetU64 (frames : Nat) (key : Bytes) : Checked (Result × Nat) := do
  match ← findTopLevelValue s rounds frames key with
  | .error e => pure (e, 0)
  | .ok (cursor, finish) =>
    if cursor = finish then pure (.invalidJson, 0)
    else do
      let b ← readByte s cursor
      if b = chr '-' || !isdigit b then pure (.invalidJson, 0)
      else
        match ← parseDigits s finish rounds 0 cursor with
        | none => pure (.invalidJson, 0)
        | some (parsed, cursor) =>
          pure (if cursor = finish then (.ok, parsed) else (.invalidJson, 0))

example : jsonGetRaw (text "\x7b\"id\": 7 , \"a\":[1,2] \x7d") 30 65 (text "a") =
    pure (.ok (15, 5)) := by decide +kernel

end Msys.Mipc.Cursor
