import MsysSdk.Mipc.Scan
import Mathlib.Algebra.Group.Nat.Defs

/-! The accessors for the top-level fields of a record. Pointers are not NULL; what lies
between two cursors into one text is `between`. -/

namespace Msys.Mipc
open Libc

inductive Result
  | ok
  | timeout
  | eof
  | notFound
  | invalidArgument
  | invalidFd
  | ioError
  | tooLarge
  | bufferTooSmall
  | invalidJson
deriving DecidableEq

def sizeMax : Nat := 2 ^ 64 - 1

def uint64Max : Nat := 2 ^ 64 - 1

/-- The bytes from `cursor` up to `finish`. -/
def between (cursor finish : Bytes) : Bytes := cursor.take (cursor.length - finish.length)

/-- The `switch` on a one-letter escape. -/
def shortEscape (e : UInt8) : Option UInt8 :=
  if e = chr '"' || e = chr '\\' || e = chr '/' then some e
  else if e = chr 'b' then some 0x08
  else if e = chr 'f' then some 0x0C
  else if e = chr 'n' then some 0x0A
  else if e = chr 'r' then some 0x0D
  else if e = chr 't' then some 0x09
  else none

/-- The loop of `json_key_equals` over what is between the quotes. -/
def keyEquals : Bytes → Bytes → Bool
  | [], key => key.isEmpty
  | b :: body, key =>
    if b = chr '\\' then
      match body with
      | [] => false
      | e :: body =>
        match shortEscape e, key with
        | some decoded, k :: key => decoded = k && keyEquals body key
        | _, _ => false
    else
      match key with
      | k :: key => b = k && keyEquals body key
      | [] => false

def jsonKeyEquals (first finish key : Bytes) : Bool :=
  keyEquals (between first finish).tail.dropLast key

/-- The loop of `find_top_level_value`, from the name of a member. -/
def findMember : Nat → Bytes → Bytes → Except Result (Bytes × Bytes)
  | 0, _, _ => .error .invalidJson
  | fuel + 1, key, keyBegin =>
    match skipJsonString keyBegin with
    | none => .error .invalidJson
    | some keyEnd =>
      match skipSpace keyEnd with
      | [] => .error .invalidJson
      | c :: afterColon =>
        if c ≠ chr ':' then .error .invalidJson
        else
          let cursor := skipSpace afterColon
          match skipJsonValue cursor 1 with
          | none => .error .invalidJson
          | some finish =>
            match skipSpace finish with
            | [] => .error .invalidJson
            | c :: rest =>
              if c ≠ chr ',' && c ≠ chr '}' then .error .invalidJson
              else if jsonKeyEquals keyBegin keyEnd key then .ok (cursor, finish)
              else if c = chr '}' then .error .notFound
              else findMember fuel key (skipSpace rest)

/-- The cursors at the value of the field and behind it. -/
def findTopLevelValue (json key : Bytes) : Except Result (Bytes × Bytes) :=
  if key = [] then .error .invalidArgument
  else
    match skipSpace json with
    | [] => .error .invalidJson
    | c :: rest =>
      if c ≠ chr '{' then .error .invalidJson
      else
        match skipSpace rest with
        | [] => .error .invalidJson
        | d :: rest =>
          if d = chr '}' then .error .notFound else findMember (json.length + 1) key (d :: rest)

/-- `msys_mipc_json_get_raw`: the `raw_length` bytes at `raw_value`. -/
def jsonGetRaw (json key : Bytes) : Except Result Bytes :=
  (findTopLevelValue json key).map fun (cursor, finish) => between cursor finish

/-! ### Strings -/

def decodeHexQuad : Bytes → Option Nat
  | h₁ :: h₂ :: h₃ :: h₄ :: _ => do
    return (((← hexValue h₁) <<< 4 ||| (← hexValue h₂)) <<< 4 ||| (← hexValue h₃)) <<< 4
      ||| (← hexValue h₄)
  | _ => none

def encodeUtf8 (codepoint : Nat) : Bytes :=
  if codepoint ≤ 0x7F then [.ofNat codepoint]
  else if codepoint ≤ 0x7FF then
    [.ofNat (0xC0 ||| codepoint >>> 6), .ofNat (0x80 ||| codepoint &&& 0x3F)]
  else if codepoint ≤ 0xFFFF then
    [.ofNat (0xE0 ||| codepoint >>> 12), .ofNat (0x80 ||| codepoint >>> 6 &&& 0x3F),
      .ofNat (0x80 ||| codepoint &&& 0x3F)]
  else
    [.ofNat (0xF0 ||| codepoint >>> 18), .ofNat (0x80 ||| codepoint >>> 12 &&& 0x3F),
      .ofNat (0x80 ||| codepoint >>> 6 &&& 0x3F), .ofNat (0x80 ||| codepoint &&& 0x3F)]

/-- A `\u` escape past its `u`: the bytes it stands for, and the body after it. -/
def decodeUnicode (body : Bytes) : Option (Bytes × Bytes) := do
  let codepoint ← decodeHexQuad body
  let body := body.drop 4
  if 0xD800 ≤ codepoint && codepoint ≤ 0xDBFF then
    match body with
    | b :: u :: rest =>
      if b = chr '\\' && u = chr 'u' then
        let low ← decodeHexQuad rest
        if low < 0xDC00 || 0xDFFF < low then none
        else
          return (encodeUtf8 (0x10000 + (codepoint - 0xD800) <<< 10 + (low - 0xDC00)), rest.drop 4)
      else none
    | _ => none
  else if 0xDC00 ≤ codepoint && codepoint ≤ 0xDFFF then none
  else return (encodeUtf8 codepoint, body)

/-- One round of the decoding loop on a body that is not empty. -/
def decodeNext : Bytes → Option (Bytes × Bytes)
  | [] => none
  | b :: body =>
    if b ≠ chr '\\' then some ([b], body)
    else
      match body with
      | [] => none
      | e :: body =>
        if e = chr 'u' then decodeUnicode body else (shortEscape e).map fun b => ([b], body)

/-- The inner loop: bytes that would leave no room for the NUL are counted but not stored. -/
def storeBytes (capacity : Nat) (m : Buffer) (written : Nat) : Bytes → Buffer
  | [] => m
  | b :: bytes =>
    storeBytes capacity (if written + 1 < capacity then Function.update m written b else m)
      (written + 1) bytes

structure StringResult where
  result : Result
  buffer : Buffer
  /-- What `string_length` points at. -/
  length : Nat

/-- The rest of `msys_mipc_json_get_string` once `written` bytes are decoded. -/
def decodeString (capacity : Nat) : Nat → Buffer → Nat → Bytes → StringResult
  | 0, m, _, _ => ⟨.invalidJson, m, 0⟩
  | fuel + 1, m, written, body =>
    if body = [] then
      if capacity ≤ written then
        ⟨.bufferTooSmall, Function.update m (capacity - 1) 0, written⟩
      else ⟨.ok, Function.update m written 0, written⟩
    else
      match decodeNext body with
      | none => ⟨.invalidJson, m, 0⟩
      | some (bytes, body) =>
        if written ≤ sizeMax - bytes.length then
          decodeString capacity fuel (storeBytes capacity m written bytes) (written + bytes.length)
            body
        else ⟨.tooLarge, m, 0⟩

def jsonGetString (json key : Bytes) (m : Buffer) (capacity : Nat) : StringResult :=
  if capacity = 0 then ⟨.invalidArgument, m, 0⟩
  else
    let m := Function.update m 0 0
    match findTopLevelValue json key with
    | .error e => ⟨e, m, 0⟩
    | .ok (cursor, finish) =>
      let value := between cursor finish
      if value.head? ≠ some (chr '"') || value.length ≤ 1 || value.getLast? ≠ some (chr '"') then
        ⟨.invalidJson, m, 0⟩
      else
        let body := value.tail.dropLast
        decodeString capacity (body.length + 1) m 0 body

/-! ### Integers -/

/-- The loop over the digits; `none` when the value would not fit. -/
def parseDigits : Nat → Bytes → Option (Nat × Bytes)
  | parsed, [] => some (parsed, [])
  | parsed, b :: rest =>
    if isdigit b then
      let digit := b.toNat - 48
      if parsed > (uint64Max - digit) / 10 then none else parseDigits (parsed * 10 + digit) rest
    else some (parsed, b :: rest)

/-- The result, and what `value` points at afterwards. -/
def jsonGetU64 (json key : Bytes) : Result × Nat :=
  match findTopLevelValue json key with
  | .error e => (e, 0)
  | .ok (cursor, finish) =>
    let value := between cursor finish
    if startsWith isdigit value = false then (.invalidJson, 0)
    else
      match parseDigits 0 value with
      | some (parsed, []) => (.ok, parsed)
      | _ => (.invalidJson, 0)

example : (jsonGetRaw (text "\x7b\"id\": 7 , \"a\":[1,2] \x7d") (text "a")).toOption =
    some (text "[1,2]") := by decide +kernel

end Msys.Mipc
