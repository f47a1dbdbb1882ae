import MsysSdk.Text.Bytes

/-! The scanner of the C SDK: it steps over one JSON value of a NUL-terminated text and keeps
nothing of it. A result is the cursor after the value; `none` is NULL. -/

namespace Msys.Mipc
open Libc

def jsonMaxDepth : Nat := 64

def skipSpace (s : Bytes) : Bytes := s.dropWhile isspace

/-- `none` is the result -1. -/
def hexValue (b : UInt8) : Option Nat := Ascii.hexValue b.toNat

def isHex (b : UInt8) : Bool := (hexValue b).isSome

def escapes : Bytes := text "\"\\/bfnrt"

/-- The loop of `skip_json_string`, past the opening quote. -/
def skipStringBody : Bytes → Option Bytes
  | [] => none
  | b :: s =>
    if b = chr '"' then some s
    else if b < 0x20 then none
    else if b = chr '\\' then
      match s with
      | [] => none
      | e :: s =>
        if e = chr 'u' then
          match s with
          | h₁ :: h₂ :: h₃ :: h₄ :: s =>
            if isHex h₁ && isHex h₂ && isHex h₃ && isHex h₄ then skipStringBody s else none
          | _ => none
        -- `strchr` on the short escapes; a NUL has been refused before
        else if e ∈ escapes then skipStringBody s
        else none
    else skipStringBody s

def skipJsonString : Bytes → Option Bytes
  | [] => none
  | b :: s => if b = chr '"' then skipStringBody s else none

/-- `strncmp(cursor, word, length of word) == 0` and the step over it. -/
def skipWord (word s : Bytes) : Option Bytes :=
  if word.isPrefixOf s then some (s.drop word.length) else none

def startsWith (p : UInt8 → Bool) (s : Bytes) : Bool := s.head?.any p

def skipDigits (s : Bytes) : Bytes := s.dropWhile isdigit

def skipSign (s : Bytes) : Bytes := if startsWith (· = chr '-') s then s.drop 1 else s

def skipInteger (s : Bytes) : Option Bytes :=
  if startsWith (· = chr '0') s then some (s.drop 1)
  else if startsWith isdigit s then some (skipDigits s)
  else none

def skipFraction (s : Bytes) : Option Bytes :=
  if startsWith (· = chr '.') s then
    if startsWith isdigit (s.drop 1) then some (skipDigits (s.drop 1)) else none
  else some s

def skipExponentSign (s : Bytes) : Bytes :=
  if startsWith (fun b => b = chr '+' || b = chr '-') s then s.drop 1 else s

def skipExponent (s : Bytes) : Option Bytes :=
  if startsWith (fun b => b = chr 'e' || b = chr 'E') s then
    let digits := skipExponentSign (s.drop 1)
    if startsWith isdigit digits then some (skipDigits digits) else none
  else some s

/-- The last part of `skip_json_value`, on a `-` or a digit. -/
def skipNumber (s : Bytes) : Option Bytes :=
  ((skipInteger (skipSign s)).bind skipFraction).bind skipExponent

/-- A value that is neither a string nor a container. -/
def skipAtom (s : Bytes) : Option Bytes :=
  match skipWord (text "true") s with
  | some rest => some rest
  | none =>
    match skipWord (text "false") s with
    | some rest => some rest
    | none =>
      match skipWord (text "null") s with
      | some rest => some rest
      | none =>
        if startsWith (fun b => b = chr '-' || isdigit b) s then skipNumber s else none

mutual
/-- `skip_json_value`; `fuel` bounds the steps. -/
def skipValue : Nat → Nat → Bytes → Option Bytes
  | 0, _, _ => none
  | fuel + 1, depth, s =>
    if jsonMaxDepth < depth then none
    else
      match skipSpace s with
      | [] => none
      | c :: rest =>
        if c = chr '"' then skipJsonString (c :: rest)
        else if c = chr '{' then
          match skipSpace rest with
          | [] => none
          | d :: rest' => if d = chr '}' then some rest' else skipMembers fuel depth (d :: rest')
        else if c = chr '[' then
          match skipSpace rest with
          | [] => none
          | d :: rest' => if d = chr ']' then some rest' else skipItems fuel depth (d :: rest')
        else skipAtom (c :: rest)

/-- The loop over the members of an object, from the name of one. -/
def skipMembers : Nat → Nat → Bytes → Option Bytes
  | 0, _, _ => none
  | fuel + 1, depth, s =>
    match skipJsonString s with
    | none => none
    | some next =>
      match skipSpace next with
      | [] => none
      | c :: rest =>
        if c ≠ chr ':' then none
        else
          match skipValue fuel (depth + 1) rest with
          | none => none
          | some cursor =>
            match skipSpace cursor with
            | [] => none
            | c :: rest =>
              if c = chr '}' then some rest
              else if c ≠ chr ',' then none
              else skipMembers fuel depth (skipSpace rest)

/-- The loop over the items of an array. -/
def skipItems : Nat → Nat → Bytes → Option Bytes
  | 0, _, _ => none
  | fuel + 1, depth, s =>
    match skipValue fuel (depth + 1) s with
    | none => none
    | some cursor =>
      match skipSpace cursor with
      | [] => none
      | c :: rest =>
        if c = chr ']' then some rest
        else if c ≠ chr ',' then none
        else skipItems fuel depth (skipSpace rest)
end

/-- The text is longer than any chain of calls and rounds on it. -/
def skipJsonValue (s : Bytes) (depth : Nat) : Option Bytes := skipValue (s.length + 1) depth s

example : skipJsonValue (text " [1.5e+3, true] x") 1 = some (text " x") := by decide +kernel

end Msys.Mipc
