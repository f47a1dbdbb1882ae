import MsysSdk.Python.JsonDecoder

/-! `json.dumps(v, ensure_ascii=False, separators=(",", ":"))` followed by
`.encode("utf-8")`. -/

namespace Python

/-- The exceptions of the encoder, with their texts. -/
inductive DumpsError
  | type (text : Str)
  | value (text : Str)
  | recursion (text : Str)
deriving DecidableEq

def DumpsError.text : DumpsError → Str
  | .type t | .value t | .recursion t => t

def natRepr (n : Nat) : Str := (Nat.toDigits 10 n).map ch

/-- `int.__repr__`, which refuses more than 4300 digits. -/
def intRepr (i : Int) : Except DumpsError Str :=
  let digits := natRepr i.natAbs
  if intMaxStrDigits < digits.length then
    .error (.value (str "Exceeds the limit (4300 digits) for integer string conversion; use sys.set_int_max_str_digits() to increase the limit"))
  else .ok (if i < 0 then ch '-' :: digits else digits)

def hexDigit (n : Nat) : CodePoint := if n < 10 then .ofNat (48 + n) else .ofNat (87 + n)

/-- A character inside a JSON string: only quotes, backslashes and controls are escaped. -/
def escapeChar (c : CodePoint) : Str :=
  if c = ch '"' then [ch '\\', ch '"']
  else if c = ch '\\' then [ch '\\', ch '\\']
  else if c = ch '\n' then [ch '\\', ch 'n']
  else if c = ch '\r' then [ch '\\', ch 'r']
  else if c = ch '\t' then [ch '\\', ch 't']
  else if c = .ofNat 0x0C then [ch '\\', ch 'f']
  else if c = .ofNat 0x08 then [ch '\\', ch 'b']
  else if c.val < 32 then
    [ch '\\', ch 'u', ch '0', ch '0', hexDigit (c.val / 16), hexDigit (c.val % 16)]
  else [c]

def quoted (s : Str) : Str := ch '"' :: s.flatMap escapeChar ++ [ch '"']

def floatRepr (allowNan : Bool) : Float64 → Except DumpsError Str
  | .finite r => .ok r
  | .nan => if allowNan then .ok (str "NaN") else .error outOfRange
  | .infinity negative =>
    if allowNan then .ok (if negative then str "-Infinity" else str "Infinity")
    else .error outOfRange
where
  outOfRange : DumpsError := .value (str "Out of range float values are not JSON compliant")

/-- A dict key as text; only strings and the atoms below are accepted. -/
def keyText (allowNan : Bool) : Value → Except DumpsError Str
  | .str s => .ok s
  | .none => .ok (str "null")
  | .bool b => .ok (if b then str "true" else str "false")
  | .int i => intRepr i
  | .float f => floatRepr allowNan f
  | .object t => .error (refused t)
  | .list _ => .error (refused "list")
  | .dict _ | .cyclic => .error (refused "dict")
where
  refused (typeName : String) : DumpsError :=
    .type (str "keys must be str, int, float, bool or None, not " ++ str typeName)

def tooDeep : DumpsError :=
  .recursion (str "maximum recursion depth exceeded while encoding a JSON object")

mutual
/-- The text of a value; the first argument is the nesting the recursion limit leaves. -/
def dumpValue (allowNan : Bool) : Nat → Value → Except DumpsError Str
  | _, .none => .ok (str "null")
  | _, .bool b => .ok (if b then str "true" else str "false")
  | _, .int i => intRepr i
  | _, .float f => floatRepr allowNan f
  | _, .str s => .ok (quoted s)
  | 0, .list _ => .error tooDeep
  | depth + 1, .list xs => do
    let body ← dumpItems allowNan depth xs
    return ch '[' :: body ++ [ch ']']
  | 0, .dict _ => .error tooDeep
  | depth + 1, .dict d => do
    let body ← dumpEntries allowNan depth d
    return ch '{' :: body ++ [ch '}']
  | _, .cyclic => .error (.value (str "Circular reference detected"))
  | _, .object t =>
    .error (.type (str "Object of type " ++ str t ++ str " is not JSON serializable"))

def dumpItems (allowNan : Bool) (depth : Nat) : List Value → Except DumpsError Str
  | [] => .ok []
  | [x] => dumpValue allowNan depth x
  | x :: y :: xs => do
    let a ← dumpValue allowNan depth x
    let b ← dumpItems allowNan depth (y :: xs)
    return a ++ ch ',' :: b

def dumpEntries (allowNan : Bool) (depth : Nat) : List (Value × Value) → Except DumpsError Str
  | [] => .ok []
  | [(k, v)] => do
    let a ← keyText allowNan k
    let b ← dumpValue allowNan depth v
    return quoted a ++ ch ':' :: b
  | (k, v) :: e :: d => do
    let a ← keyText allowNan k
    let b ← dumpValue allowNan depth v
    let rest ← dumpEntries allowNan depth (e :: d)
    return quoted a ++ ch ':' :: b ++ ch ',' :: rest
end

/-- The text of the UnicodeEncodeError for a string with surrogates. -/
def surrogateText (s : Str) : Str :=
  let start := (s.takeWhile fun c => !c.isSurrogate).length
  let found := (s.drop start).takeWhile CodePoint.isSurrogate
  match found with
  | [c] => str "'utf-8' codec can't encode character '\\ud" ++
      [hexDigit (c.val / 256 % 16), hexDigit (c.val / 16 % 16), hexDigit (c.val % 16)] ++
      str "' in position " ++ natRepr start ++ str ": surrogates not allowed"
  | _ => str "'utf-8' codec can't encode characters in position " ++ natRepr start ++
      [ch '-'] ++ natRepr (start + found.length - 1) ++ str ": surrogates not allowed"

/-- `json.dumps(v, ...).encode("utf-8")`; UnicodeEncodeError is a ValueError. -/
def dumps (py : Interpreter) (allowNan : Bool) (v : Value) : Except DumpsError Bytes := do
  let s ← dumpValue allowNan py.recursionLimit v
  match encodeUtf8 s with
  | some b => return b
  | none => throw (.value (surrogateText s))

end Python
