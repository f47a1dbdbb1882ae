import MsysSdk.Python.Value

/-! `json.loads` on bytes decoded as UTF-8, as the standard library computes it: the three
non-standard constants are known, a repeated name binds to its last value, nesting is cut
off by the recursion limit, and an integer literal has at most 4300 digits. -/

namespace Python

/-- The exceptions of decoding and of `json.loads`: UnicodeDecodeError, JSONDecodeError,
RecursionError, the ValueError for a long integer, and whatever `parse_constant` raises. -/
inductive LoadsError
  | unicode
  | malformed
  | recursion
  | digits
  | constant
deriving DecidableEq

/-- What the interpreter fixes: how deep the json module may recurse (the flat records of a
protocol fit), how a float literal is rounded, `str()` of values other than strings, and
the texts of the exceptions above. -/
structure Interpreter where
  recursionLimit : Nat
  parseFloat : Str → Float64
  strOf : Value → Str
  loadsText : Bytes → LoadsError → Str
  recursionLimit_pos : 8 ≤ recursionLimit

/-- Default of `sys.set_int_max_str_digits`. -/
def intMaxStrDigits : Nat := 4300

def ch (c : Char) : CodePoint := .ofNat c.toNat

def isSpace (c : CodePoint) : Bool := c = ch ' ' || c = ch '\t' || c = ch '\n' || c = ch '\r'

def isDigit (c : CodePoint) : Bool := ch '0' ≤ c && c ≤ ch '9'

def skipSpace (s : Str) : Str := s.dropWhile isSpace

def hexValue (c : CodePoint) : Option Nat :=
  if isDigit c then some (c.val - 48)
  else if ch 'a' ≤ c && c ≤ ch 'f' then some (c.val - 87)
  else if ch 'A' ≤ c && c ≤ ch 'F' then some (c.val - 55)
  else none

def hexQuad : Str → Option (Nat × Str)
  | a :: b :: c :: d :: rest => do
    let n := (((← hexValue a) * 16 + (← hexValue b)) * 16 + (← hexValue c)) * 16 + (← hexValue d)
    return (n, rest)
  | _ => none

/-- A `\u` escape after its `u`; a high surrogate takes the low one that follows it. -/
def scanUnicode (s : Str) : Option (CodePoint × Str) := do
  let (n, rest) ← hexQuad s
  if 0xD800 ≤ n && n ≤ 0xDBFF then
    match rest with
    | a :: b :: rest' =>
      if a = ch '\\' && b = ch 'u' then
        match hexQuad rest' with
        | some (m, rest'') =>
          if 0xDC00 ≤ m && m ≤ 0xDFFF then
            return (.ofNat (0x10000 + (n - 0xD800) * 0x400 + (m - 0xDC00)), rest'')
          -- an unpaired surrogate stays in the string
          else return (.ofNat n, rest)
        | none => return (.ofNat n, rest)
      else return (.ofNat n, rest)
    | _ => return (.ofNat n, rest)
  else return (.ofNat n, rest)

def simpleEscape (c : CodePoint) : Option CodePoint :=
  if c = ch '"' || c = ch '\\' || c = ch '/' then some c
  else if c = ch 'b' then some (.ofNat 0x08)
  else if c = ch 'f' then some (.ofNat 0x0C)
  else if c = ch 'n' then some (ch '\n')
  else if c = ch 'r' then some (ch '\r')
  else if c = ch 't' then some (ch '\t')
  else none

/-- The body of a string after its opening quote. The first argument bounds the scan. -/
def scanString : Nat → Str → Option (Str × Str)
  | 0, _ => none
  | _ + 1, [] => none
  | n + 1, c :: rest =>
    if c = ch '"' then some ([], rest)
    else if c = ch '\\' then
      match rest with
      | [] => none
      | e :: rest =>
        if e = ch 'u' then do
          let (x, rest) ← scanUnicode rest
          let (xs, rest) ← scanString n rest
          return (x :: xs, rest)
        else do
          let x ← simpleEscape e
          let (xs, rest) ← scanString n rest
          return (x :: xs, rest)
    -- `strict` refuses control characters
    else if c < 32 then none
    else do
      let (xs, rest) ← scanString n rest
      return (c :: xs, rest)

def digitsValue (ds : Str) : Nat := ds.foldl (fun n c => n * 10 + (c.val - 48)) 0

/-- The optional fraction of a number: a point with at least one digit. -/
def scanFraction (s : Str) : Str × Str :=
  match s with
  | p :: d :: rest =>
    if p = ch '.' && isDigit d then (p :: d :: rest.takeWhile isDigit, rest.dropWhile isDigit)
    else ([], s)
  | _ => ([], s)

/-- The optional exponent of a number. -/
def scanExponent (s : Str) : Str × Str :=
  match s with
  | e :: d :: rest =>
    if e = ch 'e' || e = ch 'E' then
      if isDigit d then (e :: d :: rest.takeWhile isDigit, rest.dropWhile isDigit)
      else if d = ch '+' || d = ch '-' then
        match rest with
        | f :: rest =>
          if isDigit f then (e :: d :: f :: rest.takeWhile isDigit, rest.dropWhile isDigit)
          else ([], s)
        | [] => ([], s)
      else ([], s)
    else ([], s)
  | _ => ([], s)

/-- The digits before the point; a leading zero stands alone. -/
def scanDigits (d : CodePoint) (rest : Str) : Str × Str :=
  if d = ch '0' then ([d], rest) else (d :: rest.takeWhile isDigit, rest.dropWhile isDigit)

def numberValue (py : Interpreter) (sign digits frac exp : Str) : Except LoadsError Value :=
  if frac = [] && exp = [] then
    if intMaxStrDigits < digits.length then .error .digits
    else .ok (.int (if sign = [] then digitsValue digits else -digitsValue digits))
  else .ok (.float (py.parseFloat (sign ++ digits ++ frac ++ exp)))

/-- A number after its sign. -/
def scanUnsigned (py : Interpreter) (sign : Str) : Str → Except LoadsError (Value × Str)
  | [] => .error .malformed
  | d :: rest =>
    if !isDigit d then .error .malformed
    else do
      let (digits, rest) := scanDigits d rest
      let (frac, rest) := scanFraction rest
      let (exp, rest) := scanExponent rest
      return (← numberValue py sign digits frac exp, rest)

def scanNumber (py : Interpreter) : Str → Except LoadsError (Value × Str)
  | [] => .error .malformed
  | c :: rest => if c = ch '-' then scanUnsigned py [c] rest else scanUnsigned py [] (c :: rest)

def takePrefix (p s : Str) : Option Str := if p.isPrefixOf s then some (s.drop p.length) else none

def literals : List (Str × Value) :=
  [(str "null", .none), (str "true", .bool true), (str "false", .bool false)]

def constants : List (Str × Value) :=
  [(str "NaN", .float .nan), (str "Infinity", .float (.infinity false)),
    (str "-Infinity", .float (.infinity true))]

def scanName (names : List (Str × Value)) (s : Str) : Option (Value × Str) :=
  names.findSome? fun (name, v) => (takePrefix name s).map (v, ·)

/-- A value that is neither a string nor a container. -/
def scanAtom (py : Interpreter) (finiteOnly : Bool) (s : Str) : Except LoadsError (Value × Str) :=
  match scanName literals s with
  | some r => .ok r
  | none =>
    match scanName constants s with
    | some r => if finiteOnly then .error .constant else .ok r
    | none => scanNumber py s

mutual
/-- One value at the head of the text. `fuel` bounds the steps, `depth` the nesting left. -/
def scanValue (py : Interpreter) (finiteOnly : Bool) :
    Nat → Nat → Str → Except LoadsError (Value × Str)
  | 0, _, _ => .error .malformed
  | fuel + 1, depth, s =>
    match s with
    | [] => .error .malformed
    | c :: rest =>
      if c = ch '"' then
        match scanString (fuel + 1) rest with
        | some (x, rest) => .ok (.str x, rest)
        | none => .error .malformed
      else if c = ch '{' then
        match depth with
        | 0 => .error .recursion
        | depth + 1 =>
          match skipSpace rest with
          | [] => .error .malformed
          | d :: rest' =>
            if d = ch '}' then .ok (.dict [], rest')
            else do
              let (entries, rest) ← scanMembers py finiteOnly fuel depth [] (d :: rest')
              return (.dict entries, rest)
      else if c = ch '[' then
        match depth with
        | 0 => .error .recursion
        | depth + 1 =>
          match skipSpace rest with
          | [] => .error .malformed
          | d :: rest' =>
            if d = ch ']' then .ok (.list [], rest')
            else do
              let (items, rest) ← scanItems py finiteOnly fuel depth (d :: rest')
              return (.list items, rest)
      else scanAtom py finiteOnly (c :: rest)

/-- The members of a non-empty object up to its closing brace. -/
def scanMembers (py : Interpreter) (finiteOnly : Bool) :
    Nat → Nat → Dict → Str → Except LoadsError (Dict × Str)
  | 0, _, _, _ => .error .malformed
  | fuel + 1, depth, d, s =>
    match s with
    | [] => .error .malformed
    | c :: rest =>
      if c ≠ ch '"' then .error .malformed
      else match scanString (fuel + 1) rest with
        | none => .error .malformed
        | some (k, rest) =>
          match skipSpace rest with
          | [] => .error .malformed
          | c :: rest =>
            if c ≠ ch ':' then .error .malformed
            else do
              let (v, rest) ← scanValue py finiteOnly fuel depth (skipSpace rest)
              match skipSpace rest with
              | [] => .error .malformed
              | c :: rest =>
                if c = ch '}' then return (d.set k v, rest)
                else if c = ch ',' then
                  scanMembers py finiteOnly fuel depth (d.set k v) (skipSpace rest)
                else .error .malformed

/-- The items of a non-empty array up to its closing bracket. -/
def scanItems (py : Interpreter) (finiteOnly : Bool) :
    Nat → Nat → Str → Except LoadsError (List Value × Str)
  | 0, _, _ => .error .malformed
  | fuel + 1, depth, s => do
    let (v, rest) ← scanValue py finiteOnly fuel depth s
    match skipSpace rest with
    | [] => .error .malformed
    | c :: rest =>
      if c = ch ']' then return ([v], rest)
      else if c = ch ',' then do
        let (vs, rest) ← scanItems py finiteOnly fuel depth (skipSpace rest)
        return (v :: vs, rest)
      else .error .malformed
end

/-- `json.loads(text)`; a leading byte order mark is refused. -/
def loadsText (py : Interpreter) (finiteOnly : Bool) (s : Str) : Except LoadsError Value :=
  if s.head? = some (.ofNat 0xFEFF) then .error .malformed
  else do
    let (v, rest) ← scanValue py finiteOnly (s.length + 1) py.recursionLimit (skipSpace s)
    if skipSpace rest = [] then .ok v else .error .malformed

/-- `json.loads(data.decode("utf-8"))`. With `finiteOnly` the hook for NaN and the
infinities raises. -/
def loads (py : Interpreter) (finiteOnly : Bool) (data : Bytes) : Except LoadsError Value :=
  match decodeUtf8 data with
  | none => .error .unicode
  | some s => loadsText py finiteOnly s

/-- An interpreter for evaluating the model. -/
def plain : Interpreter := ⟨900, .finite, fun _ => [], fun _ _ => [], by decide⟩

example : loads plain true (bytes "[]") = .ok (.list []) := rfl

end Python
