import MsysSdk.Python.Ascii

/-! The translation of C11 source text up to the concatenation of string literals: trigraphs,
spliced lines, tokens. Digraphs, prefixed literals and character constants are not read. -/

namespace C11
open Python

/-! ### Phases 1 and 2 -/

def trigraphs : List (CodePoint × CodePoint) :=
  [(ch '=', ch '#'), (ch '(', ch '['), (ch '/', ch '\\'), (ch ')', ch ']'),
    (CodePoint.ofNat 0x27, ch '^'), (ch '<', CodePoint.ofNat 0x7B), (ch '!', ch '|'),
    (ch '>', CodePoint.ofNat 0x7D), (ch '-', ch '~')]

/-- The replacement of two question marks and this character. -/
def trigraph (a b c : CodePoint) : Option CodePoint :=
  if a = ch '?' ∧ b = ch '?' then trigraphs.lookup c else none

def replaceTrigraphs : Str → Str
  | a :: b :: c :: s =>
    match trigraph a b c with
    | some d => d :: replaceTrigraphs s
    | none => a :: replaceTrigraphs (b :: c :: s)
  | s => s

def hasTrigraph : Str → Bool
  | a :: b :: c :: s => (trigraph a b c).isSome || hasTrigraph (b :: c :: s)
  | _ => false

/-- A backslash at the end of a line joins it to the next one. -/
def splice : Str → Str
  | a :: b :: s => if a = ch '\\' ∧ b = ch '\n' then splice s else a :: splice (b :: s)
  | s => s

/-- What phase 3 sees. -/
def source (text : Str) : Str := splice (replaceTrigraphs text)

/-! ### Phase 3 -/

inductive Token
  | word (s : Str)
  | string (b : Bytes)
  | punct (c : CodePoint)
  | newline
deriving DecidableEq

/-- What the lexer is in the middle of; inside a literal with the bytes that it has so far. -/
inductive Mode
  | code
  | word (w : Str)
  | slash
  | lineComment
  | comment
  | star
  | text (b : Bytes)
  | escape (b : Bytes)
  /-- an octal escape, with the number of digits that may follow -/
  | octal (b : Bytes) (digits value : Nat)
  /-- a hexadecimal escape, without a value before its first digit -/
  | hex (b : Bytes) (value : Option Nat)
  /-- a universal character name, with the number of digits that must follow -/
  | universal (b : Bytes) (digits value : Nat)
  | error
deriving DecidableEq

structure Lexer where
  tokens : List Token
  mode : Mode
deriving DecidableEq

def isWordChar (c : CodePoint) : Bool := Ascii.isAlnum c.val || c = ch '_'

def isBlank (c : CodePoint) : Bool :=
  c = ch ' ' || c = ch '\t' || c = CodePoint.ofNat 0x0B || c = CodePoint.ofNat 0x0C

def simpleEscapes : List (CodePoint × UInt8) :=
  [(CodePoint.ofNat 0x27, 0x27), (ch '"', 0x22), (ch '?', 0x3F), (ch '\\', 0x5C), (ch 'a', 7),
    (ch 'b', 8), (ch 'f', 12), (ch 'n', 10), (ch 'r', 13), (ch 't', 9), (ch 'v', 11)]

def octalValue (c : CodePoint) : Option Nat :=
  if 48 ≤ c.val ∧ c.val ≤ 55 then some (c.val - 48) else none

/-- The bytes of a universal character name, if it may be written as one. -/
def universalBytes (n : Nat) : Option Bytes :=
  if n < 0x110000 ∧ (0xA0 ≤ n ∨ n = 0x24 ∨ n = 0x40 ∨ n = 0x60) then encodeChar (.ofNat n) else none

section
variable (ts : List Token)

def inCode (c : CodePoint) : Lexer :=
  if c = ch '\n' then ⟨ts ++ [.newline], .code⟩
  else if isBlank c then ⟨ts, .code⟩
  else if isWordChar c then ⟨ts, .word [c]⟩
  else if c = ch '"' then ⟨ts, .text []⟩
  else if c = ch '/' then ⟨ts, .slash⟩
  else if c = ch '\\' ∨ c = CodePoint.ofNat 0x27 then ⟨ts, .error⟩
  else ⟨ts ++ [.punct c], .code⟩

def inText (b : Bytes) (c : CodePoint) : Lexer :=
  if c = ch '"' then ⟨ts ++ [.string b], .code⟩
  else if c = ch '\\' then ⟨ts, .escape b⟩
  else if c = ch '\n' then ⟨ts, .error⟩
  else ⟨ts, .text (b ++ utf8 [c])⟩

def inEscape (b : Bytes) (c : CodePoint) : Lexer :=
  match simpleEscapes.lookup c, octalValue c with
  | some d, _ => ⟨ts, .text (b ++ [d])⟩
  | none, some n => ⟨ts, .octal b 2 n⟩
  | none, none =>
    if c = ch 'x' then ⟨ts, .hex b none⟩
    else if c = ch 'u' then ⟨ts, .universal b 4 0⟩
    else if c = ch 'U' then ⟨ts, .universal b 8 0⟩
    else ⟨ts, .error⟩

/-- The character after a numeric escape; the value has to fit into a byte. -/
def afterNumber (b : Bytes) (value : Nat) (c : CodePoint) : Lexer :=
  if value < 256 then inText ts (b ++ [UInt8.ofNat value]) c else ⟨ts, .error⟩

def inOctal (b : Bytes) (digits value : Nat) (c : CodePoint) : Lexer :=
  match digits, octalValue c with
  | digits + 1, some d => ⟨ts, .octal b digits (8 * value + d)⟩
  | _, _ => afterNumber ts b value c

def inHex (b : Bytes) (value : Option Nat) (c : CodePoint) : Lexer :=
  match Ascii.hexValue c.val, value with
  | some d, _ => ⟨ts, .hex b (some (16 * value.getD 0 + d))⟩
  | none, some n => afterNumber ts b n c
  | none, none => ⟨ts, .error⟩

def inUniversal (b : Bytes) (digits value : Nat) (c : CodePoint) : Lexer :=
  match Ascii.hexValue c.val, digits with
  | some d, digits + 2 => ⟨ts, .universal b (digits + 1) (16 * value + d)⟩
  | some d, _ =>
    match universalBytes (16 * value + d) with
    | some form => ⟨ts, .text (b ++ form)⟩
    | none => ⟨ts, .error⟩
  | none, _ => ⟨ts, .error⟩

end

def step (s : Lexer) (c : CodePoint) : Lexer :=
  match s.mode with
  | .code => inCode s.tokens c
  | .word w =>
    if isWordChar c then ⟨s.tokens, .word (w ++ [c])⟩ else inCode (s.tokens ++ [.word w]) c
  | .slash =>
    if c = ch '/' then ⟨s.tokens, .lineComment⟩
    else if c = ch '*' then ⟨s.tokens, .comment⟩
    else inCode (s.tokens ++ [.punct (ch '/')]) c
  | .lineComment => if c = ch '\n' then ⟨s.tokens ++ [.newline], .code⟩ else s
  | .comment => if c = ch '*' then ⟨s.tokens, .star⟩ else s
  | .star =>
    if c = ch '/' then ⟨s.tokens, .code⟩
    else if c = ch '*' then s
    else ⟨s.tokens, .comment⟩
  | .text b => inText s.tokens b c
  | .escape b => inEscape s.tokens b c
  | .octal b digits value => inOctal s.tokens b digits value c
  | .hex b value => inHex s.tokens b value c
  | .universal b digits value => inUniversal s.tokens b digits value c
  | .error => s

def scan (s : Lexer) (text : Str) : Lexer := text.foldl step s

/-- The tokens of a text that ends outside of all of them. -/
def tokens (text : Str) : Option (List Token) :=
  let s := scan ⟨[], .code⟩ (source text)
  if s.mode = .code then some s.tokens else none

/-! ### Phase 6 -/

/-- Adjacent string literals become one. -/
def concatenate : List Token → List Token
  | .string a :: ts =>
    match concatenate ts with
    | .string b :: us => .string (a ++ b) :: us
    | us => .string a :: us
  | t :: ts => t :: concatenate ts
  | [] => []

example : tokens (str "a[0] = \"x\\x41\" \"?\"\"?/?\";") =
    some [.word (str "a"), .punct (ch '['), .word (str "0"), .punct (ch ']'), .punct (ch '='),
      .string (bytes "xA"), .string (bytes "?"), .string (bytes "?/?"), .punct (ch ';')] := by
  decide +kernel

end C11
