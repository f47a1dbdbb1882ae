import MsysSdk.Text.Ascii
import Mathlib.Data.List.Basic

/-! The JSON grammar over any alphabet that contains the ASCII characters. A dialect says what
counts as white space, what may stand unescaped in a string, and which bare words are values. -/

namespace Json

structure Dialect (α : Type) where
  ch : Char → α
  space : α → Bool
  plain : α → Bool
  words : List (List α)

variable {α : Type} (G : Dialect α)

/-! ### Strings -/

/-- One element of a string literal, hexadecimal digits as they are spelled. -/
inductive Piece (α : Type)
  | plain (c : α)
  | escape (c : Char)
  | unicode (h₁ h₂ h₃ h₄ : Char)

def shortEscapes : List Char := ['"', '\\', '/', 'b', 'f', 'n', 'r', 't']

def isHex (c : Char) : Bool := (Ascii.hexValue c.toNat).isSome

def Piece.Valid : Piece α → Prop
  | .plain c => G.plain c = true
  | .escape c => c ∈ shortEscapes
  | .unicode h₁ h₂ h₃ h₄ => isHex h₁ ∧ isHex h₂ ∧ isHex h₃ ∧ isHex h₄

def Piece.text : Piece α → List α
  | .plain c => [c]
  | .escape c => [G.ch '\\', G.ch c]
  | .unicode h₁ h₂ h₃ h₄ => [G.ch '\\', G.ch 'u', G.ch h₁, G.ch h₂, G.ch h₃, G.ch h₄]

def bodyText (body : List (Piece α)) : List α := body.flatMap (Piece.text G)

/-- A string literal with its quotes. -/
def quoted (body : List (Piece α)) : List α := G.ch '"' :: (bodyText G body ++ [G.ch '"'])

/-! ### Numbers -/

structure Digits where
  chars : List Char
  nonempty : chars ≠ []
  digits : ∀ c ∈ chars, c.isDigit = true

structure Exponent where
  upper : Bool
  sign : Option Bool
  digits : Digits

structure Number where
  negative : Bool
  int : Digits
  noLeadingZero : int.chars.head? = some '0' → int.chars = ['0']
  frac : Option Digits
  exp : Option Exponent

def Digits.text (d : Digits) : List α := d.chars.map G.ch

def signText (negative : Bool) : List α := if negative then [G.ch '-'] else []

def fracText : Option Digits → List α
  | none => []
  | some d => G.ch '.' :: d.text G

/-- `true` stands for the minus sign. -/
def expSignText : Option Bool → List α
  | none => []
  | some true => [G.ch '-']
  | some false => [G.ch '+']

def expText : Option Exponent → List α
  | none => []
  | some e => G.ch (if e.upper then 'E' else 'e') :: (expSignText G e.sign ++ e.digits.text G)

def Number.text (n : Number) : List α :=
  signText G n.negative ++ (n.int.text G ++ (fracText G n.frac ++ expText G n.exp))

/-- The number of plain digits. -/
def Number.plain (n : Number) : Prop := n.negative = false ∧ n.frac = none ∧ n.exp = none

def begins (p : α → Prop) (rest : List α) : Prop := ∃ c, rest.head? = some c ∧ p c

def isDigitOf (c : α) : Prop := ∃ d : Char, d.isDigit = true ∧ c = G.ch d

/-- What follows the number does not continue it: a number is read as far as it goes, and a
point or an `e` after its digits is always taken for a fraction or an exponent. -/
def Number.Stops (n : Number) (rest : List α) : Prop :=
  (n.exp = none → ¬begins (fun c => c = G.ch 'e' ∨ c = G.ch 'E') rest) ∧
  (n.exp = none → n.frac = none → ¬begins (· = G.ch '.') rest) ∧
  (n.exp = none → n.frac = none → n.int.chars ≠ ['0'] → ¬begins (isDigitOf G) rest) ∧
  (n.exp ≠ none ∨ n.frac ≠ none → ¬begins (isDigitOf G) rest)

/-! ### Values -/

def Spaces (s : List α) : Prop := ∀ c ∈ s, G.space c = true

structure Item (α : Type) where
  before : List α
  value : List α
  after : List α

structure Member (α : Type) where
  before : List α
  name : List (Piece α)
  afterName : List α
  beforeValue : List α
  value : List α
  after : List α

def Item.Spaced (i : Item α) : Prop := Spaces G i.before ∧ Spaces G i.after

def Member.Spaced (m : Member α) : Prop :=
  Spaces G m.before ∧ Spaces G m.afterName ∧ Spaces G m.beforeValue ∧ Spaces G m.after

def Item.text (i : Item α) : List α := i.before ++ (i.value ++ i.after)

def Member.text (m : Member α) : List α :=
  m.before ++ (quoted G m.name ++ (m.afterName ++ G.ch ':' ::
    (m.beforeValue ++ (m.value ++ m.after))))

/-- Texts with a comma between any two of them. -/
def commaJoin : List (List α) → List α
  | [] => []
  | [s] => s
  | s :: t :: ss => s ++ G.ch ',' :: commaJoin (t :: ss)

/-- `Value G limit depth v`: the text `v` is a value, and neither it, standing at this depth,
nor any value within it lies deeper than the limit. -/
inductive Value (limit : Nat) : Nat → List α → Prop
  | string {d} (body : List (Piece α)) (hd : d ≤ limit) (hb : ∀ p ∈ body, p.Valid G) :
    Value limit d (quoted G body)
  | number {d} (n : Number) (hd : d ≤ limit) : Value limit d (n.text G)
  | word {d w} (hw : w ∈ G.words) (hd : d ≤ limit) : Value limit d w
  | emptyArray {d} (ws : List α) (hd : d ≤ limit) (hs : Spaces G ws) :
    Value limit d (G.ch '[' :: (ws ++ [G.ch ']']))
  | array {d} (items : List (Item α)) (hne : items ≠ []) (hd : d ≤ limit)
    (hs : ∀ i ∈ items, i.Spaced G) (hv : ∀ i ∈ items, Value limit (d + 1) i.value) :
    Value limit d (G.ch '[' :: (commaJoin G (items.map Item.text) ++ [G.ch ']']))
  | emptyObject {d} (ws : List α) (hd : d ≤ limit) (hs : Spaces G ws) :
    Value limit d (G.ch '{' :: (ws ++ [G.ch '}']))
  | object {d} (members : List (Member α)) (hne : members ≠ []) (hd : d ≤ limit)
    (hs : ∀ m ∈ members, m.Spaced G) (hn : ∀ m ∈ members, ∀ p ∈ m.name, p.Valid G)
    (hv : ∀ m ∈ members, Value limit (d + 1) m.value) :
    Value limit d (G.ch '{' :: (commaJoin G (members.map (Member.text G)) ++ [G.ch '}']))

/-- The value is not a number that the rest would continue. -/
def Ends (v rest : List α) : Prop :=
  (∃ n : Number, v = n.text G) → ∃ n : Number, v = n.text G ∧ n.Stops G rest

/-- The text of an object, with white space around it, and the members in it. -/
inductive Object (limit : Nat) : List (Member α) → List α → Prop
  | empty (ws₁ ws₂ ws₃ : List α) (h₁ : Spaces G ws₁) (h₂ : Spaces G ws₂) (h₃ : Spaces G ws₃) :
    Object limit [] (ws₁ ++ G.ch '{' :: (ws₂ ++ G.ch '}' :: ws₃))
  | members (ws₁ ws₃ : List α) (members : List (Member α)) (hne : members ≠ [])
    (h₁ : Spaces G ws₁) (h₃ : Spaces G ws₃) (hs : ∀ m ∈ members, m.Spaced G)
    (hn : ∀ m ∈ members, ∀ p ∈ m.name, p.Valid G)
    (hv : ∀ m ∈ members, Value G limit 1 m.value) :
    Object limit members
      (ws₁ ++ G.ch '{' :: (commaJoin G (members.map (Member.text G)) ++ G.ch '}' :: ws₃))

/-! ### What a string denotes -/

/-- One unit of a decoded string: a byte of its UTF-8 form, or a surrogate without its partner,
which has none. -/
inductive Decoded
  | byte (b : UInt8)
  | surrogate (n : Nat)
deriving DecidableEq

def shortEscapeValue (c : Char) : UInt8 :=
  match c with
  | 'b' => 0x08
  | 'f' => 0x0C
  | 'n' => 0x0A
  | 'r' => 0x0D
  | 't' => 0x09
  | c => UInt8.ofNat c.toNat

def hexDigit (c : Char) : Nat := (Ascii.hexValue c.toNat).getD 0

def hexQuad (h₁ h₂ h₃ h₄ : Char) : Nat :=
  ((hexDigit h₁ * 16 + hexDigit h₂) * 16 + hexDigit h₃) * 16 + hexDigit h₄

def isHigh (n : Nat) : Bool := 0xD800 ≤ n && n ≤ 0xDBFF
def isLow (n : Nat) : Bool := 0xDC00 ≤ n && n ≤ 0xDFFF

def scalar (n : Nat) : List Decoded := (String.utf8EncodeChar (Char.ofNat n)).map .byte

def codeUnit (n : Nat) : List Decoded := if isHigh n || isLow n then [.surrogate n] else scalar n

/-- The string that a literal over bytes denotes; a high surrogate takes the low one after it. -/
def decode : List (Piece UInt8) → List Decoded
  | [] => []
  | .plain b :: body => .byte b :: decode body
  | .escape c :: body => .byte (shortEscapeValue c) :: decode body
  | .unicode a b c d :: .unicode e f g h :: body =>
    if isHigh (hexQuad a b c d) && isLow (hexQuad e f g h) then
      scalar (0x10000 + (hexQuad a b c d - 0xD800) * 0x400 + (hexQuad e f g h - 0xDC00)) ++
        decode body
    else codeUnit (hexQuad a b c d) ++ decode (.unicode e f g h :: body)
  | .unicode a b c d :: body => codeUnit (hexQuad a b c d) ++ decode body

def Piece.isUnicode : Piece α → Bool
  | .unicode .. => true
  | _ => false

end Json
