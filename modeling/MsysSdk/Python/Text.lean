import MsysSdk.Python.Ascii
import MsysSdk.Python.JsonEncoder
import MsysSdk.Text.LocaleTag
import MsysSdk.Text.Encoded

/-! The methods of `str`. Those that consult the Unicode database take it as a parameter of
which only the ASCII part is fixed. -/

namespace Python

structure UnicodeData where
  isAlpha : CodePoint → Bool
  isDigit : CodePoint → Bool
  isAlnum : CodePoint → Bool
  isPrintable : CodePoint → Bool
  isUpper : Str → Bool
  lower : Str → Str
  upper : Str → Str
  title : Str → Str
  isAlpha_ascii : ∀ c : Char, c.toNat < 0x80 → isAlpha (ch c) = c.isAlpha
  isDigit_ascii : ∀ c : Char, c.toNat < 0x80 → isDigit (ch c) = c.isDigit
  isAlnum_ascii : ∀ c : Char, c.toNat < 0x80 → isAlnum (ch c) = c.isAlphanum
  isUpper_ascii : ∀ cs : List Char, (∀ c ∈ cs, c.toNat < 0x80) →
    isUpper (cs.map ch) = (cs.any Char.isUpper && !cs.any Char.isLower)
  lower_ascii : ∀ cs : List Char, (∀ c ∈ cs, c.toNat < 0x80) →
    lower (cs.map ch) = (cs.map Char.toLower).map ch
  upper_ascii : ∀ cs : List Char, (∀ c ∈ cs, c.toNat < 0x80) →
    upper (cs.map ch) = (cs.map Char.toUpper).map ch
  title_ascii : ∀ cs : List Char, (∀ c ∈ cs, c.isAlpha = true) →
    title (cs.map ch) = (LocaleTag.titled cs).map ch

/-- `str.isspace` of one character. -/
def isWhitespace (c : CodePoint) : Bool :=
  (9 ≤ c.val && c.val ≤ 13) || (28 ≤ c.val && c.val ≤ 32) || c.val = 0x85 || c.val = 0xA0 ||
    c.val = 0x1680 || (0x2000 ≤ c.val && c.val ≤ 0x200A) || c.val = 0x2028 || c.val = 0x2029 ||
    c.val = 0x202F || c.val = 0x205F || c.val = 0x3000

def strip (s : Str) : Str := (s.dropWhile isWhitespace).rdropWhile isWhitespace

/-- `s.split(c, 1)[0]`. -/
def upTo (c : CodePoint) (s : Str) : Str := s.takeWhile (· ≠ c)

/-- `s.rpartition(c)[0]`. -/
def beforeLast (c : CodePoint) (s : Str) : Str := (s.rdropWhile (· ≠ c)).dropLast

/-- `s.replace(a, b)` of single characters. -/
def replace (a b : CodePoint) (s : Str) : Str := s.map fun c => if c = a then b else c

def isAscii (s : Str) : Bool := s.all fun c => c.val < 0x80

/-- `str(i)` of an integer small enough for it. -/
def intText (i : Int) : Str := if i < 0 then ch '-' :: natRepr i.natAbs else natRepr i.natAbs

def hexDigits : Nat → Nat → Str
  | 0, _ => []
  | width + 1, n => hexDigits width (n / 16) ++ [hexDigit (n % 16)]

namespace UnicodeData

variable (u : UnicodeData)

def isalpha (s : Str) : Bool := s ≠ [] && s.all u.isAlpha
def isdigit (s : Str) : Bool := s ≠ [] && s.all u.isDigit
def isalnum (s : Str) : Bool := s ≠ [] && s.all u.isAlnum

/-- A character of the `repr` of a string. -/
def reprChar (quote c : CodePoint) : Str :=
  if c = quote || c = ch '\\' then [ch '\\', c]
  else if c = ch '\t' then str "\\t"
  else if c = ch '\n' then str "\\n"
  else if c = ch '\r' then str "\\r"
  else if c.val < 32 || c.val = 127 then str "\\x" ++ hexDigits 2 c.val
  else if c.val < 127 || u.isPrintable c then [c]
  else if c.val ≤ 0xFF then str "\\x" ++ hexDigits 2 c.val
  else if c.val ≤ 0xFFFF then str "\\u" ++ hexDigits 4 c.val
  else str "\\U" ++ hexDigits 8 c.val

/-- `repr(s)`: in single quotes unless only those occur in it. -/
def repr (s : Str) : Str :=
  let single := CodePoint.ofNat 0x27
  let quote := if s.contains single && !s.contains (ch '"') then ch '"' else single
  quote :: s.flatMap (u.reprChar quote) ++ [quote]

/-! ### ASCII and nothing else -/

def lowerChar (c : CodePoint) : CodePoint := if Ascii.isUpper c.val then .ofNat (c.val + 32) else c

def upperChar (c : CodePoint) : CodePoint := if Ascii.isLower c.val then .ofNat (c.val - 32) else c

/-- Every letter that follows a letter in lower case, the others in upper case. -/
def titleChars : Bool → Str → Str
  | _, [] => []
  | inWord, c :: s =>
    (if inWord then lowerChar c else upperChar c) :: titleChars (Ascii.isAlpha c.val) s

theorem lowerChar_ch {c : Char} (h : c.toNat < 0x80) : lowerChar (ch c) = ch c.toLower := by
  rw [lowerChar, ch_val h, Ascii.isUpper_toNat]
  split_ifs with hupper
  · have hvalid : (c.toNat + 32).isValidChar := .inl (by omega)
    rw [Char.toLower_eq_of_isUpper hupper, ch, Char.toNat_ofNat, if_pos hvalid]
  · rw [Char.toLower_eq_of_not_isUpper hupper]

theorem upperChar_ch {c : Char} (h : c.toNat < 0x80) : upperChar (ch c) = ch c.toUpper := by
  rw [upperChar, ch_val h, Ascii.isLower_toNat]
  split_ifs with hlower
  · have hvalid : (c.toNat - 32).isValidChar := .inl (by omega)
    rw [Char.toUpper_eq_of_isLower hlower, ch, Char.toNat_ofNat, if_pos hvalid]
  · rw [Char.toUpper_eq_of_not_isLower hlower]

theorem titleChars_ch {cs : List Char} (h : ∀ c ∈ cs, c.isAlpha = true) :
    titleChars true (cs.map ch) = (cs.map Char.toLower).map ch := by
  induction cs with
  | nil => rfl
  | cons c cs ih =>
    obtain ⟨hc, hcs⟩ := List.forall_mem_cons.mp h
    have hlt := LocaleTag.lt_of_isAlphanum (LocaleTag.isAlphanum_of_isAlpha hc)
    rw [List.map_cons, titleChars, ch_val hlt, Ascii.isAlpha_toNat, hc, ih hcs, if_pos rfl,
      lowerChar_ch hlt]
    rfl

/-- The tables that know ASCII only. -/
def ascii : UnicodeData where
  isAlpha c := Ascii.isAlpha c.val
  isDigit c := Ascii.isDigit c.val
  isAlnum c := Ascii.isAlnum c.val
  isPrintable c := 32 ≤ c.val && c.val < 127
  isUpper s := s.any (fun c => Ascii.isUpper c.val) && !s.any fun c => Ascii.isLower c.val
  lower s := s.map lowerChar
  upper s := s.map upperChar
  title s := titleChars false s
  isAlpha_ascii c h := by rw [ch_val h, Ascii.isAlpha_toNat]
  isDigit_ascii c h := by rw [ch_val h, Ascii.isDigit_toNat]
  isAlnum_ascii c h := by rw [ch_val h, Ascii.isAlnum_toNat]
  isUpper_ascii cs h := by
    rw [Encoded.any fun c hc => by rw [ch_val (h c hc), Ascii.isUpper_toNat],
      Encoded.any fun c hc => by rw [ch_val (h c hc), Ascii.isLower_toNat]]
  lower_ascii cs h := by
    rw [List.map_map, List.map_map]
    exact List.map_congr_left fun c hc => lowerChar_ch (h c hc)
  upper_ascii cs h := by
    rw [List.map_map, List.map_map]
    exact List.map_congr_left fun c hc => upperChar_ch (h c hc)
  title_ascii cs h := by
    cases cs with
    | nil => rfl
    | cons c cs =>
      obtain ⟨hc, hcs⟩ := List.forall_mem_cons.mp h
      have hlt := LocaleTag.lt_of_isAlphanum (LocaleTag.isAlphanum_of_isAlpha hc)
      rw [List.map_cons, titleChars, ch_val hlt, Ascii.isAlpha_toNat, hc, titleChars_ch hcs,
        if_neg Bool.false_ne_true, upperChar_ch hlt]
      rfl

end UnicodeData

example : UnicodeData.ascii.repr (str "a\t\xe9") = str "'a\\t\\xe9'" := by decide +kernel

/-- What `%r` and `%s` make of a value that is no string is not looked into. -/
structure Printer where
  unicode : UnicodeData
  reprOther : Value → Str
  strOther : Value → Str

namespace Printer

variable (p : Printer)

def repr : Value → Str
  | .str s => p.unicode.repr s
  | v => p.reprOther v

def str : Value → Str
  | .str s => s
  | v => p.strOther v

end Printer

end Python
