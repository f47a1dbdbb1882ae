import MsysSdk.I18n.Catalog

/-! `render_c_header` of `i18n_c.py`. -/

namespace Msys.I18n
open Python RegularExpression

/-- `_C_IDENTIFIER` -/
def cIdentifier : Pattern :=
  oneOf (uppers ++ lowers ++ [ch '_']) * star (oneOf (uppers ++ lowers ++ digits ++ [ch '_']))

/-- The text of a character that stays in the literal. -/
def plainForm (c : CodePoint) : Option Str :=
  if 0x20 ≤ c.val ∧ c.val ≤ 0x7E then
    some (if c = ch '"' ∨ c = ch '\\' then [ch '\\', c] else [c])
  else if c = ch '\n' then some [ch '\\', ch 'n']
  else if c = ch '\r' then some [ch '\\', ch 'r']
  else if c = ch '\t' then some [ch '\\', ch 't']
  else none

/-- `'"' + "".join(ascii_text) + '"'`, if there is any text. -/
def flush (asciiText : Str) : List Str :=
  if asciiText = [] then [] else [ch '"' :: asciiText ++ [ch '"']]

/-- `'"\\x%02x"' % byte` -/
def hexPiece (b : UInt8) : Str :=
  ch '"' :: ch '\\' :: ch 'x' :: (hexDigits 2 b.toNat ++ [ch '"'])

/-- The loop of `_c_string`, with the text that has not been flushed. -/
def pieces (asciiText : Str) : Str → List Str
  | [] => flush asciiText
  | c :: cs =>
    match plainForm c with
    | some form => pieces (asciiText ++ form) cs
    | none => flush asciiText ++ (utf8 [c]).map hexPiece ++ pieces [] cs

/-- `_c_string` of a string without lone surrogates. -/
def cString (value : Str) : Str :=
  if pieces [] value = [] then str "\"\"" else (str " ").intercalate (pieces [] value)

/-- `re.sub(r"[^A-Za-z0-9]", "_", symbol).upper()`, of ASCII characters. -/
def guardPart (symbol : Str) : Str :=
  symbol.map fun c => UnicodeData.upperChar (if Ascii.isAlnum c.val then c else ch '_')

def guardName (symbol : Str) : Str := str "MSYS_GENERATED_" ++ guardPart symbol ++ str "_H"

structure HeaderEntry where
  locale : Str
  key : Str
  value : Str
deriving DecidableEq

def Catalog.entries (c : Catalog) : List HeaderEntry :=
  c.messages.flatMap fun m => m.2.map fun e => ⟨m.1, e.1, e.2⟩

def entryLine (e : HeaderEntry) : Str :=
  str "    \x7b" ++ cString e.locale ++ str ", " ++ cString e.key ++ str ", " ++ cString e.value ++
    str "\x7d,"

def openingLines (symbol : Str) : List Str :=
  [str "/* Generated from msys.i18n.catalog.v1; edit the JSON source. */",
    str "#ifndef " ++ guardName symbol,
    str "#define " ++ guardName symbol,
    [],
    str "#include <msys/i18n.h>",
    [],
    str "static const msys_i18n_entry " ++ symbol ++ str "_entries[] = \x7b"]

def closingLines (c : Catalog) (symbol : Str) : List Str :=
  [str "\x7d;",
    [],
    str "static const msys_i18n_catalog " ++ symbol ++ str " = \x7b",
    str "    " ++ cString c.id ++ str ",",
    str "    " ++ cString c.defaultLocale ++ str ",",
    str "    " ++ symbol ++ str "_entries,",
    str "    sizeof(" ++ symbol ++ str "_entries) / sizeof(" ++ symbol ++ str "_entries[0])",
    str "\x7d;",
    [],
    str "#endif",
    []]

inductive HeaderError
  | valueError (text : Str)
  | unicodeEncodeError
deriving DecidableEq

/-- The strings of the header. -/
def Catalog.strings (c : Catalog) : List Str :=
  c.entries.flatMap (fun e => [e.locale, e.key, e.value]) ++ [c.id, c.defaultLocale]

def renderCHeader (c : Catalog) (symbol : Str) : Except HeaderError Str :=
  if !cIdentifier.rmatch symbol then .error (.valueError (str "symbol must be a C identifier"))
  -- a lone surrogate makes `character.encode` raise
  else if c.strings.all fun s => (encodeUtf8 s).isSome then
    .ok ((str "\n").intercalate
      (openingLines symbol ++ c.entries.map entryLine ++ closingLines c symbol))
  else .error .unicodeEncodeError

example : cString (str "a\"\n\xe9 b") = str "\"a\\\"\\n\" \"\\xc3\" \"\\xa9\" \" b\"" := by
  decide +kernel

end Msys.I18n
