import MsysSdk.I18n.CLiteral
import MsysSdk.I18n.CLookup

/-! The table that a C compiler finds in a generated header. The names in it are not looked up, but
the two that are declared must be free. -/

namespace Msys.CHeader
open Python C11
open Msys.I18n hiding Token

/-- What a header defines. -/
structure Header extends I18n.C.Catalog where
  id : Bytes

def word (s : String) : C11.Token := .word (str s)
def punct (c : Char) : C11.Token := .punct (ch c)

/-! ### Names -/

def keywords : List String :=
  ["auto", "break", "case", "char", "const", "continue", "default", "do", "double", "else", "enum",
    "extern", "float", "for", "goto", "if", "inline", "int", "long", "register", "restrict",
    "return", "short", "signed", "sizeof", "static", "struct", "switch", "typedef", "union",
    "unsigned", "void", "volatile", "while"]

/-- The ordinary identifiers and the macros of `msys/i18n.h`. -/
def sdkNames : List String :=
  ["MSYS_I18N_H", "MSYS_I18N_LOCALE_CAPACITY", "MSYS_I18N_OK", "MSYS_I18N_NOT_FOUND",
    "MSYS_I18N_BUFFER_TOO_SMALL", "MSYS_I18N_INVALID_ARGUMENT", "MSYS_I18N_INVALID_LOCALE",
    "MSYS_I18N_INVALID_TEMPLATE", "msys_i18n_entry", "msys_i18n_catalog", "msys_i18n_param",
    "msys_i18n_normalize_locale", "msys_i18n_locale_from_environment", "msys_i18n_lookup",
    "msys_i18n_plural_category", "msys_i18n_lookup_plural", "msys_i18n_render"]

/-- Those of `stddef.h`, and those of `stdint.h` that `isIntegerName` leaves out. -/
def standardNames : List String :=
  ["NULL", "offsetof", "max_align_t", "ptrdiff_t", "size_t", "wchar_t", "PTRDIFF_MIN",
    "PTRDIFF_MAX", "SIG_ATOMIC_MIN", "SIG_ATOMIC_MAX", "SIZE_MAX", "WCHAR_MIN", "WCHAR_MAX",
    "WINT_MIN", "WINT_MAX"]

/-- The names that `stdint.h` has or may come to have for its integer types and their limits. -/
def isIntegerName (name : Str) : Bool :=
  ((str "int").isPrefixOf name || (str "uint").isPrefixOf name) && (str "_t").isSuffixOf name ||
    ((str "INT").isPrefixOf name || (str "UINT").isPrefixOf name) &&
      ((str "_MAX").isSuffixOf name || (str "_MIN").isSuffixOf name || (str "_C").isSuffixOf name)

/-- A name that a declaration can introduce: C has it not for itself (names that begin with an
underscore are reserved), and the included headers have not declared it. -/
def isFree (name : Str) : Bool :=
  !((keywords ++ sdkNames ++ standardNames).map str).contains name && !isIntegerName name &&
    name.head? != some (ch '_')

/-- The names of the catalog and of its table are free. -/
def usable (symbol : Str) : Bool := isFree symbol && isFree (symbol ++ str "_entries")

/-! ### Phase 4 -/

def ifndefLine (guard : Str) : List C11.Token := [punct '#', word "ifndef", .word guard, .newline]
def defineLine (guard : Str) : List C11.Token := [punct '#', word "define", .word guard, .newline]

def includeLine : List C11.Token :=
  [punct '#', word "include", punct '<', word "msys", punct '/', word "i18n", punct '.', word "h",
    punct '>', .newline]

def endifLine : List C11.Token := [punct '#', word "endif", .newline]

def skipLines (ts : List C11.Token) : List C11.Token := ts.dropWhile (· = .newline)

/-- What comes after the tokens that have to come first. -/
def expect (expected ts : List C11.Token) : Option (List C11.Token) :=
  if expected <+: ts then some (ts.drop expected.length) else none

def guardOf : List C11.Token → Option Str
  | _ :: _ :: .word guard :: _ => some guard
  | _ => none

/-- The declarations between an include guard, which is not defined yet, and its end. -/
def unguard (ts : List C11.Token) : Option (List C11.Token) := do
  let ts := skipLines ts
  let guard ← guardOf ts
  let ts ← expect (ifndefLine guard) ts
  let ts ← expect (defineLine guard) (skipLines ts)
  let ts ← expect includeLine (skipLines ts)
  let body := ts.takeWhile (· ≠ punct '#')
  -- the macro is empty, so that its name must not occur
  if ts.dropWhile (· ≠ punct '#') = endifLine ∧ body.getLast? = some .newline ∧
      .word guard ∉ body then
    some (body.filter (· ≠ .newline))
  else none

/-! ### Phase 7 -/

def readEntry : List C11.Token → Option (I18n.C.Entry × List C11.Token)
  | .punct a :: .string locale :: .punct b :: .string key :: .punct c :: .string value ::
      .punct d :: ts =>
    if [a, b, c, d] = [ch '{', ch ',', ch ',', ch '}'] then some (⟨locale, key, value⟩, ts)
    else none
  | _ => none

/-- The entries and what comes after their closing brace; each takes some tokens. -/
def readEntries : Nat → List C11.Token → Option (List I18n.C.Entry × List C11.Token)
  | 0, _ => none
  | fuel + 1, ts =>
    if ts.head? = some (punct '}') then some ([], ts.tail)
    else match readEntry ts with
      | none => none
      | some (entry, ts) =>
        if ts.head? = some (punct ',') then
          (readEntries fuel ts.tail).map fun (entries, ts) => (entry :: entries, ts)
        else if ts.head? = some (punct '}') then some ([entry], ts.tail)
        else none

def entriesName (symbol : Str) : C11.Token := .word (symbol ++ str "_entries")

def tableStart (symbol : Str) : List C11.Token :=
  [word "static", word "const", word "msys_i18n_entry", entriesName symbol, punct '[', punct ']',
    punct '=', punct '{']

def catalogStart (symbol : Str) : List C11.Token :=
  [punct ';', word "static", word "const", word "msys_i18n_catalog", .word symbol, punct '=',
    punct '{']

/-- The table, and the number of its entries. -/
def catalogEnd (symbol : Str) : List C11.Token :=
  [punct ',', entriesName symbol, punct ',', word "sizeof", punct '(', entriesName symbol,
    punct ')', punct '/', word "sizeof", punct '(', entriesName symbol, punct '[', word "0",
    punct ']', punct ')', punct '}', punct ';']

def readCatalog (symbol : Str) (entries : List I18n.C.Entry) : List C11.Token → Option Header
  | .string id :: .punct c :: .string defaultLocale :: ts =>
    if c = ch ',' ∧ ts = catalogEnd symbol then some ⟨⟨defaultLocale, entries⟩, id⟩ else none
  | _ => none

/-- An array has an element at least. -/
def readDeclarations (symbol : Str) (ts : List C11.Token) : Option Header := do
  let ts ← expect (tableStart symbol) ts
  let (entries, ts) ← readEntries ts.length ts
  let ts ← expect (catalogStart symbol) ts
  if entries = [] then none else readCatalog symbol entries ts

def readHeader (symbol text : Str) : Option Header :=
  if usable symbol then
    ((tokens text).bind unguard).bind fun body => readDeclarations symbol (concatenate body)
  else none

/-- What the catalog is as a table of C strings. -/
def meaning (c : I18n.Catalog) : Header where
  id := utf8 c.id
  defaultLocale := utf8 c.defaultLocale
  entries := c.entries.map fun e => ⟨utf8 e.locale, utf8 e.key, utf8 e.value⟩

end Msys.CHeader
