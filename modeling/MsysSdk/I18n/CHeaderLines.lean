import MsysSdk.I18n.CHeaderReader

/-! The lines of a generated header, read one after the other. -/

namespace Msys.CHeader
open Python C11
open Msys.I18n hiding Token

/-! ### Tokens after concatenation -/

theorem concatenate_strings {bs : List Bytes} (h : bs ≠ []) (c : CodePoint) (ts : List C11.Token) :
    concatenate (strings bs ++ .punct c :: ts) = .string bs.flatten :: .punct c :: concatenate ts := by
  obtain ⟨b, bs, rfl⟩ := List.exists_cons_of_ne_nil h
  induction bs generalizing b with
  | nil => simp [strings, concatenate]
  | cons b' bs ih =>
    have hrest := ih b' (List.cons_ne_nil _ _)
    rw [strings, List.map_cons, List.cons_append, concatenate]
    rw [strings] at hrest
    rw [hrest]
    rfl

/-- Words and punctuation. -/
def NoStrings (ts : List C11.Token) : Prop := ∀ b, .string b ∉ ts

theorem concatenate_noStrings {ts : List C11.Token} (h : NoStrings ts) (us : List C11.Token) :
    concatenate (ts ++ us) = ts ++ concatenate us := by
  induction ts with
  | nil => rfl
  | cons t ts ih =>
    have hts : NoStrings ts := fun b hb => h b (List.mem_cons_of_mem t hb)
    cases t with
    | string b => exact absurd List.mem_cons_self (h b)
    | _ => exact congrArg (_ :: ·) (ih hts)

/-- A text whose tokens, without the ends of lines and with adjacent literals joined, are these. -/
structure Reads (t : Str) (out : List C11.Token) : Prop where
  exists_tokens : ∃ ts, Gives t ts ∧
    (∀ us, concatenate (ts.filter (· ≠ .newline) ++ us) = out ++ concatenate us) ∧
    ∀ x ∈ ts, (∀ b, x ≠ .string b) → x ≠ .newline → x ∈ out

theorem Reads.nil : Reads [] [] := ⟨[], gives_nil, fun _ => rfl, by simp⟩

theorem Reads.append {t u : Str} {out out' : List C11.Token} (h : Reads t out)
    (h' : Reads u out') : Reads (t ++ u) (out ++ out') := by
  obtain ⟨ts, hgives, hconcat, hmem⟩ := h.exists_tokens
  obtain ⟨us, hgives', hconcat', hmem'⟩ := h'.exists_tokens
  refine ⟨ts ++ us, hgives.append hgives', fun vs => ?_, fun x hx hs hl => ?_⟩
  · rw [List.filter_append, List.append_assoc, hconcat, hconcat', List.append_assoc]
  · exact List.mem_append.mpr ((List.mem_append.mp hx).imp (hmem x · hs hl) (hmem' x · hs hl))

theorem Reads.flatMap {α : Type} {f : α → Str} {g : α → List C11.Token} {l : List α}
    (h : ∀ x ∈ l, Reads (f x) (g x)) : Reads (l.flatMap f) (l.flatMap g) := by
  induction l with
  | nil => exact .nil
  | cons x l ih =>
    obtain ⟨hx, hl⟩ := List.forall_mem_cons.mp h
    exact hx.append (ih hl)

/-- Words, punctuation and ends of lines. -/
theorem reads_of_gives {t : Str} {ts : List C11.Token} (h : Gives t ts) (hs : NoStrings ts) :
    Reads t (ts.filter (· ≠ .newline)) := by
  refine ⟨ts, h, fun us => concatenate_noStrings (fun b hb => hs b ?_) us, fun x hx _ hl => ?_⟩
  · exact (List.mem_filter.mp hb).1
  · exact List.mem_filter.mpr ⟨hx, by simpa using hl⟩

theorem filter_strings (bs : List Bytes) :
    (strings bs).filter (· ≠ .newline) = strings bs := by
  refine List.filter_eq_self.mpr fun x hx => ?_
  obtain ⟨b, -, rfl⟩ := List.mem_map.mp hx
  rfl

/-- A string and the punctuation after it. -/
theorem reads_cString {s t : Str} {c : CodePoint} {ts : List C11.Token} (hs : Encodable s)
    (hno : hasTrigraph s = false) (ht : Gives t (.punct c :: ts)) (hts : NoStrings ts) :
    Reads (cString s ++ t) (.string (utf8 s) :: .punct c :: ts.filter (· ≠ .newline)) := by
  obtain ⟨chunks, hne, hbytes, hgives⟩ := gives_cString hs hno
  have hfilter : ((.punct c :: ts : List C11.Token)).filter (· ≠ .newline) =
      .punct c :: ts.filter (· ≠ .newline) := List.filter_cons_of_pos (by simp)
  refine ⟨strings chunks ++ .punct c :: ts, hgives.append ht, fun us => ?_, fun x hx hx' hl => ?_⟩
  · rw [List.filter_append, filter_strings, hfilter, List.append_assoc, List.cons_append,
      concatenate_strings hne, hbytes, concatenate_noStrings]
    · rfl
    · exact fun b hb => hts b (List.mem_filter.mp hb).1
  · rcases List.mem_append.mp hx with hx | hx
    · obtain ⟨b, -, rfl⟩ := List.mem_map.mp hx
      exact absurd rfl (hx' b)
    · rw [← hfilter]
      exact List.mem_cons_of_mem _ (List.mem_filter.mpr ⟨hx, by simpa using hl⟩)

/-! ### The parts of the header -/

/-- The lines before the table. -/
def openingText (guard : Str) : Str :=
  str "/* Generated from msys.i18n.catalog.v1; edit the JSON source. */\n" ++
    (str "#ifndef " ++ (guard ++ str "\n")) ++ (str "#define " ++ (guard ++ str "\n")) ++
    str "\n#include <msys/i18n.h>\n\n"

def tableText (symbol : Str) : Str :=
  str "static const msys_i18n_entry " ++ ((symbol ++ str "_entries") ++ str "[] = \x7b\n")

/-- A row up to its message. -/
def rowStart (e : HeaderEntry) : Str :=
  str "    \x7b" ++ (cString e.locale ++ str ", ") ++ (cString e.key ++ str ", ")

def rowText (e : HeaderEntry) : Str := rowStart e ++ (cString e.value ++ str "\x7d,\n")

def catalogText (symbol : Str) : Str :=
  str "\x7d;\n\nstatic const msys_i18n_catalog " ++ (symbol ++ str " = \x7b\n")

def fieldText (s : Str) : Str := str "    " ++ (cString s ++ str ",\n")

def sizeText (symbol : Str) : Str :=
  str "    " ++ ((symbol ++ str "_entries") ++ str ",\n    sizeof(") ++
    ((symbol ++ str "_entries") ++ str ") / sizeof(") ++
    ((symbol ++ str "_entries") ++ str "[0])\n\x7d;\n")

def endText : Str := str "\n#endif\n"

/-- What comes after the rows. -/
def closingText (c : I18n.Catalog) (symbol : Str) : Str :=
  catalogText symbol ++ (fieldText c.id ++ (fieldText c.defaultLocale ++ sizeText symbol))

theorem str_append (s t : String) : str (s ++ t) = str s ++ str t := by simp [str]

theorem str_join (s t : String) (u : Str) : str s ++ (str t ++ u) = str (s ++ t) ++ u := by
  rw [str_append, List.append_assoc]

theorem headerText_eq (c : I18n.Catalog) (symbol : Str) :
    (str "\n").intercalate (openingLines symbol ++ c.entries.map entryLine ++ closingLines c symbol) =
      openingText (guardName symbol) ++ (tableText symbol ++ (c.entries.flatMap rowText ++
        closingText c symbol) ++ endText) := by
  have hclosing : closingLines c symbol = (closingLines c symbol).dropLast ++ [[]] := rfl
  have hrows : (c.entries.map entryLine).flatMap (· ++ str "\n") = c.entries.flatMap rowText := by
    rw [List.flatMap_map]
    refine List.flatMap_congr fun e _ => ?_
    simp only [entryLine, rowText, rowStart, List.append_assoc]
    rfl
  rw [hclosing, ← List.append_assoc, Joined.intercalate_concat_nil, List.flatMap_append,
    List.flatMap_append, hrows]
  simp only [openingLines, closingLines, List.dropLast, List.flatMap_cons, List.flatMap_nil,
    openingText, tableText, closingText, catalogText, fieldText, sizeText, endText,
    List.append_assoc, List.append_nil, List.nil_append, str_join, ← str_append, String.reduceAppend]

/-! ### What they read as -/

/-- A text of this program, without strings. -/
theorem gives_str {s : String} {ts : List C11.Token}
    (hquiet : (str s).all (fun c => c ≠ question && c ≠ backslash) = true)
    (h : scan ⟨[], .code⟩ (str s) = ⟨ts, .code⟩) : Gives (str s) ts :=
  gives_quiet (quiet_of_all hquiet) h

theorem noStrings_of_all {ts : List C11.Token}
    (h : ts.all (fun t => t matches .word _ || t matches .punct _ || t matches .newline) = true) :
    NoStrings ts := by
  intro b hb
  exact absurd (List.all_eq_true.mp h _ hb) (by simp)

/-- A word and the text after it. -/
theorem gives_name {w : Str} {s : String} {x : CodePoint} {t : Str} {ts : List C11.Token}
    (hne : w ≠ []) (hw : w.all isWordChar = true) (hs : str s = x :: t)
    (hx : (!isWordChar x && x ≠ question && x ≠ backslash) = true) (h : Gives (str s) ts) :
    Gives (w ++ str s) (.word w :: ts) := by
  simp only [Bool.and_eq_true, Bool.not_eq_true', decide_eq_true_eq] at hx
  rw [hs] at h ⊢
  exact h.word hne (List.all_eq_true.mp hw) hx.1.1 ⟨hx.1.2, hx.2⟩

/-! ### The parts -/

/-- A name of C. -/
structure Name (w : Str) : Prop where
  nonempty : w ≠ []
  chars : w.all isWordChar = true

theorem Name.append {w v : Str} (hw : Name w) (hv : v.all isWordChar = true) : Name (w ++ v) where
  nonempty := List.append_ne_nil_of_left_ne_nil hw.nonempty v
  chars := by rw [List.all_append, hw.chars, hv, Bool.and_self]

theorem name_symbol {symbol : Str} (h : cIdentifier.rmatch symbol = true) : Name symbol := by
  have hall : cIdentifier.letters.all isWordChar = true := by decide +kernel
  have hmatch := (RegularExpression.rmatch_iff_matches' cIdentifier symbol).mp h
  refine ⟨?_, List.all_eq_true.mpr
    (RegularExpression.forall_of_letters (List.all_eq_true.mp hall) hmatch)⟩
  rintro rfl
  exact absurd h (by decide +kernel)

theorem upperChar_word {c : CodePoint} (h : isWordChar c = true) :
    isWordChar (UnicodeData.upperChar (if Ascii.isAlnum c.val then c else ch '_')) = true := by
  have hall : ∀ n < 128, Ascii.isLower n = true →
      isWordChar (CodePoint.ofNat (n - 32)) = true := by decide +kernel
  by_cases halnum : Ascii.isAlnum c.val = true
  · rw [if_pos halnum, UnicodeData.upperChar]
    split_ifs with hlower
    · have hlt : c.val < 128 := by
        simp only [Ascii.isLower, Bool.and_eq_true, decide_eq_true_eq] at hlower
        omega
      exact hall c.val hlt hlower
    · exact h
  · rw [if_neg halnum]
    decide

theorem name_guard {symbol : Str} (h : Name symbol) : Name (guardName symbol) := by
  have hbegin : Name (str "MSYS_GENERATED_") := ⟨by decide, by decide⟩
  refine (hbegin.append ?_).append (by decide)
  rw [guardPart, List.all_map]
  exact List.all_eq_true.mpr fun c hc => upperChar_word (List.all_eq_true.mp h.chars c hc)

theorem gives_opening {guard : Str} (h : Name guard) : Gives (openingText guard)
    (([.newline] ++ ifndefLine guard) ++ defineLine guard ++ (.newline :: includeLine ++ [.newline])) := by
  have hline : Gives (str "\n") [.newline] := gives_str (by decide) (by decide)
  have hname : Gives (guard ++ str "\n") [.word guard, .newline] :=
    gives_name h.nonempty h.chars rfl (by decide) hline
  have hcomment : Gives (str "/* Generated from msys.i18n.catalog.v1; edit the JSON source. */\n")
      [.newline] := gives_str (by decide +kernel) (by decide +kernel)
  have hifndef : Gives (str "#ifndef ") [punct '#', word "ifndef"] :=
    gives_str (by decide) (by decide +kernel)
  have hdefine : Gives (str "#define ") [punct '#', word "define"] :=
    gives_str (by decide) (by decide +kernel)
  have hinclude : Gives (str "\n#include <msys/i18n.h>\n\n")
      (.newline :: includeLine ++ [.newline]) := gives_str (by decide +kernel) (by decide +kernel)
  exact ((hcomment.append (hifndef.append hname)).append (hdefine.append hname)).append hinclude

section
variable {symbol : Str} (h : Name symbol)
include h

theorem name_entries : Name (symbol ++ str "_entries") := h.append (by decide)

theorem reads_table : Reads (tableText symbol) (tableStart symbol) := by
  have hname : Gives ((symbol ++ str "_entries") ++ str "[] = \x7b\n")
      [entriesName symbol, punct '[', punct ']', punct '=', punct '{', .newline] :=
    gives_name (name_entries h).nonempty (name_entries h).chars rfl (by decide)
      (gives_str (by decide +kernel) (by decide +kernel))
  have hstart : Gives (str "static const msys_i18n_entry ")
      [word "static", word "const", word "msys_i18n_entry"] :=
    gives_str (by decide +kernel) (by decide +kernel)
  exact reads_of_gives (hstart.append hname) (noStrings_of_all rfl)

theorem gives_catalog : Gives (catalogText symbol) ([punct '\x7d', punct ';', .newline, .newline,
    word "static", word "const", word "msys_i18n_catalog", .word symbol, punct '=', punct '\x7b',
    .newline]) := by
  have hname : Gives (symbol ++ str " = \x7b\n")
      [.word symbol, punct '=', punct '\x7b', .newline] :=
    gives_name h.nonempty h.chars rfl (by decide) (gives_str (by decide) (by decide))
  have hstart : Gives (str "\x7d;\n\nstatic const msys_i18n_catalog ") [punct '\x7d', punct ';',
      .newline, .newline, word "static", word "const", word "msys_i18n_catalog"] :=
    gives_str (by decide +kernel) (by decide +kernel)
  exact hstart.append hname

theorem gives_size : Gives (sizeText symbol)
    (([entriesName symbol, punct ',', .newline, word "sizeof", punct '('] ++
      [entriesName symbol, punct ')', punct '/', word "sizeof", punct '(']) ++
      [entriesName symbol, punct '[', word "0", punct ']', punct ')', .newline, punct '\x7d',
        punct ';', .newline]) := by
  have hname := name_entries h
  have hblank : Gives (str "    ") [] := gives_str (by decide) (by decide)
  have hfirst : Gives ((symbol ++ str "_entries") ++ str ",\n    sizeof(")
      [entriesName symbol, punct ',', .newline, word "sizeof", punct '('] :=
    gives_name hname.nonempty hname.chars rfl (by decide)
      (gives_str (by decide +kernel) (by decide +kernel))
  have hsecond : Gives ((symbol ++ str "_entries") ++ str ") / sizeof(")
      [entriesName symbol, punct ')', punct '/', word "sizeof", punct '('] :=
    gives_name hname.nonempty hname.chars rfl (by decide)
      (gives_str (by decide +kernel) (by decide +kernel))
  have hthird : Gives ((symbol ++ str "_entries") ++ str "[0])\n\x7d;\n")
      [entriesName symbol, punct '[', word "0", punct ']', punct ')', .newline, punct '\x7d',
        punct ';', .newline] :=
    gives_name hname.nonempty hname.chars rfl (by decide)
      (gives_str (by decide +kernel) (by decide +kernel))
  exact ((hblank.append hfirst).append hsecond).append hthird

end

theorem gives_end : Gives endText (.newline :: endifLine) :=
  gives_str (by decide +kernel) (by decide +kernel)

/-- A string that is read as it was written. -/
structure Readable (s : Str) : Prop where
  encodable : Encodable s
  noTrigraph : hasTrigraph s = false

/-- A string and the comma after it. -/
theorem reads_separated {s : Str} (hs : Readable s) {t : String} {ts : List C11.Token}
    (ht : Gives (str t) (punct ',' :: ts)) (hts : NoStrings ts) :
    Reads (cString s ++ str t) (.string (utf8 s) :: punct ',' :: ts.filter (· ≠ .newline)) :=
  reads_cString hs.encodable hs.noTrigraph ht hts

def rowTokens (e : HeaderEntry) : List C11.Token :=
  [punct '\x7b', .string (utf8 e.locale), punct ',', .string (utf8 e.key), punct ',',
    .string (utf8 e.value), punct '\x7d', punct ',']

def rowStartTokens (e : HeaderEntry) : List C11.Token :=
  [punct '\x7b', .string (utf8 e.locale), punct ',', .string (utf8 e.key), punct ',']

theorem reads_rowStart {e : HeaderEntry} (hlocale : Readable e.locale) (hkey : Readable e.key) :
    Reads (rowStart e) (rowStartTokens e) := by
  have hcomma : Gives (str ", ") [punct ','] := gives_str (by decide) (by decide)
  have hbrace : Gives (str "    \x7b") [punct '\x7b'] := gives_str (by decide) (by decide)
  have hnil : NoStrings [] := noStrings_of_all rfl
  exact ((reads_of_gives hbrace (noStrings_of_all rfl)).append
    (reads_separated hlocale hcomma hnil)).append
    (reads_separated hkey hcomma hnil)

theorem reads_row {e : HeaderEntry} (hlocale : Readable e.locale) (hkey : Readable e.key)
    (hvalue : Readable e.value) : Reads (rowText e) (rowTokens e) := by
  have hend : Gives (str "\x7d,\n") [punct '\x7d', punct ',', .newline] :=
    gives_str (by decide) (by decide)
  exact (reads_rowStart hlocale hkey).append
    (reads_cString hvalue.encodable hvalue.noTrigraph hend (noStrings_of_all rfl))

theorem reads_field {s : Str} (hs : Readable s) :
    Reads (fieldText s) [.string (utf8 s), punct ','] := by
  have hblank : Gives (str "    ") [] := gives_str (by decide) (by decide)
  have hend : Gives (str ",\n") [punct ',', .newline] := gives_str (by decide) (by decide)
  exact (reads_of_gives hblank (noStrings_of_all rfl)).append
    (reads_separated hs hend (noStrings_of_all rfl))

def closingTokens (c : I18n.Catalog) (symbol : Str) : List C11.Token :=
  punct '\x7d' :: catalogStart symbol ++
    (.string (utf8 c.id) :: punct ',' :: .string (utf8 c.defaultLocale) :: catalogEnd symbol)

theorem reads_closing {c : I18n.Catalog} {symbol : Str} (h : Name symbol) (hid : Readable c.id)
    (hlocale : Readable c.defaultLocale) :
    Reads (closingText c symbol) (closingTokens c symbol) :=
  (reads_of_gives (gives_catalog h) (noStrings_of_all rfl)).append
    ((reads_field hid).append ((reads_field hlocale).append
      (reads_of_gives (gives_size h) (noStrings_of_all rfl))))

/-! ### Ids, locales and keys -/

/-- The characters of catalog ids, locales and keys. -/
def isPlain (c : CodePoint) : Bool := isWordChar c || c = ch '.' || c = ch '-'

def Plain (s : Str) : Prop := ∀ c ∈ s, isPlain c = true

theorem plain_of_letters {r : Pattern} (hr : r.letters.all isPlain = true) {s : Str}
    (h : r.rmatch s = true) : Plain s :=
  RegularExpression.forall_of_letters (List.all_eq_true.mp hr)
    ((RegularExpression.rmatch_iff_matches' r s).mp h)

theorem plain_id {s : Str} (h : isCatalogId (.str s) = true) : Plain s :=
  plain_of_letters (r := catalogId) (by decide +kernel) (Bool.and_eq_true _ _ ▸ h).2

theorem plain_locale {s : Str} (h : isLocale (.str s) = true) : Plain s :=
  plain_of_letters (r := locale) (by decide +kernel) (Bool.and_eq_true _ _ ▸ h).2

theorem plain_key {s : Str} (h : isMessageKey (.str s) = true) : Plain s :=
  plain_of_letters (r := messageKey) (by decide +kernel) (Bool.and_eq_true _ _ ▸ h).2

/-- Neither escaped nor part of a trigraph nor the end of a comment. -/
def Harmless (t : Str) : Prop := ∀ c ∈ t, c ≠ question ∧ c ≠ backslash ∧ c ≠ ch '*'

theorem Harmless.append {s t : Str} (hs : Harmless s) (ht : Harmless t) : Harmless (s ++ t) :=
  List.forall_mem_append.mpr ⟨hs, ht⟩

theorem Harmless.quiet {t : Str} (h : Harmless t) : Quiet t := fun c hc => ⟨(h c hc).1, (h c hc).2.1⟩

theorem harmless_of_all {t : Str}
    (h : t.all (fun c => c ≠ question && (c ≠ backslash && c ≠ ch '*')) = true) : Harmless t := by
  simpa [Harmless] using h

theorem harmless_plain {s : Str} (h : Plain s) : Harmless s := by
  intro c hc
  have hplain := h c hc
  refine ⟨?_, ?_, ?_⟩ <;>
  · rintro rfl
    exact absurd hplain (by decide)

theorem hasTrigraph_of_quiet {s : Str} (h : Quiet s) : hasTrigraph s = false := by
  match s, h with
  | [], _ => rfl
  | [_], _ => rfl
  | [_, _], _ => rfl
  | a :: b :: c :: s, h =>
    obtain ⟨ha, hs⟩ := List.forall_mem_cons.mp h
    rw [hasTrigraph, trigraph_of_ne ha.1, hasTrigraph_of_quiet hs]
    rfl

theorem readable_of_plain {s : Str} (hs : Encodable s) (h : Plain s) : Readable s :=
  ⟨hs, hasTrigraph_of_quiet (harmless_plain h).quiet⟩

theorem plain_form {c : CodePoint} (h : isPlain c = true) : plainForm c = some [c] := by
  have hascii : c.val < 0x80 := by
    by_contra hascii
    simp only [isPlain, isWordChar, Ascii.isAlnum, Ascii.isAlpha, Ascii.isUpper, Ascii.isLower,
      Ascii.isDigit, Bool.or_eq_true, Bool.and_eq_true, decide_eq_true_eq] at h
    rcases h with ((((h | h) | h) | rfl) | rfl) | rfl
    · omega
    · omega
    · omega
    all_goals exact hascii (by decide)
  have hall : ∀ n < 0x80, isPlain (CodePoint.ofNat n) = true →
      plainForm (CodePoint.ofNat n) = some [CodePoint.ofNat n] := by decide +kernel
  have hc : CodePoint.ofNat c.val = c := Fin.ofNat_val_eq_self c
  have hform := hall c.val hascii
  rw [hc] at hform
  exact hform h

theorem pieces_of_plain {s : Str} (h : Plain s) (t : Str) : pieces t s = flush (t ++ s) := by
  induction s generalizing t with
  | nil => rw [pieces, List.append_nil]
  | cons c s ih =>
    obtain ⟨hc, hs⟩ := List.forall_mem_cons.mp h
    rw [pieces, plain_form hc]
    simp only
    rw [ih hs, List.append_assoc]
    rfl

theorem cString_of_plain {s : Str} (h : Plain s) : cString s = ch '"' :: s ++ [ch '"'] := by
  rw [cString, pieces_of_plain h, List.nil_append, flush]
  split_ifs with hs hne hne
  · rw [hs]
    rfl
  · exact absurd rfl hne
  · cases hne
  · rw [List.intercalate_singleton]

theorem harmless_cString {s : Str} (h : Plain s) : Harmless (cString s) := by
  have hquote : Harmless [ch '"'] := harmless_of_all (by decide)
  rw [cString_of_plain h]
  exact (hquote.append (harmless_plain h)).append hquote

theorem harmless_rowStart {e : HeaderEntry} (hlocale : Plain e.locale) (hkey : Plain e.key) :
    Harmless (rowStart e) := by
  have hcomma : Harmless (str ", ") := harmless_of_all (by decide)
  have hbrace : Harmless (str "    \x7b") := harmless_of_all (by decide)
  exact (hbrace.append ((harmless_cString hlocale).append hcomma)).append
    ((harmless_cString hkey).append hcomma)

theorem Name.harmless {w : Str} (h : Name w) : Harmless w := by
  refine harmless_plain fun c hc => ?_
  rw [isPlain, List.all_eq_true.mp h.chars c hc]
  rfl

theorem harmless_field {s : Str} (h : Plain s) : Harmless (fieldText s) := by
  have hblank : Harmless (str "    ") := harmless_of_all (by decide)
  have hend : Harmless (str ",\n") := harmless_of_all (by decide)
  exact hblank.append ((harmless_cString h).append hend)

theorem closingText_cons (c : I18n.Catalog) (symbol : Str) :
    ∃ t, closingText c symbol ++ endText = ch '\x7d' :: t := ⟨_, rfl⟩

theorem harmless_closing {c : I18n.Catalog} {symbol : Str} (h : Name symbol) (hid : Plain c.id)
    (hlocale : Plain c.defaultLocale) : Harmless (closingText c symbol ++ endText) := by
  have hentries := (name_entries h).harmless
  have hcatalog : Harmless (catalogText symbol) :=
    Harmless.append (harmless_of_all (by decide +kernel))
      (h.harmless.append (harmless_of_all (by decide)))
  have hsize : Harmless (sizeText symbol) := by
    refine (Harmless.append (harmless_of_all (by decide)) (hentries.append ?_)).append
      (hentries.append ?_) |>.append (hentries.append ?_)
    all_goals exact harmless_of_all (by decide)
  have hend : Harmless endText := harmless_of_all (by decide)
  exact (hcatalog.append ((harmless_field hid).append ((harmless_field hlocale).append hsize))).append
    hend

end Msys.CHeader
