import MsysSdk.I18n.CHeaderParsing
import MsysSdk.I18n.CMisreading

/-! What a generated header denotes. -/

namespace Msys.CHeader
open Python C11
open Msys.I18n hiding Token

/-! ### The strings of a catalog -/

variable {p : Printer} {document : Document} {c : I18n.Catalog}

theorem rootIssues_nil {d : Dict} (h : validateCatalog p (.dict d) = .ok []) :
    rootIssues p d = [] := by
  rw [validateCatalog] at h
  split at h
  · simp only at h
    split at h
    · cases h
    · have hnil := Except.ok.inj h
      simp only [List.append_eq_nil_iff] at hnil
      exact hnil.1.1.1.1
  · have hnil := Except.ok.inj h
    simp at hnil

theorem fromMapping_id (h : fromMapping p document = .ok c) : isCatalogId (.str c.id) = true := by
  rw [fromMapping] at h
  split at h
  · cases h
  next d hissues hvalue =>
    have hroot := rootIssues_nil (hvalue ▸ hissues)
    simp only [rootIssues, List.append_eq_nil_iff, check_eq_nil] at hroot
    have hid := hroot.1.1.2
    cases h
    revert hid
    cases Dict.get d (str "id") with
    | str s => exact id
    | _ => exact fun hid => absurd hid Bool.false_ne_true
  · cases h

/-- What the validator says about the strings of the header. -/
structure Wellformed (c : I18n.Catalog) : Prop where
  nonempty : c.entries ≠ []
  id : Plain c.id
  default : Plain c.defaultLocale
  rows : ∀ e ∈ c.entries, Plain e.locale ∧ Plain e.key

theorem mem_entries {e : HeaderEntry} : e ∈ c.entries ↔
    ∃ m ∈ c.messages, ∃ t ∈ m.2, e = ⟨m.1, t.1, t.2⟩ := by
  simp only [I18n.Catalog.entries, List.mem_flatMap, List.mem_map, eq_comm]

theorem fromMapping_wellformed (h : fromMapping p document = .ok c) : Wellformed c := by
  have hvalid := fromMapping_valid h
  obtain ⟨m, hm⟩ := hvalid.default
  have hdefault := hvalid.locales _ hm
  obtain ⟨t, ts, ht⟩ := List.exists_cons_of_ne_nil hdefault.nonempty
  refine ⟨?_, plain_id (fromMapping_id h), plain_locale hdefault.locale, fun e he => ?_⟩
  · apply List.ne_nil_of_mem
    exact mem_entries.mpr ⟨_, hm, t, ht ▸ List.mem_cons_self, rfl⟩
  · obtain ⟨m, hm, t, ht, rfl⟩ := mem_entries.mp he
    have hlocale := hvalid.locales m hm
    exact ⟨plain_locale hlocale.locale, plain_key (hlocale.messages t ht).key⟩

/-! ### Outside of the include guard's lines -/

/-- The tokens between the lines of the include guard. -/
def allowed (symbol : Str) : C11.Token → Bool
  | .punct x => x ≠ ch '#'
  | .word w => w.head? ≠ some (ch 'M') || w = symbol || w = symbol ++ str "_entries"
  | _ => true

def bodyTokens (c : I18n.Catalog) (symbol : Str) : List C11.Token :=
  tableStart symbol ++ (c.entries.flatMap rowTokens ++ closingTokens c symbol)

theorem allowed_names (symbol : Str) :
    allowed symbol (.word symbol) = true ∧ allowed symbol (entriesName symbol) = true := by
  simp [entriesName, allowed]

theorem allowed_table (symbol : Str) : (tableStart symbol).all (allowed symbol) = true := by
  simp only [tableStart, List.all_cons, List.all_nil, (allowed_names symbol).2, Bool.and_true]
  rfl

theorem allowed_closing (c : I18n.Catalog) (symbol : Str) :
    (closingTokens c symbol).all (allowed symbol) = true := by
  simp only [closingTokens, catalogStart, catalogEnd, List.cons_append, List.nil_append,
    List.all_cons, List.all_nil, (allowed_names symbol).1, (allowed_names symbol).2, Bool.and_true]
  rfl

theorem allowed_rows (symbol : Str) (es : List HeaderEntry) :
    (es.flatMap rowTokens).all (allowed symbol) = true := by
  rw [List.all_flatMap]
  exact List.all_eq_true.mpr fun e _ => rfl

theorem allowed_body (c : I18n.Catalog) (symbol : Str) :
    (bodyTokens c symbol).all (allowed symbol) = true := by
  rw [bodyTokens, List.all_append, List.all_append, allowed_table, allowed_rows, allowed_closing]
  rfl

theorem not_allowed_guard (symbol : Str) : allowed symbol (.word (guardName symbol)) = false := by
  have hhead : (guardName symbol).head? = some (ch 'M') := rfl
  have hlong : guardName symbol ≠ symbol := by
    intro heq
    have hlength := congrArg List.length heq
    simp only [guardName, guardPart, List.length_append, List.length_map] at hlength
    have : (str "_H").length = 2 := rfl
    omega
  have hlast : guardName symbol ≠ symbol ++ str "_entries" := by
    intro heq
    have hend := congrArg List.getLast? heq
    rw [guardName, List.getLast?_append_of_ne_nil _ (by decide),
      List.getLast?_append_of_ne_nil _ (by decide)] at hend
    exact absurd hend (by decide)
  simp [allowed, hhead, hlong, hlast]

/-! ### The whole header -/

theorem tokens_append {t : Str} {ts : List C11.Token} (h : Gives t ts) (u : Str) :
    tokens (t ++ u) = (tokens u).map (ts ++ ·) := by
  rw [tokens, tokens, h u, scan_tokens, Lexer.after]
  by_cases hcode : (scan ⟨[], .code⟩ (source u)).mode = .code
  · rw [if_pos hcode, if_pos hcode]
    rfl
  · rw [if_neg hcode, if_neg hcode]
    rfl

theorem tokens_of_gives {t : Str} {ts : List C11.Token} (h : Gives t ts) : tokens t = some ts := by
  have htokens := tokens_append h []
  rw [List.append_nil] at htokens
  rw [htokens]
  exact congrArg some (List.append_nil ts)

theorem exists_allowed {symbol t : Str} {out : List C11.Token} (h : Reads t out)
    (hall : out.all (allowed symbol) = true) : ∃ ts, Gives t ts ∧
      (∀ us, concatenate (ts.filter (· ≠ .newline) ++ us) = out ++ concatenate us) ∧
      punct '#' ∉ ts ∧ .word (guardName symbol) ∉ ts := by
  obtain ⟨ts, hgives, hconcat, hmem⟩ := h.exists_tokens
  have hallowed := List.all_eq_true.mp hall
  refine ⟨ts, hgives, hconcat, fun hts => ?_, fun hts => ?_⟩
  · exact Bool.false_ne_true (hallowed _ (hmem _ hts (by simp [punct]) (by simp [punct])))
  · have hword := hallowed _ (hmem _ hts (by simp) (by simp))
    rw [not_allowed_guard] at hword
    cases hword

theorem takeWhile_body {ts us : List C11.Token} (h : punct '#' ∉ ts) :
    bodyOf (ts ++ us) = ts ++ bodyOf us :=
  List.takeWhile_append_of_pos fun _ hx => decide_eq_true fun heq => h (heq ▸ hx)

theorem dropWhile_body {ts us : List C11.Token} (h : punct '#' ∉ ts) :
    (ts ++ us).dropWhile (· ≠ punct '#') = us.dropWhile (· ≠ punct '#') :=
  List.dropWhile_append_of_pos fun _ hx => decide_eq_true fun heq => h (heq ▸ hx)

/-- The header as text. -/
def headerText (c : I18n.Catalog) (symbol : Str) : Str :=
  openingText (guardName symbol) ++ (tableText symbol ++ (c.entries.flatMap rowText ++
    closingText c symbol) ++ endText)

theorem renderCHeader_ok {symbol : Str} (hsymbol : cIdentifier.rmatch symbol = true)
    (hstrings : ∀ s ∈ c.strings, Encodable s) :
    renderCHeader c symbol = .ok (headerText c symbol) := by
  have hall : (c.strings.all fun s => (encodeUtf8 s).isSome) = true := by
    refine List.all_eq_true.mpr fun s hs => ?_
    rw [encodable_iff.mp (hstrings s hs)]
    rfl
  rw [renderCHeader, hsymbol, hall]
  exact congrArg Except.ok (headerText_eq c symbol)

/-- Between two ends of lines. -/
def between (ts : List C11.Token) : List C11.Token := .newline :: ts ++ [.newline]

theorem mem_between {t : C11.Token} {ts : List C11.Token} (ht : t ≠ .newline) (h : t ∉ ts) :
    t ∉ between ts := by
  simp [between, ht, h]

theorem filter_between (ts : List C11.Token) :
    (between ts).filter (· ≠ .newline) = ts.filter (· ≠ .newline) := by
  simp [between]

theorem readHeader_of_body {symbol : Str} (h : Name symbol) (husable : usable symbol = true)
    {t : Str} {ts : List C11.Token} (ht : Gives t (ts ++ .newline :: endifLine)) (hsharp : punct '#' ∉ ts)
    (hguard : .word (guardName symbol) ∉ ts) :
    readHeader symbol (openingText (guardName symbol) ++ t) =
      readDeclarations symbol (concatenate (ts.filter (· ≠ .newline))) := by
  have htokens := tokens_of_gives ((gives_opening (name_guard h)).append ht)
  have hopening : ∀ us : List C11.Token,
      (([.newline] ++ ifndefLine (guardName symbol)) ++ defineLine (guardName symbol) ++
        (.newline :: includeLine ++ [.newline])) ++ (ts ++ .newline :: us) =
      openingTokens (guardName symbol) ++ (between ts ++ us) := fun us => by
    simp only [openingTokens, between, List.append_assoc, List.cons_append, List.nil_append]
  have hsharp' := mem_between C11.Token.noConfusion hsharp
  have hend : bodyOf endifLine = [] ∧ endifLine.dropWhile (· ≠ punct '#') = endifLine := by decide
  have hbody : bodyOf (between ts ++ endifLine) = between ts := by
    rw [takeWhile_body hsharp', hend.1, List.append_nil]
  have hlast : (between ts).getLast? = some .newline := List.getLast?_concat
  rw [readHeader, if_pos husable, htokens, Option.bind_some, hopening, unguard_opening, hbody,
    dropWhile_body hsharp', hend.2,
    if_pos ⟨rfl, hlast, mem_between C11.Token.noConfusion hguard⟩, Option.bind_some, filter_between]

theorem encodable_fields (hstrings : ∀ s ∈ c.strings, Encodable s) :
    Encodable c.id ∧ Encodable c.defaultLocale ∧
      ∀ e ∈ c.entries, Encodable e.locale ∧ Encodable e.key ∧ Encodable e.value := by
  have hrow : ∀ e ∈ c.entries, ∀ s ∈ [e.locale, e.key, e.value], Encodable s := fun e he s hs =>
    hstrings s (List.mem_append_left _ (List.mem_flatMap.mpr ⟨e, he, hs⟩))
  refine ⟨hstrings _ (by simp [I18n.Catalog.strings]), hstrings _ (by simp [I18n.Catalog.strings]),
    fun e he => ⟨hrow e he _ ?_, hrow e he _ ?_, hrow e he _ ?_⟩⟩ <;> simp

/-- Rows without trigraphs. -/
theorem reads_rows {es : List HeaderEntry} (hplain : ∀ e ∈ es, Plain e.locale ∧ Plain e.key)
    (hencodable : ∀ e ∈ es, Encodable e.locale ∧ Encodable e.key ∧ Encodable e.value)
    (h : ∀ e ∈ es, hasTrigraph e.value = false) :
    Reads (es.flatMap rowText) (es.flatMap rowTokens) := by
  apply Reads.flatMap
  intro e he
  obtain ⟨hlocale, hkey, hvalue⟩ := hencodable e he
  exact reads_row (readable_of_plain hlocale (hplain e he).1)
    (readable_of_plain hkey (hplain e he).2) ⟨hvalue, h e he⟩

section
variable {symbol : Str} (hsymbol : Name symbol) (hc : Wellformed c)
  (hstrings : ∀ s ∈ c.strings, Encodable s)
include hsymbol hc hstrings

/-- Without trigraphs in the messages the header is read as the catalog. -/
theorem readHeader_of_noTrigraph (husable : usable symbol = true)
    (h : ∀ e ∈ c.entries, hasTrigraph e.value = false) :
    readHeader symbol (headerText c symbol) = some (meaning c) := by
  obtain ⟨hid, hdefault, hrows⟩ := encodable_fields hstrings
  have hread : Reads (tableText symbol ++ (c.entries.flatMap rowText ++ closingText c symbol))
      (bodyTokens c symbol) := by
    have hclosing := reads_closing hsymbol (readable_of_plain hid hc.id)
      (readable_of_plain hdefault hc.default)
    exact (reads_table hsymbol).append ((reads_rows hc.rows hrows h).append hclosing)
  obtain ⟨ts, hgives, hconcat, hsharp, hguard⟩ := exists_allowed hread (allowed_body c symbol)
  have hbody := hconcat []
  rw [List.append_nil, concatenate, List.append_nil] at hbody
  rw [headerText, readHeader_of_body hsymbol husable (hgives.append gives_end) hsharp hguard, hbody]
  exact readDeclarations_closing symbol hc.nonempty

end

/-! ### With a trigraph -/

def firstString : List C11.Token → Bytes
  | .string b :: _ => b
  | _ => []

theorem leading_concatenate (ts : List C11.Token) :
    leading ts = firstString (concatenate (ts.filter (· ≠ .newline))) := by
  induction ts with
  | nil => rfl
  | cons t ts ih =>
    cases t with
    | newline => exact ih
    | string b =>
      have hfilter : (C11.Token.string b :: ts).filter (· ≠ .newline) =
          .string b :: ts.filter (· ≠ .newline) := List.filter_cons_of_pos (by simp)
      rw [leading, ih, hfilter, concatenate]
      rcases concatenate (ts.filter (· ≠ .newline)) with _ | ⟨_ | _ | _ | _, _⟩ <;>
        simp [firstString]
    | word w => rfl
    | punct x => rfl

theorem leading_bodyOf (ts : List C11.Token) : leading (bodyOf ts) = leading ts := by
  induction ts with
  | nil => rfl
  | cons t ts ih =>
    by_cases h : t = punct '#'
    · rw [h]
      rfl
    · have hbody : bodyOf (t :: ts) = t :: bodyOf ts :=
        List.takeWhile_cons_of_pos (decide_eq_true h)
      rw [hbody]
      cases t with
      | newline => exact ih
      | string b => exact congrArg (b ++ ·) ih
      | word w => rfl
      | punct x => rfl

/-- The value of the next entry is the string that comes next. -/
theorem readEntry_value {e : HeaderEntry} {ts rest : List C11.Token} {x : I18n.C.Entry}
    (h : readEntry (rowStartTokens e ++ ts) = some (x, rest)) : x.value = firstString ts := by
  match ts with
  | [] | [.string _] | .string _ :: .string _ :: _ | .string _ :: .word _ :: _ |
    .string _ :: .newline :: _ | .word _ :: _ | .punct _ :: _ | .newline :: _ => cases h
  | .string v :: .punct d :: us =>
    have hentry : (if [ch '\x7b', ch ',', ch ',', d] = [ch '\x7b', ch ',', ch ',', ch '\x7d'] then
        some ((⟨utf8 e.locale, utf8 e.key, v⟩ : I18n.C.Entry), us) else none) = some (x, rest) := h
    split_ifs at hentry
    cases hentry
    rfl

theorem readEntries_value {fuel : Nat} {e : HeaderEntry} {ts : List C11.Token}
    {x : I18n.C.Entry} {xs : List I18n.C.Entry} {rest : List C11.Token}
    (h : readEntries fuel (rowStartTokens e ++ ts) = some (x :: xs, rest)) :
    x.value = firstString ts := by
  cases fuel with
  | zero => cases h
  | succ fuel =>
    have hhead : (rowStartTokens e ++ ts).head? ≠ some (punct '\x7d') :=
      fun h => absurd (Option.some.inj h) (by decide)
    rw [readEntries, if_neg hhead] at h
    cases hentry : readEntry (rowStartTokens e ++ ts) with
    | none =>
      rw [hentry] at h
      cases h
    | some r =>
      rw [hentry] at h
      simp only at h
      split_ifs at h
      · obtain ⟨r', -, hr⟩ := Option.map_eq_some_iff.mp h
        cases hr
        exact readEntry_value hentry
      · cases h
        exact readEntry_value hentry

theorem readCatalog_entries {symbol : Str} {es : List I18n.C.Entry} {ts : List C11.Token}
    {header : Header} (h : readCatalog symbol es ts = some header) : header.entries = es := by
  unfold readCatalog at h
  split at h
  · split_ifs at h
    cases h
    rfl
  · cases h

/-- If the declarations are those of the catalog, then the message of each row is the string that
comes first after its key. -/
theorem value_of_readDeclarations {symbol : Str} {before after : List HeaderEntry} {e : HeaderEntry}
    {ts : List C11.Token} (hentries : c.entries = before ++ e :: after)
    (h : readDeclarations symbol (tableStart symbol ++ (before.flatMap rowTokens ++
      (rowStartTokens e ++ ts))) = some (meaning c)) : utf8 e.value = firstString ts := by
  obtain ⟨fuel, -, hread⟩ := readDeclarations_table symbol before (rowStartTokens e ++ ts)
  rw [h] at hread
  obtain ⟨⟨es, rest⟩, hrows, hread⟩ := Option.bind_eq_some_iff.mp hread.symm
  obtain ⟨closing, -, hread⟩ := Option.bind_eq_some_iff.mp hread
  simp only at hread
  split_ifs at hread
  have hall := readCatalog_entries hread
  rw [meaning, hentries] at hall
  simp only [List.map_append, List.map_cons] at hall
  have hes := List.append_cancel_left hall
  rw [← hes] at hrows
  exact readEntries_value hrows

/-- What is read of the text before the first message with a trigraph. -/
theorem exists_firstTrigraph (h : ¬∀ e ∈ c.entries, hasTrigraph e.value = false) :
    ∃ before e after, c.entries = before ++ e :: after ∧
      (∀ x ∈ before, hasTrigraph x.value = false) ∧ hasTrigraph e.value = true := by
  have hfind : (c.entries.find? fun e => hasTrigraph e.value).isSome = true := by
    rw [List.find?_isSome]
    simpa using h
  obtain ⟨e, he⟩ := Option.isSome_iff_exists.mp hfind
  obtain ⟨htrigraph, before, after, hentries, hbefore⟩ := List.find?_eq_some_iff_append.mp he
  exact ⟨before, e, after, hentries, fun x hx => by simpa using hbefore x hx, htrigraph⟩

theorem headerText_split {symbol : Str} {before after : List HeaderEntry} {e : HeaderEntry}
    (hentries : c.entries = before ++ e :: after) :
    headerText c symbol = openingText (guardName symbol) ++
      ((tableText symbol ++ (before.flatMap rowText ++ rowStart e)) ++
        (cString e.value ++ afterMessage after (closingText c symbol ++ endText))) := by
  rw [headerText, hentries, List.flatMap_append, List.flatMap_cons, rowText, afterMessage]
  simp only [List.append_assoc]

section
variable {symbol : Str} (hsymbol : Name symbol) (hc : Wellformed c)
  (hstrings : ∀ s ∈ c.strings, Encodable s)
include hsymbol hc hstrings

/-- The first message with a trigraph is not read as it was written. -/
theorem noTrigraph_of_readHeader (h : readHeader symbol (headerText c symbol) = some (meaning c)) :
    usable symbol = true ∧ ∀ e ∈ c.entries, hasTrigraph e.value = false := by
  rw [readHeader] at h
  split_ifs at h with husable
  refine ⟨husable, ?_⟩
  by_contra htrigraph
  obtain ⟨before, e, after, hentries, hbefore, he⟩ := exists_firstTrigraph htrigraph
  obtain ⟨-, -, hrows⟩ := encodable_fields hstrings
  have hplain := hc.rows
  rw [hentries] at hrows hplain
  obtain ⟨hrows, hrow⟩ := List.forall_mem_append.mp hrows
  obtain ⟨hplain, hplain'⟩ := List.forall_mem_append.mp hplain
  obtain ⟨⟨hencLocale, hencKey, hencValue⟩, hafter⟩ := List.forall_mem_cons.mp hrow
  obtain ⟨⟨hlocale, hkey⟩, hplain'⟩ := List.forall_mem_cons.mp hplain'
  have hread : Reads (tableText symbol ++ (before.flatMap rowText ++ rowStart e))
      (tableStart symbol ++ (before.flatMap rowTokens ++ rowStartTokens e)) := by
    have hstart := reads_rowStart (readable_of_plain hencLocale hlocale)
      (readable_of_plain hencKey hkey)
    exact (reads_table hsymbol).append ((reads_rows hplain hrows hbefore).append hstart)
  have hall : (tableStart symbol ++ (before.flatMap rowTokens ++ rowStartTokens e)).all
      (allowed symbol) = true := by
    rw [List.all_append, List.all_append, allowed_table, allowed_rows]
    rfl
  obtain ⟨t, hclosing⟩ := closingText_cons c symbol
  have hremainder := remainder_afterMessage (harmless_closing hsymbol hc.id hc.default) hclosing
    fun x hx => ⟨hplain' x hx, (hafter x hx).2.2⟩
  obtain ⟨ts, hgives, hconcat, hsharp, -⟩ := exists_allowed hread hall
  rw [headerText_split hentries,
    tokens_append (gives_opening (name_guard hsymbol)), tokens_append hgives] at h
  obtain ⟨body, hbody, hdeclarations⟩ := Option.bind_eq_some_iff.mp h
  obtain ⟨all, htokens, hunguard⟩ := Option.bind_eq_some_iff.mp hbody
  rw [Option.map_map] at htokens
  obtain ⟨rest, hrest, rfl⟩ := Option.map_eq_some_iff.mp htokens
  have hshort := leading_message hremainder hencValue he hrest
  have hopening : ((([.newline] ++ ifndefLine (guardName symbol)) ++ defineLine (guardName symbol) ++
      (.newline :: includeLine ++ [.newline])) ++ (ts ++ rest)) =
      openingTokens (guardName symbol) ++ (([.newline] ++ ts) ++ rest) := by simp [openingTokens]
  have hskip : punct '#' ∉ [.newline] ++ ts := by simpa [punct] using hsharp
  have hbefore := hconcat ((bodyOf rest).filter (· ≠ .newline))
  have hnewline : [C11.Token.newline].filter (· ≠ .newline) = [] := rfl
  rw [Function.comp_apply, hopening, unguard_opening] at hunguard
  split_ifs at hunguard
  cases hunguard
  rw [takeWhile_body hskip, List.filter_append, List.filter_append, hnewline, List.nil_append,
    hbefore, List.append_assoc, List.append_assoc] at hdeclarations
  have hvalue := value_of_readDeclarations hentries hdeclarations
  rw [← leading_concatenate, leading_bodyOf] at hvalue
  rw [hvalue] at hshort
  exact Nat.lt_irrefl _ hshort

theorem readHeader_iff : readHeader symbol (headerText c symbol) = some (meaning c) ↔
    usable symbol = true ∧ ∀ e ∈ c.entries, hasTrigraph e.value = false :=
  ⟨noTrigraph_of_readHeader hsymbol hc hstrings,
    fun h => readHeader_of_noTrigraph hsymbol hc hstrings h.1 h.2⟩

end

/-- A header is the catalog for a C compiler exactly if its names can be declared and no message
contains a trigraph. -/
theorem header_denotes (h : fromMapping p document = .ok c)
    (hstrings : ∀ s ∈ c.strings, Encodable s) {symbol : Str}
    (hsymbol : cIdentifier.rmatch symbol = true) :
    ∃ text, renderCHeader c symbol = .ok text ∧
      (readHeader symbol text = some (meaning c) ↔
        usable symbol = true ∧ ∀ e ∈ c.entries, hasTrigraph e.value = false) :=
  ⟨headerText c symbol, renderCHeader_ok hsymbol hstrings,
    readHeader_iff (name_symbol hsymbol) (fromMapping_wellformed h) hstrings⟩

/-- The test of strings in the form that evaluates. -/
theorem encodable_of_all {ss : List Str}
    (h : (ss.all fun s => s.all fun x => !x.isSurrogate) = true) : ∀ s ∈ ss, Python.Encodable s := by
  simpa [Python.Encodable] using h

/-- A catalog with one message. -/
def prompts (message : Str) : I18n.Catalog where
  id := str "org.msys.prompts"
  defaultLocale := str "en"
  messages := [(str "en", [(str "prompt", message)])]
  description := none

def promptsDocument (message : Str) : Document where
  value := .dict
    [(.str (str "schema"), .str catalogSchema), (.str (str "id"), .str (prompts message).id),
      (.str (str "default_locale"), .str (prompts message).defaultLocale),
      (.str (str "messages"), .dict (embedMessages (prompts message).messages))]
  distinct := rfl

theorem header_denotes_prompt : ∃ text,
    renderCHeader (prompts (str "\xc7a \"va\"??\n")) (str "msys_catalog") = .ok text ∧
      readHeader (str "msys_catalog") text = some (meaning (prompts (str "\xc7a \"va\"??\n"))) := by
  have hok : fromMapping ⟨.ascii, fun _ => [], fun _ => []⟩
      (promptsDocument (str "\xc7a \"va\"??\n")) = .ok (prompts (str "\xc7a \"va\"??\n")) := by
    decide +kernel
  obtain ⟨text, hrender, hread⟩ := @header_denotes _ _ _ hok
    (encodable_of_all (by decide +kernel)) (str "msys_catalog") (by decide +kernel)
  exact ⟨text, hrender, hread.mpr (by decide +kernel)⟩

/-- Of three characters the compiler makes one. -/
theorem trigraph_replaced : ¬∀ (document : Document) (c : I18n.Catalog),
    fromMapping ⟨.ascii, fun _ => [], fun _ => []⟩ document = .ok c →
    (∀ s ∈ c.strings, Python.Encodable s) →
    ∀ text, renderCHeader c (str "msys_catalog") = .ok text →
      readHeader (str "msys_catalog") text = some (meaning c) := by
  intro h
  have hread : (renderCHeader (prompts (str "Track ??=1")) (str "msys_catalog")).toOption.map
      (fun text => (readHeader (str "msys_catalog") text).map fun header =>
        header.entries.map (·.value)) = some (some [bytes "Track #1"]) := by decide +kernel
  obtain ⟨text, htext, hvalues⟩ := Option.map_eq_some_iff.mp hread
  have hrender : renderCHeader (prompts (str "Track ??=1")) (str "msys_catalog") = .ok text := by
    cases hcases : renderCHeader (prompts (str "Track ??=1")) (str "msys_catalog") with
    | ok t =>
      rw [hcases] at htext
      exact congrArg Except.ok (Option.some.inj htext)
    | error e =>
      rw [hcases] at htext
      cases htext
  have hall := h (promptsDocument (str "Track ??=1")) (prompts (str "Track ??=1"))
    (by decide +kernel) (encodable_of_all (by decide +kernel)) text hrender
  rw [hall] at hvalues
  exact absurd (Option.some.inj hvalues) (by decide +kernel)

end Msys.CHeader
