import MsysSdk.I18n.Compiled
import MsysSdk.I18n.Package
import MsysSdk.Manifest.Failures

/-! `write_c_header` in which any operation may fail. Unlike `write_manifest` it knows the name of
its temporary file before anything is written. -/

namespace Msys.CHeader
open Python C11
open Msys.I18n hiding Token
open Msys.AppManifest.Failures (Path Disk temporaryPath temporaryPath_ne)

/-- What the system answers during a call: the text of the `OSError` that an operation ends with,
if it does. That of `unlink` is another than FileNotFoundError. -/
structure Answers where
  mkdir : Option Str
  create : Option Str
  opening : Option Str
  write : Option Str
  flush : Option Str
  close : Option Str
  replace : Option Str
  unlink : Option Str
  /-- The random part of the temporary file's name. -/
  random : Str
  /-- What is in the file when the stream fails. -/
  left : Bytes

inductive Raised
  | load (error : FileError)
  | render (error : HeaderError)
  | encode
  | os (text : Str)

structure Outcome where
  disk : Disk
  raised : Option Raised

def answer (error : Option Str) : Except Raised Unit :=
  match error with
  | some text => .error (.os text)
  | none => .ok ()

/-- `render_c_header(Catalog.load(catalog_path), symbol)` -/
def rendered (p : Printer) (py : Interpreter) (process : Process) (catalogPath symbol : Str) :
    Except Raised Str := do
  let c ← (Catalog.load p py process catalogPath).mapError .load
  (renderCHeader c symbol).mapError .render

def writeStream (a : Answers) (text : Str) : Except Raised Bytes := do
  let data ← match encodeUtf8 text with
    | some data => .ok data
    | none => .error .encode
  answer a.write
  answer a.flush
  return data

/-- The `with` statement. An error of `close` takes the place of one of the block. -/
def withStream (a : Answers) (temporary : Path) (text : Str) (disk : Disk) : Outcome :=
  match a.opening with
  | some error => ⟨disk, some (.os error)⟩
  | none =>
    match writeStream a text with
    | .error e =>
      ⟨Function.update disk temporary (some a.left), (a.close.map .os).orElse fun _ => some e⟩
    | .ok data => ⟨Function.update disk temporary (some data), a.close.map .os⟩

/-- `temporary.replace(output)`, unless an exception has left the block before. -/
def replaceOutput (a : Answers) (output temporary : Path) (o : Outcome) : Outcome :=
  match o.raised, a.replace with
  | some _, _ => o
  | none, some error => ⟨o.disk, some (.os error)⟩
  | none, none =>
    ⟨Function.update (Function.update o.disk output (o.disk temporary)) temporary none, none⟩

/-- `temporary.unlink(missing_ok=True)` -/
def cleanUp (a : Answers) (temporary : Path) (o : Outcome) : Outcome :=
  match a.unlink with
  | some error => ⟨o.disk, some (.os error)⟩
  | none => ⟨Function.update o.disk temporary none, o.raised⟩

/-- What comes before the temporary file is there. -/
def prepare (a : Answers) (text : Except Raised Str) : Except Raised Str := do
  let text ← text
  answer a.mkdir
  answer a.create
  return text

/-- The call with the result of the rendering; `mkstemp` leaves an empty file. -/
def writeRendered (a : Answers) (text : Except Raised Str) (output : Path) (disk : Disk) :
    Outcome :=
  match prepare a text with
  | .error e => ⟨disk, some e⟩
  | .ok text =>
    let temporary := temporaryPath output a.random
    cleanUp a temporary (replaceOutput a output temporary
      (withStream a temporary text (Function.update disk temporary (some []))))

/-- `write_c_header` -/
def writeCHeader (p : Printer) (py : Interpreter) (process : Process) (a : Answers)
    (catalogPath : Str) (output : Path) (symbol : Str) (disk : Disk) : Outcome :=
  writeRendered a (rendered p py process catalogPath symbol) output disk

/-! ### The text is ASCII -/

def AsciiText (s : Str) : Prop := ∀ c ∈ s, c.val < 0x80

/-- The test in the form that evaluates. -/
theorem asciiText_of_all {s : Str} (h : s.all (fun c => c.val < 0x80) = true) : AsciiText s := by
  simpa [AsciiText] using h

theorem AsciiText.append {s t : Str} (hs : AsciiText s) (ht : AsciiText t) : AsciiText (s ++ t) :=
  List.forall_mem_append.mpr ⟨hs, ht⟩

theorem ascii_intercalate {sep : Str} {lines : List Str} (hsep : AsciiText sep)
    (h : ∀ l ∈ lines, AsciiText l) : AsciiText (sep.intercalate lines) := by
  cases lines with
  | nil => exact List.forall_mem_nil _
  | cons l ls =>
    obtain ⟨hl, hls⟩ := List.forall_mem_cons.mp h
    rw [Joined.intercalate_cons]
    refine hl.append fun c hc => ?_
    obtain ⟨m, hm, hc⟩ := List.mem_flatMap.mp hc
    exact hsep.append (hls m hm) c hc

theorem ascii_name {w : Str} (h : Name w) : AsciiText w := by
  intro c hc
  have hword := List.all_eq_true.mp h.chars c hc
  by_contra hhigh
  simp only [isWordChar, Ascii.isAlnum, Ascii.isAlpha, Ascii.isUpper, Ascii.isLower, Ascii.isDigit,
    Bool.or_eq_true, Bool.and_eq_true, decide_eq_true_eq] at hword
  rcases hword with ((hword | hword) | hword) | rfl
  · omega
  · omega
  · omega
  · exact hhigh (by decide)

theorem ascii_hexDigits (width n : Nat) : AsciiText (hexDigits width n) := by
  induction width generalizing n with
  | zero => exact List.forall_mem_nil _
  | succ width ih =>
    have hdigit : ∀ d < 16, (hexDigit d).val < 0x80 := by decide
    exact (ih _).append (List.forall_mem_singleton.mpr (hdigit _ (Nat.mod_lt _ (by decide))))

theorem ascii_plainForm {c : CodePoint} {form : Str} (h : plainForm c = some form) :
    AsciiText form := by
  rw [plainForm] at h
  split_ifs at h with hprintable hquote
  · obtain rfl := Option.some.inj h
    exact List.forall_mem_cons.mpr ⟨by decide, List.forall_mem_singleton.mpr (by omega)⟩
  · obtain rfl := Option.some.inj h
    exact List.forall_mem_singleton.mpr (by omega)
  all_goals
    obtain rfl := Option.some.inj h
    exact asciiText_of_all (by decide +kernel)

theorem ascii_flush {s : Str} (h : AsciiText s) : ∀ piece ∈ flush s, AsciiText piece := by
  rw [flush]
  split_ifs
  · exact List.forall_mem_nil _
  · refine List.forall_mem_singleton.mpr (AsciiText.append ?_ ?_)
    · exact List.forall_mem_cons.mpr ⟨by decide, h⟩
    · exact List.forall_mem_singleton.mpr (by decide)

theorem ascii_hexPiece (b : UInt8) : AsciiText (hexPiece b) := by
  have hend : AsciiText [ch '"'] := List.forall_mem_singleton.mpr (by decide)
  refine List.forall_mem_cons.mpr ⟨by decide, List.forall_mem_cons.mpr ⟨by decide,
    List.forall_mem_cons.mpr ⟨by decide, (ascii_hexDigits 2 _).append hend⟩⟩⟩

theorem ascii_pieces {s : Str} (h : AsciiText s) (t : Str) :
    ∀ piece ∈ pieces s t, AsciiText piece := by
  induction t generalizing s with
  | nil => exact ascii_flush h
  | cons c t ih =>
    rw [pieces]
    cases hform : plainForm c with
    | some form => exact ih (h.append (ascii_plainForm hform))
    | none =>
      have hhex : ∀ piece ∈ (utf8 [c]).map hexPiece, AsciiText piece :=
        List.forall_mem_map.mpr fun b _ => ascii_hexPiece b
      exact List.forall_mem_append.mpr ⟨List.forall_mem_append.mpr ⟨ascii_flush h, hhex⟩,
        ih (List.forall_mem_nil _)⟩

theorem ascii_cString (value : Str) : AsciiText (cString value) := by
  have hquotes : AsciiText (str "\"\"") := asciiText_of_all (by decide +kernel)
  have hspace : AsciiText (str " ") := asciiText_of_all (by decide +kernel)
  rw [cString]
  split_ifs
  · exact hquotes
  · exact ascii_intercalate hspace (ascii_pieces (List.forall_mem_nil _) value)

theorem ascii_entryLine (e : HeaderEntry) : AsciiText (entryLine e) := by
  have hopen : AsciiText (str "    \x7b") := asciiText_of_all (by decide +kernel)
  have hcomma : AsciiText (str ", ") := asciiText_of_all (by decide +kernel)
  have hclose : AsciiText (str "\x7d,") := asciiText_of_all (by decide +kernel)
  exact (((((hopen.append (ascii_cString _)).append hcomma).append (ascii_cString _)).append
    hcomma).append (ascii_cString _)).append hclose

section
variable {symbol : Str} (h : Name symbol)
include h

theorem ascii_openingLines : ∀ l ∈ openingLines symbol, AsciiText l := by
  have hguard := ascii_name (name_guard h)
  have hcomment : AsciiText
      (str "/* Generated from msys.i18n.catalog.v1; edit the JSON source. */") :=
    asciiText_of_all (by decide +kernel)
  have hifndef : AsciiText (str "#ifndef ") := asciiText_of_all (by decide +kernel)
  have hdefine : AsciiText (str "#define ") := asciiText_of_all (by decide +kernel)
  have hinclude : AsciiText (str "#include <msys/i18n.h>") := asciiText_of_all (by decide +kernel)
  have htable : AsciiText (str "static const msys_i18n_entry ") :=
    asciiText_of_all (by decide +kernel)
  have hentries : AsciiText (str "_entries[] = \x7b") := asciiText_of_all (by decide +kernel)
  have hempty : AsciiText [] := List.forall_mem_nil _
  simp only [openingLines, List.forall_mem_cons]
  exact ⟨hcomment, hifndef.append hguard, hdefine.append hguard, hempty, hinclude, hempty,
    (htable.append (ascii_name h)).append hentries, List.forall_mem_nil _⟩

theorem ascii_closingLines (c : I18n.Catalog) : ∀ l ∈ closingLines c symbol, AsciiText l := by
  have hsymbol := ascii_name h
  have hend : AsciiText (str "\x7d;") := asciiText_of_all (by decide +kernel)
  have hcatalog : AsciiText (str "static const msys_i18n_catalog ") :=
    asciiText_of_all (by decide +kernel)
  have hopen : AsciiText (str " = \x7b") := asciiText_of_all (by decide +kernel)
  have hindent : AsciiText (str "    ") := asciiText_of_all (by decide +kernel)
  have hcomma : AsciiText (str ",") := asciiText_of_all (by decide +kernel)
  have hentries : AsciiText (str "_entries,") := asciiText_of_all (by decide +kernel)
  have hsizeof : AsciiText (str "    sizeof(") := asciiText_of_all (by decide +kernel)
  have hover : AsciiText (str "_entries) / sizeof(") := asciiText_of_all (by decide +kernel)
  have hfirst : AsciiText (str "_entries[0])") := asciiText_of_all (by decide +kernel)
  have hendif : AsciiText (str "#endif") := asciiText_of_all (by decide +kernel)
  have hempty : AsciiText [] := List.forall_mem_nil _
  simp only [closingLines, List.forall_mem_cons]
  exact ⟨hend, hempty, (hcatalog.append hsymbol).append hopen,
    (hindent.append (ascii_cString _)).append hcomma,
    (hindent.append (ascii_cString _)).append hcomma, (hindent.append hsymbol).append hentries,
    (((hsizeof.append hsymbol).append hover).append hsymbol).append hfirst, hend, hempty, hendif,
    hempty, List.forall_mem_nil _⟩

end

theorem ascii_rendered {c : I18n.Catalog} {symbol text : Str}
    (h : renderCHeader c symbol = .ok text) : AsciiText text := by
  have hname := name_symbol (text_of_renderCHeader h).1
  have hnewline : AsciiText (str "\n") := asciiText_of_all (by decide +kernel)
  rw [renderCHeader] at h
  split_ifs at h
  rw [← Except.ok.inj h]
  refine ascii_intercalate hnewline ?_
  simp only [List.forall_mem_append, List.forall_mem_map]
  exact ⟨⟨ascii_openingLines hname, fun e _ => ascii_entryLine e⟩, ascii_closingLines hname c⟩

/-! ### The call -/

/-- The stream and the replacement do not fail. -/
structure Answers.Finishes (a : Answers) : Prop where
  opening : a.opening = none
  write : a.write = none
  flush : a.flush = none
  close : a.close = none
  replace : a.replace = none

/-- Every operation up to the replacement succeeds. -/
structure Answers.Replaces (a : Answers) : Prop extends a.Finishes where
  mkdir : a.mkdir = none
  create : a.create = none

section
variable {a : Answers} {output temporary path : Path} {text : Str} {data : Bytes} {disk : Disk}

theorem writeStream_ok (htext : encodeUtf8 text = some data) (hwrite : a.write = none)
    (hflush : a.flush = none) : writeStream a text = .ok data := by
  rw [writeStream, htext, hwrite, hflush]
  rfl

theorem of_writeStream (h : writeStream a text = .ok data) : a.write = none ∧ a.flush = none := by
  rw [writeStream] at h
  cases hencode : encodeUtf8 text with
  | none =>
    rw [hencode] at h
    cases h
  | some bytes =>
    cases hwrite : a.write with
    | some e =>
      rw [hencode, hwrite] at h
      cases h
    | none =>
      cases hflush : a.flush with
      | some e =>
        rw [hencode, hwrite, hflush] at h
        cases h
      | none => exact ⟨rfl, rfl⟩

/-- Only the temporary file is written. -/
theorem withStream_frame (hpath : path ≠ temporary) :
    (withStream a temporary text disk).disk path = disk path := by
  rw [withStream]
  cases a.opening with
  | some e => rfl
  | none =>
    cases writeStream a text with
    | error e => exact Function.update_of_ne hpath _ _
    | ok data => exact Function.update_of_ne hpath _ _

theorem withStream_done (h : (withStream a temporary text disk).raised = none) :
    a.opening = none ∧ a.write = none ∧ a.flush = none ∧ a.close = none := by
  rw [withStream] at h
  cases hopening : a.opening with
  | some e =>
    rw [hopening] at h
    cases h
  | none =>
    rw [hopening] at h
    cases hstream : writeStream a text with
    | error e =>
      rw [hstream] at h
      cases hclose : a.close <;> rw [hclose] at h <;> cases h
    | ok data =>
      rw [hstream] at h
      obtain ⟨hwrite, hflush⟩ := of_writeStream hstream
      exact ⟨rfl, hwrite, hflush, Option.map_eq_none_iff.mp h⟩

/-- The attempt to replace the output either fails and changes nothing, or it moves the temporary
file there. -/
theorem replaceOutput_cases (o : Outcome) :
    ((replaceOutput a output temporary o).raised ≠ none ∧
      (replaceOutput a output temporary o).disk = o.disk ∧ ¬(o.raised = none ∧ a.replace = none)) ∨
    (o.raised = none ∧ a.replace = none ∧ replaceOutput a output temporary o =
      ⟨Function.update (Function.update o.disk output (o.disk temporary)) temporary none,
        none⟩) := by
  rw [replaceOutput]
  cases hraised : o.raised with
  | some e => exact .inl ⟨by rw [hraised]; exact Option.some_ne_none e, rfl, by simp⟩
  | none =>
    cases hreplace : a.replace with
    | some e => exact .inl ⟨Option.some_ne_none _, rfl, by simp⟩
    | none => exact .inr ⟨rfl, rfl, rfl⟩

theorem cleanUp_frame {o : Outcome} (hpath : path ≠ temporary) :
    (cleanUp a temporary o).disk path = o.disk path := by
  rw [cleanUp]
  cases a.unlink with
  | some e => rfl
  | none => exact Function.update_of_ne hpath _ _

theorem cleanUp_raised {o : Outcome} :
    (cleanUp a temporary o).raised = none ↔ a.unlink = none ∧ o.raised = none := by
  rw [cleanUp]
  cases a.unlink with
  | some e => simp
  | none => simp

theorem cleanUp_removes {o : Outcome} (h : a.unlink = none) :
    (cleanUp a temporary o).disk temporary = none := by
  rw [cleanUp, h]
  exact Function.update_self ..

/-- What the `try` block makes of a text. -/
theorem attempt_cases (htext : encodeUtf8 text = some data) (hne : temporary ≠ output)
    {o : Outcome} (ho : o = replaceOutput a output temporary (withStream a temporary text disk)) :
    (∀ path, path ≠ output → path ≠ temporary → o.disk path = disk path) ∧
    ((o.raised ≠ none ∧ o.disk output = disk output ∧ ¬a.Finishes) ∨
      (o.raised = none ∧ o.disk output = some data ∧ a.Finishes)) := by
  subst ho
  rcases replaceOutput_cases (withStream a temporary text disk) with
    ⟨hraised, hdisk, hnot⟩ | ⟨hstream, hreplace, hdone⟩
  · rw [hdisk]
    refine ⟨fun path _ hpath => withStream_frame hpath,
      .inl ⟨hraised, withStream_frame hne.symm, fun h => hnot ⟨?_, h.replace⟩⟩⟩
    rw [withStream, h.opening]
    dsimp only
    rw [writeStream_ok htext h.write h.flush]
    exact congrArg (Option.map Raised.os) h.close
  · obtain ⟨hopening, hwrite, hflush, hclose⟩ := withStream_done hstream
    have hwritten : (withStream a temporary text disk).disk temporary = some data := by
      rw [withStream, hopening]
      dsimp only
      rw [writeStream_ok htext hwrite hflush]
      exact Function.update_self ..
    rw [hdone]
    refine ⟨fun path houtput hpath => ?_,
      .inr ⟨rfl, ?_, ⟨hopening, hwrite, hflush, hclose, hreplace⟩⟩⟩
    · dsimp only
      rw [Function.update_of_ne hpath, Function.update_of_ne houtput, withStream_frame hpath]
    · dsimp only
      rw [Function.update_of_ne hne.symm, Function.update_self, hwritten]

theorem prepare_cases (a : Answers) (text : Str) :
    (∃ e, prepare a (.ok text) = .error e ∧ ¬(a.mkdir = none ∧ a.create = none)) ∨
      (prepare a (.ok text) = .ok text ∧ a.mkdir = none ∧ a.create = none) := by
  cases hmkdir : a.mkdir with
  | some e => exact .inl ⟨.os e, by rw [prepare, hmkdir]; rfl, by simp⟩
  | none =>
    cases hcreate : a.create with
    | some e => exact .inl ⟨.os e, by rw [prepare, hmkdir, hcreate]; rfl, by simp⟩
    | none => exact .inr ⟨by rw [prepare, hmkdir, hcreate]; rfl, rfl, rfl⟩

/-- The output is there exactly if no operation up to the replacement fails; nothing else is touched
but the temporary file, and that is gone unless `unlink` fails. -/
theorem writeRendered_cases (htext : encodeUtf8 text = some data)
    (hfresh : disk (temporaryPath output a.random) = none) {o : Outcome}
    (ho : o = writeRendered a (.ok text) output disk) :
    (∀ path, path ≠ output → path ≠ temporaryPath output a.random → o.disk path = disk path) ∧
    (a.unlink = none → o.disk (temporaryPath output a.random) = none) ∧
    (o.raised = none ↔ a.unlink = none ∧ a.Replaces) ∧
    (¬a.Replaces → o.disk output = disk output) ∧ (a.Replaces → o.disk output = some data) := by
  subst ho
  have hne := temporaryPath_ne output a.random
  rw [writeRendered]
  rcases prepare_cases a text with ⟨e, hprepare, hnot⟩ | ⟨hprepare, hmkdir, hcreate⟩
  · rw [hprepare]
    refine ⟨fun _ _ _ => rfl, fun _ => hfresh, ?_, fun _ => rfl, ?_⟩
    · exact iff_of_false (Option.some_ne_none e) fun h => hnot ⟨h.2.mkdir, h.2.create⟩
    · exact fun h => absurd ⟨h.mkdir, h.create⟩ hnot
  · have hcreated : ∀ path, path ≠ temporaryPath output a.random →
        Function.update disk (temporaryPath output a.random) (some []) path = disk path :=
      fun path hpath => Function.update_of_ne hpath _ _
    rw [hprepare]
    dsimp only
    generalize ho : replaceOutput a output (temporaryPath output a.random) _ = o
    obtain ⟨hframe, hattempt⟩ := attempt_cases htext hne ho.symm
    rw [cleanUp_raised, cleanUp_frame hne.symm]
    refine ⟨fun path houtput hpath => ?_, cleanUp_removes, ?_⟩
    · rw [cleanUp_frame hpath, hframe path houtput hpath, hcreated path hpath]
    rcases hattempt with ⟨hraised, houtput, hnot⟩ | ⟨hraised, houtput, hfinishes⟩
    · have hfails : ¬a.Replaces := fun h => hnot h.toFinishes
      refine ⟨?_, fun _ => houtput.trans (hcreated output hne.symm), fun h => absurd h hfails⟩
      exact iff_of_false (fun h => hraised h.2) fun h => hfails h.2
    · have hreplaces : a.Replaces := ⟨hfinishes, hmkdir, hcreate⟩
      refine ⟨?_, fun h => absurd hreplaces h, fun _ => houtput⟩
      exact and_congr_right fun _ => iff_of_true hraised hreplaces

end

/-! ### From the catalog file to the header file -/

section
variable {p : Printer} {py : Interpreter} {process : Process} {catalogPath symbol text : Str}
  {c : I18n.Catalog}

theorem ok_of_mapError {ε ε₁ α : Type} {f : ε → ε₁} {x : Except ε α} {r : α}
    (h : x.mapError f = .ok r) : x = .ok r := by
  cases x with
  | error e => cases h
  | ok r' => exact congrArg Except.ok (Except.ok.inj h)

theorem rendered_of_load (h : Catalog.load p py process catalogPath = .ok c) :
    rendered p py process catalogPath symbol = (renderCHeader c symbol).mapError .render := by
  rw [rendered, h]
  rfl

theorem rendered_ok : rendered p py process catalogPath symbol = .ok text ↔
    ∃ c, Catalog.load p py process catalogPath = .ok c ∧ renderCHeader c symbol = .ok text := by
  constructor
  · intro h
    cases hload : Catalog.load p py process catalogPath with
    | error e =>
      rw [rendered, hload] at h
      cases h
    | ok c =>
      rw [rendered_of_load hload] at h
      exact ⟨c, rfl, ok_of_mapError h⟩
  · rintro ⟨c, hload, hrender⟩
    rw [rendered_of_load hload, hrender]
    rfl

theorem fromMapping_of_load (h : Catalog.load p py process catalogPath = .ok c) :
    ∃ document, fromMapping p document = .ok c := by
  rw [load_eq] at h
  cases hjson : loadJson p py process catalogPath with
  | error e =>
    rw [hjson] at h
    cases h
  | ok document =>
    rw [hjson] at h
    exact ⟨document, ok_of_mapError h⟩

/-- The catalog is accepted, its header can be rendered, and no operation up to the replacement
fails. -/
def Delivers (p : Printer) (py : Interpreter) (process : Process) (a : Answers)
    (catalogPath symbol : Str) (c : I18n.Catalog) (text : Str) : Prop :=
  Catalog.load p py process catalogPath = .ok c ∧ renderCHeader c symbol = .ok text ∧ a.Replaces

/-- From the catalog's file to the header's: the call returns exactly if the header is delivered and
its clean-up succeeds. What is delivered is the whole header in ASCII, which a C compiler reads as
the catalog exactly if its names are free and no message has a trigraph; else the output is as it
was. No other file is touched, and no temporary file is left unless it cannot be removed. -/
theorem header_file {a : Answers} {output : Path} {disk : Disk}
    (hfresh : disk (temporaryPath output a.random) = none) :
    let o := writeCHeader p py process a catalogPath output symbol disk
    (∀ path, path ≠ output → path ≠ temporaryPath output a.random → o.disk path = disk path) ∧
    (a.unlink = none → o.disk (temporaryPath output a.random) = none) ∧
    (o.raised = none ↔
      a.unlink = none ∧ ∃ c text, Delivers p py process a catalogPath symbol c text) ∧
    ((∀ c text, ¬Delivers p py process a catalogPath symbol c text) →
      o.disk output = disk output) ∧
    ∀ c text, Delivers p py process a catalogPath symbol c text →
      o.disk output = some (utf8 text) ∧ decodeUtf8 (utf8 text) = some text ∧ AsciiText text ∧
        (readHeader symbol text = some (meaning c) ↔
          usable symbol = true ∧ ∀ e ∈ c.entries, hasTrigraph e.value = false) := by
  intro o
  cases hrendered : rendered p py process catalogPath symbol with
  | error e =>
    have ho : o = ⟨disk, some e⟩ := by
      show writeRendered a (rendered p py process catalogPath symbol) output disk = _
      rw [hrendered]
      rfl
    have hnone : ∀ c text, ¬Delivers p py process a catalogPath symbol c text := by
      rintro c text ⟨hload, hrender, -⟩
      rw [rendered_ok.mpr ⟨c, hload, hrender⟩] at hrendered
      cases hrendered
    rw [ho]
    refine ⟨fun _ _ _ => rfl, fun _ => hfresh, ?_, fun _ => rfl, ?_⟩
    · exact iff_of_false (Option.some_ne_none e) fun ⟨_, c, text, h⟩ => hnone c text h
    · exact fun c text h => absurd h (hnone c text)
  | ok text =>
    obtain ⟨c, hload, hrender⟩ := rendered_ok.mp hrendered
    have hencode := encodable_iff.mp (encodable_of_ascii (ascii_rendered hrender))
    have ho : o = writeRendered a (.ok text) output disk := by
      show writeRendered a (rendered p py process catalogPath symbol) output disk = _
      rw [hrendered]
    have hdelivers : (∃ c text, Delivers p py process a catalogPath symbol c text) ↔ a.Replaces :=
      ⟨fun ⟨_, _, h⟩ => h.2.2, fun h => ⟨c, text, hload, hrender, h⟩⟩
    obtain ⟨hframe, htemporary, hraised, hkept, hreplaced⟩ :=
      writeRendered_cases hencode hfresh ho
    refine ⟨hframe, htemporary, hraised.trans (and_congr_right fun _ => hdelivers.symm), ?_, ?_⟩
    · exact fun hnone => hkept fun h => hnone c text ⟨hload, hrender, h⟩
    · rintro c' text' ⟨hload', hrender', hreplaces⟩
      obtain rfl : c = c' := Except.ok.inj (hload.symm.trans hload')
      obtain rfl : text = text' := Except.ok.inj (hrender.symm.trans hrender')
      obtain ⟨document, hdocument⟩ := fromMapping_of_load hload
      have hascii := ascii_rendered hrender
      obtain ⟨hsymbol, hstrings, rfl⟩ := text_of_renderCHeader hrender
      exact ⟨hreplaced hreplaces, decode_of_encode hencode, hascii,
        readHeader_iff (name_symbol hsymbol) (fromMapping_wellformed hdocument) hstrings⟩

end

/-- A catalog of one message. -/
def greetingFile : Process where
  read _ := .ok (bytes "\x7b\"schema\": \"msys.i18n.catalog.v1\", \"id\": \"org.example\"," ++
    bytes " \"default_locale\": \"en\"," ++
    bytes " \"messages\": \x7b\"en\": \x7b\"greet\": \"Hello\"\x7d\x7d\x7d")
  pathText := id
  environ := []

def greetingCatalog : I18n.Catalog :=
  ⟨str "org.example", str "en", [(str "en", [(str "greet", str "Hello")])], none⟩

/-- A system on which nothing fails but the given replacement. -/
def onlyReplaceFails (error : Option Str) : Answers :=
  ⟨none, none, none, none, none, none, error, none, str "x1", []⟩

def headerPath : Path := ⟨str "build", str "catalog.h"⟩

theorem header_file_greeting :
    (∃ text, (writeCHeader asciiPrinter plain greetingFile (onlyReplaceFails none) (str "c.json")
        headerPath (str "msys_catalog") fun _ => none).disk headerPath = some (utf8 text) ∧
      AsciiText text ∧ readHeader (str "msys_catalog") text = some (meaning greetingCatalog)) ∧
    (writeCHeader asciiPrinter plain greetingFile (onlyReplaceFails (some (str "EACCES")))
      (str "c.json") headerPath (str "msys_catalog") fun _ => none).disk headerPath = none := by
  have hload : Catalog.load asciiPrinter plain greetingFile (str "c.json") =
      .ok greetingCatalog := by
    decide +kernel
  have hrender : renderCHeader greetingCatalog (str "msys_catalog") =
      .ok (headerText greetingCatalog (str "msys_catalog")) :=
    renderCHeader_ok (by decide +kernel) (encodable_of_all (by decide +kernel))
  constructor
  · obtain ⟨-, -, -, -, hdelivers⟩ := @header_file asciiPrinter plain greetingFile (str "c.json")
      (str "msys_catalog") (onlyReplaceFails none) headerPath (fun _ => none) rfl
    obtain ⟨hdisk, -, hascii, hread⟩ :=
      hdelivers _ _ ⟨hload, hrender, ⟨⟨rfl, rfl, rfl, rfl, rfl⟩, rfl, rfl⟩⟩
    exact ⟨_, hdisk, hascii, hread.mpr (by decide +kernel)⟩
  · obtain ⟨-, -, -, hkept, -⟩ := @header_file asciiPrinter plain greetingFile (str "c.json")
      (str "msys_catalog") (onlyReplaceFails (some (str "EACCES"))) headerPath (fun _ => none) rfl
    refine hkept fun c text h => ?_
    have hreplace : (onlyReplaceFails (some (str "EACCES"))).replace = none := h.2.2.replace
    cases hreplace

end Msys.CHeader
