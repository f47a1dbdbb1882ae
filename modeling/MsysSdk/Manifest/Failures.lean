import MsysSdk.Python.Ascii

/-! One call of `write_manifest` in which any operation may fail. The clean-up knows the temporary
file only by a name that is noted behind the last of the operations on its stream. -/

namespace Msys.AppManifest.Failures
open Python

structure Path where
  parent : Str
  name : Str
deriving DecidableEq

/-- What the files hold. -/
abbrev Disk := Path → Option Bytes

/-- What the system answers during a call: the text of the `OSError` that an operation ends with,
if it does. That of `unlink` is another than FileNotFoundError. -/
structure Answers where
  mkdir : Option Str
  create : Option Str
  write : Option Str
  flush : Option Str
  fsync : Option Str
  close : Option Str
  replace : Option Str
  unlink : Option Str
  /-- The random part of the temporary file's name. -/
  random : Str
  /-- What is in the file when the stream fails. -/
  left : Bytes

inductive Raised
  | refused
  | dumps
  | encode
  | os (text : Str)
deriving DecidableEq

structure Outcome where
  disk : Disk
  raised : Option Raised

/-- `NamedTemporaryFile(dir=path.parent, prefix=f".{path.name}.", suffix=".tmp")` -/
def temporaryPath (path : Path) (random : Str) : Path :=
  ⟨path.parent, ch '.' :: (path.name ++ ch '.' :: (random ++ str ".tmp"))⟩

def answer (error : Option Str) : Except Raised Unit :=
  match error with
  | some text => .error (.os text)
  | none => .ok ()

/-- Writing, flushing and syncing. -/
def writeStream (a : Answers) (text : Str) : Except Raised Bytes := do
  let payload ← match encodeUtf8 text with
    | some payload => .ok payload
    | none => .error .encode
  answer a.write
  answer a.flush
  answer a.fsync
  return payload

/-- The `with` statement: the disk behind it, `temporary_name`, and the exception that leaves it. An
error of `close` takes the place of one of the block. -/
def withStream (a : Answers) (temporary : Path) (text : Str) (disk : Disk) :
    Disk × Option Path × Option Raised :=
  match writeStream a text with
  | .error e =>
    (Function.update disk temporary (some a.left), none, (a.close.map .os).orElse fun _ => some e)
  | .ok payload =>
    (Function.update disk temporary (some payload), some temporary, a.close.map .os)

/-- `os.replace`, unless an exception has left the block before. -/
def replaceFile (a : Answers) (path : Path) (temporary : Path) (disk : Disk) :
    Option Raised → Outcome
  | some e => ⟨disk, some e⟩
  | none =>
    match a.replace with
    | some text => ⟨disk, some (.os text)⟩
    | none => ⟨Function.update (Function.update disk path (disk temporary)) temporary none, none⟩

/-- The `finally` clause. A file that is not there any more is passed over. -/
def cleanUp (a : Answers) (temporaryName : Option Path) (o : Outcome) : Outcome :=
  match temporaryName with
  | none => o
  | some temporary =>
    match a.unlink with
    | some text => ⟨o.disk, some (.os text)⟩
    | none => ⟨Function.update o.disk temporary none, o.raised⟩

/-- What comes before the temporary file is there: the parent directory, the text and the
creation. -/
def prepare (a : Answers) (text : Option Str) : Except Raised Str := do
  answer a.mkdir
  let text ← match text with
    | some text => .ok text
    | none => .error .dumps
  answer a.create
  return text

/-- The call; the text is `json.dumps(manifest, …) + "\n"`, none where that raises. -/
def writeManifest (a : Answers) (path : Path) (force : Bool) (text : Option Str) (disk : Disk) :
    Outcome :=
  if (disk path).isSome && !force then ⟨disk, some .refused⟩
  else
    match prepare a text with
    | .error e => ⟨disk, some e⟩
    | .ok text =>
      let temporary := temporaryPath path a.random
      let (disk, temporaryName, raised) := withStream a temporary text disk
      cleanUp a temporaryName (replaceFile a path temporary disk raised)

/-! ### The stream -/

variable {a : Answers} {path : Path} {force : Bool} {text : Str} {disk : Disk}

/-- The call has come as far as its temporary file. -/
structure Creates (a : Answers) (path : Path) (force : Bool) (disk : Disk) : Prop where
  admitted : disk path = none ∨ force = true
  mkdir : a.mkdir = none
  create : a.create = none

/-- The stream takes the text and is flushed and synced, so that its name is noted. -/
structure Recorded (a : Answers) (text : Str) (payload : Bytes) : Prop where
  encodes : encodeUtf8 text = some payload
  write : a.write = none
  flush : a.flush = none
  fsync : a.fsync = none

theorem temporaryPath_ne (path : Path) (random : Str) : temporaryPath path random ≠ path := by
  intro h
  have hlength := congrArg (fun p => p.name.length) h
  simp only [temporaryPath, List.length_cons, List.length_append] at hlength
  omega

theorem writeStream_ok {payload : Bytes} :
    writeStream a text = .ok payload ↔ Recorded a text payload := by
  constructor
  · intro h
    rw [writeStream] at h
    cases hencode : encodeUtf8 text with
    | none =>
      rw [hencode] at h
      cases h
    | some bytes =>
      rw [hencode] at h
      cases hwrite : a.write with
      | some e =>
        rw [hwrite] at h
        cases h
      | none =>
        cases hflush : a.flush with
        | some e =>
          rw [hwrite, hflush] at h
          cases h
        | none =>
          cases hfsync : a.fsync with
          | some e =>
            rw [hwrite, hflush, hfsync] at h
            cases h
          | none =>
            rw [hwrite, hflush, hfsync] at h
            cases h
            exact ⟨hencode, hwrite, hflush, hfsync⟩
  · rintro ⟨hencode, hwrite, hflush, hfsync⟩
    rw [writeStream, hencode, hwrite, hflush, hfsync]
    rfl

/-- What is left of a call once its temporary file is there. -/
theorem writeManifest_created (h : Creates a path force disk) :
    writeManifest a path force (some text) disk =
      match writeStream a text with
      | .error e => ⟨Function.update disk (temporaryPath path a.random) (some a.left),
          (a.close.map .os).orElse fun _ => some e⟩
      | .ok payload => cleanUp a (some (temporaryPath path a.random))
          (replaceFile a path (temporaryPath path a.random)
            (Function.update disk (temporaryPath path a.random) (some payload))
            (a.close.map .os)) := by
  have hadmitted : ((disk path).isSome && !force) = false := by
    rcases h.admitted with hnone | hforce
    · rw [hnone]
      rfl
    · rw [hforce, Bool.not_true, Bool.and_false]
  have hprepare : prepare a (some text) = .ok text := by
    rw [prepare, h.mkdir, h.create]
    rfl
  rw [writeManifest, hadmitted, hprepare]
  simp only [Bool.false_eq_true, if_false, withStream]
  cases writeStream a text with
  | error e =>
    cases a.close <;> rfl
  | ok payload => rfl

/-! ### The replacement -/

/-- Until the replacement the destination is as it was. -/
theorem replaceFile_raised {temporary : Path} {raised : Option Raised}
    (h : (replaceFile a path temporary disk raised).raised ≠ none) :
    (replaceFile a path temporary disk raised).disk = disk := by
  cases raised with
  | some e => rfl
  | none =>
    rw [replaceFile] at h ⊢
    cases hreplace : a.replace with
    | some text => rfl
    | none =>
      rw [hreplace] at h
      exact absurd rfl h

theorem replaceFile_done {temporary : Path} {raised : Option Raised}
    (h : (replaceFile a path temporary disk raised).raised = none) :
    raised = none ∧ a.replace = none ∧ replaceFile a path temporary disk raised =
      ⟨Function.update (Function.update disk path (disk temporary)) temporary none, none⟩ := by
  cases raised with
  | some e => cases h
  | none =>
    rw [replaceFile] at h ⊢
    cases hreplace : a.replace with
    | some text =>
      rw [hreplace] at h
      cases h
    | none => exact ⟨rfl, rfl, rfl⟩

/-- A call that raises has left the destination as it was and removed its temporary file. -/
def LeavesNoTrace (path temporary : Path) (disk : Disk) (o : Outcome) : Prop :=
  o.raised ≠ none → o.disk path = disk path ∧ o.disk temporary = none

theorem not_traceless_of_left {temporary : Path} {o : Outcome} (h : o.raised ≠ none)
    {content : Bytes} (hleft : o.disk temporary = some content) :
    ¬LeavesNoTrace path temporary disk o := by
  intro hnone
  rw [(hnone h).2] at hleft
  cases hleft

variable {temporary : Path} {payload : Bytes}

/-- With the name noted, only the clean-up itself can fail to clean up. -/
theorem cleanUp_traceless (hne : temporary ≠ path) :
    LeavesNoTrace path temporary disk (cleanUp a (some temporary)
        (replaceFile a path temporary (Function.update disk temporary (some payload))
          (a.close.map .os))) ↔
      a.unlink = none ∨ (a.close = none ∧ a.replace = none ∧ disk path = some payload) := by
  have hpath : Function.update disk temporary (some payload) path = disk path :=
    Function.update_of_ne hne.symm _ _
  have htemporary : Function.update disk temporary (some payload) temporary = some payload :=
    Function.update_self ..
  generalize Function.update disk temporary (some payload) = written at hpath htemporary ⊢
  rw [cleanUp]
  cases hunlink : a.unlink with
  | none =>
    refine iff_of_true (fun hraised => ?_) (.inl rfl)
    rw [replaceFile_raised hraised]
    exact ⟨(Function.update_of_ne hne.symm _ _).trans hpath, Function.update_self ..⟩
  | some e =>
    by_cases hraised : (replaceFile a path temporary written (a.close.map .os)).raised = none
    · obtain ⟨hclose, hreplace, hdone⟩ := replaceFile_done hraised
      rw [Option.map_eq_none_iff] at hclose
      have hdestination : Function.update (Function.update written path (written temporary))
          temporary none path = some payload := by
        rw [Function.update_of_ne hne.symm, Function.update_self, htemporary]
      rw [hdone]
      refine ⟨fun h => .inr ⟨hclose, hreplace, ?_⟩, ?_⟩
      · exact (h (Option.some_ne_none _)).1.symm.trans hdestination
      · rintro (hnone | ⟨-, -, hsame⟩)
        · cases hnone
        · exact fun _ => ⟨hdestination.trans hsame.symm, Function.update_self ..⟩
    · have hleft : (replaceFile a path temporary written (a.close.map .os)).disk temporary =
          some payload := by
        rw [replaceFile_raised hraised]
        exact htemporary
      refine iff_of_false (not_traceless_of_left (Option.some_ne_none _) hleft) ?_
      rintro (hnone | ⟨hclose, hreplace, -⟩)
      · cases hnone
      · rw [hclose, Option.map_none, replaceFile, hreplace] at hraised
        exact hraised rfl

/-- A failed call leaves no trace exactly if its stream did not fail, nor the clean-up itself (or
that failed only behind the replacement of a file with the same content). -/
theorem failed_write_traceless (h : Creates a path force disk) :
    LeavesNoTrace path (temporaryPath path a.random) disk
        (writeManifest a path force (some text) disk) ↔
      ∃ payload, Recorded a text payload ∧
        (a.unlink = none ∨ (a.close = none ∧ a.replace = none ∧ disk path = some payload)) := by
  rw [writeManifest_created h]
  cases hstream : writeStream a text with
  | error e =>
    refine iff_of_false ?_ ?_
    · have hleft : Function.update disk (temporaryPath path a.random) (some a.left)
          (temporaryPath path a.random) = some a.left := Function.update_self ..
      refine not_traceless_of_left ?_ hleft
      cases a.close <;> exact Option.some_ne_none _
    · rintro ⟨payload, hrecorded, -⟩
      rw [writeStream_ok.mpr hrecorded] at hstream
      cases hstream
  | ok payload =>
    have hrecorded := writeStream_ok.mp hstream
    rw [cleanUp_traceless (temporaryPath_ne path a.random)]
    refine ⟨fun hclean => ⟨payload, hrecorded, hclean⟩, ?_⟩
    rintro ⟨payload', hrecorded', hclean⟩
    rwa [Option.some.inj (hrecorded.encodes.symm.trans hrecorded'.encodes)]

/-- A system on which nothing fails but the given replacement. -/
def replaceFails (text : Option Str) : Answers :=
  ⟨none, none, none, none, none, none, text, none, str "x1", []⟩

def manifestPath : Path := ⟨str "app", str "manifest.json"⟩

theorem failed_write_traceless_replace :
    LeavesNoTrace manifestPath (temporaryPath manifestPath (str "x1")) (fun _ => none)
      (writeManifest (replaceFails (some (str "EISDIR"))) manifestPath false
        (some (str "\x7b\x7d\n")) fun _ => none) := by
  apply (failed_write_traceless ⟨.inl rfl, rfl, rfl⟩).mpr
  exact ⟨bytes "\x7b\x7d\n", ⟨by decide +kernel, rfl, rfl, rfl⟩, .inl rfl⟩

/-- The text of a manifest with a lone surrogate in it. -/
def surrogateManifest : Str := str "\x7b\n  \"name\": \"" ++ .ofNat 0xD800 :: str "\"\n\x7d\n"

theorem encode_leaves_temporary :
    let o := writeManifest (replaceFails none) manifestPath false (some surrogateManifest)
      fun _ => none
    o.raised = some .encode ∧ o.disk (temporaryPath manifestPath (str "x1")) = some [] ∧
      ¬LeavesNoTrace manifestPath (temporaryPath manifestPath (str "x1")) (fun _ => none) o := by
  intro o
  have hraised : o.raised = some .encode := by decide +kernel
  have hleft : o.disk (temporaryPath manifestPath (str "x1")) = some [] := by decide +kernel
  refine ⟨hraised, hleft, not_traceless_of_left ?_ hleft⟩
  rw [hraised]
  exact Option.some_ne_none _

end Msys.AppManifest.Failures
