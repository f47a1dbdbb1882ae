import MsysSdk.Python.Utf8
import MsysSdk.Runs.Transition

/-! `write_manifest` against itself and other processes. The existence test, the creation of the
temporary file, each write and the replacement are one step each; the existence test and the
replacement are far apart. -/

namespace Msys.AppManifest
open Python Transition

/-- The arguments of a call. The text is `json.dumps(manifest, …) + "\n"`, none where that
raises. -/
structure Job where
  text : Option Str
  force : Bool
deriving DecidableEq

/-- What goes into the file. -/
def Job.payload (job : Job) : Option Bytes := job.text.bind encodeUtf8

inductive Exc
  | appManifestError (text : Str)
  | dumpsError
  | unicodeEncodeError
  | fileNotFoundError
deriving DecidableEq

inductive Pc
  | absent
  | test (job : Job)
  | prepare (job : Job)
  | create (job : Job) (text : Str)
  | write (job : Job) (text : Str)
  | replace (job : Job)
  | unlink (job : Job)
  | returned (job : Job)
  | raised (job : Job) (e : Exc)
deriving DecidableEq

/-- The destination, the temporary files by the call that made them, and where each call is. -/
structure State where
  file : Option Bytes
  temporary : Nat → Option Bytes
  caller : Nat → Pc

def init : State := ⟨none, fun _ => none, fun _ => .absent⟩

def State.setCaller (s : State) (k : Nat) (pc : Pc) : State :=
  { s with caller := Function.update s.caller k pc }

def State.setTemporary (s : State) (k : Nat) (content : Option Bytes) : State :=
  { s with temporary := Function.update s.temporary k content }

def refusal (path : Str) : Exc :=
  .appManifestError (str "refusing to overwrite existing file: " ++ path)

def start (s : State) (k : Nat) (job : Job) : Option State :=
  match s.caller k with
  | .absent => some (s.setCaller k (.test job))
  | _ => none

def existsTest (path : Str) (s : State) (k : Nat) : Option State :=
  match s.caller k with
  | .test job =>
    if s.file.isSome && !job.force then some (s.setCaller k (.raised job (refusal path)))
    else some (s.setCaller k (.prepare job))
  | _ => none

/-- The parent directory and the text. -/
def prepare (s : State) (k : Nat) : Option State :=
  match s.caller k with
  | .prepare job =>
    match job.text with
    | some text => some (s.setCaller k (.create job text))
    | none => some (s.setCaller k (.raised job .dumpsError))
  | _ => none

def createTemporary (s : State) (k : Nat) : Option State :=
  match s.caller k with
  | .create job text => some ((s.setTemporary k (some [])).setCaller k (.write job text))
  | _ => none

/-- Writing, flushing and syncing. The name of the file is known only after that, so that a
failure leaves the file behind. -/
def writeTemporary (s : State) (k : Nat) : Option State :=
  match s.caller k with
  | .write job text =>
    match encodeUtf8 text with
    | some content => some ((s.setTemporary k (some content)).setCaller k (.replace job))
    | none => some (s.setCaller k (.raised job .unicodeEncodeError))
  | _ => none

/-- `os.replace`, which does not mind an existing target. -/
def replaceFile (s : State) (k : Nat) : Option State :=
  match s.caller k with
  | .replace job =>
    match s.temporary k with
    | some content =>
      some { (s.setTemporary k none).setCaller k (.unlink job) with file := some content }
    | none => some (s.setCaller k (.raised job .fileNotFoundError))
  | _ => none

def unlink (s : State) (k : Nat) : Option State :=
  match s.caller k with
  | .unlink job => some ((s.setTemporary k none).setCaller k (.returned job))
  | _ => none

inductive Action
  | start (k : Nat) (job : Job)
  | existsTest (k : Nat)
  | prepare (k : Nat)
  | createTemporary (k : Nat)
  | writeTemporary (k : Nat)
  | replaceFile (k : Nat)
  | unlink (k : Nat)
  /-- another process creates the file -/
  | otherCreates (content : Bytes)

def step (path : Str) (s : State) : Action → Option State
  | .start k job => start s k job
  | .existsTest k => existsTest path s k
  | .prepare k => prepare s k
  | .createTemporary k => createTemporary s k
  | .writeTemporary k => writeTemporary s k
  | .replaceFile k => replaceFile s k
  | .unlink k => unlink s k
  | .otherCreates content => some { s with file := some content }

/-- What a step can do. -/
inductive Step (path : Str) (s : State) : Action → State → Prop
  | start {k job} (pc : s.caller k = .absent) :
    Step path s (.start k job) (s.setCaller k (.test job))
  | refused {k job} (pc : s.caller k = .test job) (hfile : s.file ≠ none)
      (hforce : job.force = false) :
    Step path s (.existsTest k) (s.setCaller k (.raised job (refusal path)))
  | admitted {k job} (pc : s.caller k = .test job) (h : s.file = none ∨ job.force = true) :
    Step path s (.existsTest k) (s.setCaller k (.prepare job))
  | prepared {k job text} (pc : s.caller k = .prepare job) (ht : job.text = some text) :
    Step path s (.prepare k) (s.setCaller k (.create job text))
  | unprepared {k job} (pc : s.caller k = .prepare job) (ht : job.text = none) :
    Step path s (.prepare k) (s.setCaller k (.raised job .dumpsError))
  | created {k job text} (pc : s.caller k = .create job text) :
    Step path s (.createTemporary k) ((s.setTemporary k (some [])).setCaller k (.write job text))
  | written {k job text content} (pc : s.caller k = .write job text)
      (hb : encodeUtf8 text = some content) :
    Step path s (.writeTemporary k) ((s.setTemporary k (some content)).setCaller k (.replace job))
  | unwritten {k job text} (pc : s.caller k = .write job text) (hb : encodeUtf8 text = none) :
    Step path s (.writeTemporary k) (s.setCaller k (.raised job .unicodeEncodeError))
  | replaced {k job content} (pc : s.caller k = .replace job)
      (ht : s.temporary k = some content) :
    Step path s (.replaceFile k)
      { (s.setTemporary k none).setCaller k (.unlink job) with file := some content }
  | lost {k job} (pc : s.caller k = .replace job) (ht : s.temporary k = none) :
    Step path s (.replaceFile k) (s.setCaller k (.raised job .fileNotFoundError))
  | unlinked {k job} (pc : s.caller k = .unlink job) :
    Step path s (.unlink k) ((s.setTemporary k none).setCaller k (.returned job))
  | otherCreates {content} :
    Step path s (.otherCreates content) { s with file := some content }

theorem step_sound {path : Str} {s s' : State} {a : Action} (h : step path s a = some s') :
    Step path s a s' := by
  cases a with
  | start k job =>
    simp only [step, start] at h
    split at h
    next pc => cases h; exact .start pc
    next => cases h
  | existsTest k =>
    simp only [step, existsTest] at h
    split at h
    next job pc =>
      split at h
      next hb =>
        cases h
        rw [Bool.and_eq_true, Bool.not_eq_true'] at hb
        exact .refused pc (Option.isSome_iff_ne_none.mp hb.1) hb.2
      next hb =>
        cases h
        rw [Bool.and_eq_true, Bool.not_eq_true', not_and_or, Bool.not_eq_false] at hb
        exact .admitted pc (hb.imp_left Option.not_isSome_iff_eq_none.mp)
    next => cases h
  | prepare k =>
    simp only [step, prepare] at h
    split at h
    next job pc =>
      split at h
      next text ht => cases h; exact .prepared pc ht
      next ht => cases h; exact .unprepared pc ht
    next => cases h
  | createTemporary k =>
    simp only [step, createTemporary] at h
    split at h
    next job text pc => cases h; exact .created pc
    next => cases h
  | writeTemporary k =>
    simp only [step, writeTemporary] at h
    split at h
    next job text pc =>
      split at h
      next content hb => cases h; exact .written pc hb
      next hb => cases h; exact .unwritten pc hb
    next => cases h
  | replaceFile k =>
    simp only [step, replaceFile] at h
    split at h
    next job pc =>
      split at h
      next content ht => cases h; exact .replaced pc ht
      next ht => cases h; exact .lost pc ht
    next => cases h
  | unlink k =>
    simp only [step, unlink] at h
    split at h
    next job pc => cases h; exact .unlinked pc
    next => cases h
  | otherCreates content =>
    cases h
    exact .otherCreates

end Msys.AppManifest
