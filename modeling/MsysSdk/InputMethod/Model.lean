import MsysSdk.Python.Text
import MsysSdk.Runs.Transition

/-! `TkInputMethodBinding`: callers of `show`, `hide` and `_queue`, the workers that they start,
and `close` take turns on the shared state. A block under `_lock` is one step, and so are the
start and the end of a `role_call`. -/

namespace Msys.InputMethod
open Python

structure Request where
  visible : Bool
  mode : Str
deriving DecidableEq

inductive Exc
  | valueError (text : Str)
  | typeError (text : Str)
deriving DecidableEq

structure Config where
  unicode : UnicodeData
  showTimeout : Rat
  hideTimeout : Rat

/-- `INPUT_METHOD_MODES`. -/
def inputMethodModes : List Str := [str "en", str "zh", str "numeric", str "symbols"]

/-- The mode that `show` and `bind` select. -/
def selectMode (cfg : Config) (mode : Str) : Except Exc Str :=
  let selected := cfg.unicode.lower (strip mode)
  if inputMethodModes.contains selected then .ok selected
  else .error (.valueError (str "mode must be en, zh, numeric, or symbols"))

/-- The arguments of one `role_call`. -/
structure RoleCall where
  target : Str
  method : Str
  payload : Dict
  timeout : Rat
deriving DecidableEq

def Request.roleCall (cfg : Config) (r : Request) : RoleCall where
  target := str "role:input-method"
  method := if r.visible then str "show" else str "hide"
  payload := if r.visible then [(.str (str "mode"), .str r.mode)] else []
  timeout := if r.visible then cfg.showTimeout else cfg.hideTimeout

/-- A request on its way to the role, with what was desired when it was taken. -/
structure Call where
  request : Request
  desired : Option Request
deriving DecidableEq

inductive RequestPc
  | absent
  | mode
  | test (r : Request) (force : Bool)
  | lock (r : Request) (force : Bool)
  | starting
  | returned
  | raised (e : Exc)
deriving DecidableEq

inductive WorkerPc
  | absent
  | loop
  | taken (c : Call)
  | calling (c : Call)
  | succeeded
  | failed (c : Call) (error : Str)
  | reporting (error : Str)
  | ended
deriving DecidableEq

inductive ClosePc
  | absent
  | lock (requestHide : Bool)
  | hide (mode : Str)
  | calling
  | failed (error : Str)
  | reporting (error : Str)
  | returned
deriving DecidableEq

/-- The attributes of the binding and the program counters; a worker has the number of the
request that started it. The fields from `accepted` on record the past: the requests that were
let in, the call that a worker has taken and not yet started, the calls in the order of their
starts, and how those of the workers ended. -/
structure State where
  pending : Option Request
  desired : Option Request
  workerRunning : Bool
  closed : Bool
  lastError : Option Str
  requester : Nat → RequestPc
  worker : Nat → WorkerPc
  closer : ClosePc
  accepted : List Request
  taken : Option Call
  issued : List Call
  finished : List (Call × Option Str)

def init : State where
  pending := none
  desired := none
  workerRunning := false
  closed := false
  lastError := none
  requester := fun _ => .absent
  worker := fun _ => .absent
  closer := .absent
  accepted := []
  taken := none
  issued := []
  finished := []

namespace State
variable (s : State)

def setRequester (k : Nat) (pc : RequestPc) : State :=
  { s with requester := Function.update s.requester k pc }

def setWorker (w : Nat) (pc : WorkerPc) : State :=
  { s with worker := Function.update s.worker w pc }

end State

/-! ### show, hide and _queue -/

/-- `_queue(visible, mode, force=force)`, as the event handlers call it. -/
def queueStart (s : State) (k : Nat) (r : Request) (force : Bool) : Option State :=
  match s.requester k with
  | .absent => some (s.setRequester k (.test r force))
  | _ => none

def showStart (cfg : Config) (s : State) (k : Nat) (mode : Str) (force : Bool) : Option State :=
  match s.requester k, selectMode cfg mode with
  | .absent, .ok selected => some (s.setRequester k (.test ⟨true, selected⟩ force))
  | .absent, .error e => some (s.setRequester k (.raised e))
  | _, _ => none

/-- The first look of `hide` at `_desired`. -/
def hideStart (s : State) (k : Nat) : Option State :=
  match s.requester k with
  | .absent =>
    match s.desired with
    | none => some (s.setRequester k (.test ⟨false, str "en"⟩ false))
    | some _ => some (s.setRequester k .mode)
  | _ => none

/-- The second, which takes the mode. -/
def hideMode (s : State) (k : Nat) : Option State :=
  match s.requester k with
  | .mode =>
    match s.desired with
    -- a worker whose call failed has reset it in between
    | none => some (s.setRequester k
        (.raised (.typeError (str "'NoneType' object is not subscriptable"))))
    | some d => some (s.setRequester k (.test ⟨false, d.mode⟩ false))
  | _ => none

def queueTest (s : State) (k : Nat) : Option State :=
  match s.requester k with
  | .test r force => some (s.setRequester k (if s.closed then .returned else .lock r force))
  | _ => none

def queueLock (s : State) (k : Nat) : Option State :=
  match s.requester k with
  | .lock r force =>
    if s.desired = some r ∧ (force = false ∨ s.pending ≠ none ∨ s.workerRunning = true) then
      some (s.setRequester k .returned)
    else
      some { s.setRequester k (if s.workerRunning then .returned else .starting) with
        desired := some r
        pending := some r
        workerRunning := true
        accepted := s.accepted ++ [r] }
  | _ => none

def queueSpawn (s : State) (k : Nat) : Option State :=
  match s.requester k with
  | .starting => some ((s.setRequester k .returned).setWorker k .loop)
  | _ => none

/-! ### _worker -/

def workerTake (s : State) (w : Nat) : Option State :=
  match s.worker w with
  | .loop =>
    match s.pending, s.closed with
    | some r, false => some { s.setWorker w (.taken ⟨r, s.desired⟩) with
        pending := none
        taken := some ⟨r, s.desired⟩ }
    | _, _ => some { s.setWorker w .ended with pending := none, workerRunning := false }
  | _ => none

def workerCall (s : State) (w : Nat) : Option State :=
  match s.worker w with
  | .taken c => some { s.setWorker w (.calling c) with taken := none, issued := s.issued ++ [c] }
  | _ => none

/-- `role_call` returns, or raises an Exception with this text. -/
def workerReturn (s : State) (w : Nat) (error : Option Str) : Option State :=
  match s.worker w with
  | .calling c =>
    some { s.setWorker w (match error with | none => .succeeded | some text => .failed c text) with
      finished := s.finished ++ [(c, error)] }
  | _ => none

/-- The block after the call. -/
def workerNote (s : State) (w : Nat) : Option State :=
  match s.worker w with
  | .succeeded => some { s.setWorker w .loop with lastError := none }
  | .failed c text => some { s.setWorker w (.reporting text) with
      lastError := some text
      desired := if s.desired = some c.request ∧ s.pending = none then none else s.desired }
  | _ => none

/-- `on_error`, whose own exceptions are swallowed. -/
def workerReport (s : State) (w : Nat) : Option State :=
  match s.worker w with
  | .reporting _ => some (s.setWorker w .loop)
  | _ => none

/-! ### close -/

def closeStart (s : State) (requestHide : Bool) : Option State :=
  match s.closer with
  | .absent => some { s with closer := if s.closed then .returned else .lock requestHide }
  | _ => none

def closeMode (s : State) : Str :=
  match s.desired with
  | some d => d.mode
  | none => str "en"

def closeShown (s : State) : Bool :=
  match s.desired with
  | some d => d.visible
  | none => false

def closeLock (s : State) : Option State :=
  match s.closer with
  | .lock requestHide =>
    some { s with
      pending := none
      desired := some ⟨false, closeMode s⟩
      closed := true
      closer := if requestHide && closeShown s then .hide (closeMode s) else .returned }
  | _ => none

def closeCall (s : State) : Option State :=
  match s.closer with
  | .hide mode => some { s with
      closer := .calling
      issued := s.issued ++ [⟨⟨false, mode⟩, s.desired⟩] }
  | _ => none

def closeReturn (s : State) (error : Option Str) : Option State :=
  match s.closer with
  | .calling => some { s with
      closer := match error with
        | none => .returned
        | some text => .failed text }
  | _ => none

def closeNote (s : State) : Option State :=
  match s.closer with
  | .failed text => some { s with closer := .reporting text, lastError := some text }
  | _ => none

def closeReport (s : State) : Option State :=
  match s.closer with
  | .reporting _ => some { s with closer := .returned }
  | _ => none

inductive Action
  | queueStart (k : Nat) (r : Request) (force : Bool)
  | showStart (k : Nat) (mode : Str) (force : Bool)
  | hideStart (k : Nat)
  | hideMode (k : Nat)
  | queueTest (k : Nat)
  | queueLock (k : Nat)
  | queueSpawn (k : Nat)
  | workerTake (w : Nat)
  | workerCall (w : Nat)
  | workerReturn (w : Nat) (error : Option Str)
  | workerNote (w : Nat)
  | workerReport (w : Nat)
  | closeStart (requestHide : Bool)
  | closeLock
  | closeCall
  | closeReturn (error : Option Str)
  | closeNote
  | closeReport

def step (cfg : Config) (s : State) : Action → Option State
  | .queueStart k r force => queueStart s k r force
  | .showStart k mode force => showStart cfg s k mode force
  | .hideStart k => hideStart s k
  | .hideMode k => hideMode s k
  | .queueTest k => queueTest s k
  | .queueLock k => queueLock s k
  | .queueSpawn k => queueSpawn s k
  | .workerTake w => workerTake s w
  | .workerCall w => workerCall s w
  | .workerReturn w error => workerReturn s w error
  | .workerNote w => workerNote s w
  | .workerReport w => workerReport s w
  | .closeStart requestHide => closeStart s requestHide
  | .closeLock => closeLock s
  | .closeCall => closeCall s
  | .closeReturn error => closeReturn s error
  | .closeNote => closeNote s
  | .closeReport => closeReport s

end Msys.InputMethod
