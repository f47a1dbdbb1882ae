import MsysSdk.Records
import MsysSdk.InputMethod.Model

/-! `TouchApplication`: the Tk thread runs one callback at a time, and each callback is a list of
tasks between which the other threads may move: the workers that call the input method, and
whoever posts messages. A block under `_input_lock` is one step, and so are the start and the end
of a `call`. -/

namespace Msys.TouchApp
open Python
open InputMethod (Request RoleCall inputMethodModes)

/-- A widget is made under its master; the root has none. -/
inductive Widget
  | root
  | child (master : Widget) (name : Nat)
deriving DecidableEq

/-- `_inside(widget, ancestor)`. -/
def inside : Widget → Widget → Bool
  | .root, ancestor => ancestor = .root
  | .child master name, ancestor => ancestor = .child master name || inside master ancestor

inductive Exc
  | valueError (text : Str)
  | typeError (text : Str)
  | tclError
  | osError
deriving DecidableEq

/-- What `post` puts into the queue. -/
structure Message where
  kind : Str
  payload : Value

/-- What `handle_message` of an application may call. -/
inductive AppCall
  | requestInputMethodHide
  | close

/-- `MSYS_CONTROL_FD`: empty, no number, or a descriptor. -/
inductive Environment
  | unset
  | invalid
  | descriptor

structure Config where
  unicode : UnicodeData
  environment : Environment
  handleMessage : Message → List AppCall

/-- The arguments of `channel.call` for a request. -/
def methodCall (r : Request) : RoleCall where
  target := str "role:input-method"
  method := if r.visible then str "show" else str "hide"
  payload := if r.visible then [(.str (str "mode"), .str r.mode)] else []
  timeout := if r.visible then 6 else 2

/-- The channel of a handshake that was refused is there, but its pump was never started. -/
inductive Channel
  | absent
  | unstarted
  | opened
  | closed
deriving DecidableEq

/-- What the Tk thread has still to do of its callback. -/
inductive Task
  | shown (mode : Str)
  | touched (mode : Str)
  | focusOut
  | destroyed (event : Option Widget) (widget : Widget) (mode : Str)
  | inputPointerPress (event : Option Widget)
  | requestInputMethodHide
  | hideMode
  | check
  | reconcileInputMethodFocus (hideIfMissing : Bool)
  | pollMessages
  | drain
  | close
  | closeLock
  | closeCall (mode : Str)
  | closeReturn
  | closeEnd
deriving DecidableEq

inductive WorkerPc
  | absent
  | loop
  | taken (r : Request)
  | dropping
  | calling (r : Request)
  | failed (r : Request)
  | ended
deriving DecidableEq

/-- The attributes under `_input_lock`, the worker threads, and the past: the requests of the
handlers, the calls that the workers began and how they ended, and the calls that an open channel
let through. -/
structure Ime where
  pending : Option Request
  desired : Option Request
  workerRunning : Bool
  worker : Nat → WorkerPc
  spawned : Nat
  asked : List Request
  called : List Request
  finished : List (Request × Bool)
  wire : List RoleCall

/-- Tk as long as its root is there, the callbacks that it will make, and the one that checks the
focus. -/
structure Clock where
  alive : Bool
  timers : List (Nat × Task)
  nextTimer : Nat
  inputFocusCheck : Option Nat

/-- The queue, and the past: the messages posted, those taken out, and those that `handle_message`
got. -/
structure Mail where
  messages : List Message
  posted : List Message
  taken : List Message
  handled : List Message

/-- `bound` has the handlers of the editors, `focus` is `none` where `focus_get` raises, `agenda`
is the rest of the callback that runs, and `raised` what Tk has reported. -/
structure State extends Ime, Clock, Mail where
  closed : Bool
  channel : Channel
  inputWidgets : List (Widget × Str)
  inputRootBound : Bool
  bound : List (Widget × Str)
  focus : Option (Option Widget)
  agenda : List Task
  raised : List Exc

/-- After `__init__`, which starts the polling. -/
def init : State where
  pending := none
  desired := none
  workerRunning := false
  worker := fun _ => .absent
  spawned := 0
  asked := []
  called := []
  finished := []
  wire := []
  alive := true
  timers := [(0, .pollMessages)]
  nextTimer := 1
  inputFocusCheck := none
  messages := []
  posted := []
  taken := []
  handled := []
  closed := false
  channel := .absent
  inputWidgets := []
  inputRootBound := false
  bound := []
  focus := some none
  agenda := []
  raised := []

namespace State
variable (s : State)

def push (ts : List Task) : State := { s with agenda := ts ++ s.agenda }

/-- The exception leaves the callback. -/
def raise (e : Exc) : State := { s with agenda := [], raised := s.raised ++ [e] }

end State

/-! ### Timers of Tk -/

namespace Clock
variable (c : Clock)

/-- `root.after`, which raises once the root is destroyed. -/
def after (t : Task) : Option Clock :=
  if c.alive then
    some { c with timers := c.timers ++ [(c.nextTimer, t)], nextTimer := c.nextTimer + 1 }
  else none

/-- `root.after_cancel`, whose exceptions are swallowed. -/
def afterCancel (timer : Nat) : Clock :=
  if c.alive then { c with timers := c.timers.filter fun e => e.1 ≠ timer } else c

def cancelInputFocusCheck : Clock :=
  match c.inputFocusCheck with
  | none => c
  | some timer => afterCancel { c with inputFocusCheck := none } timer

def scheduleInputFocusCheck : Clock :=
  match c.cancelInputFocusCheck.after .check with
  | some after => { after with inputFocusCheck := some c.cancelInputFocusCheck.nextTimer }
  | none => { c.cancelInputFocusCheck with inputFocusCheck := none }

end Clock

/-! ### The input method -/

/-- The editor that the widget is or lies in, and its mode. -/
def inputRegistration (s : State) : Option Widget → Option (Widget × Str)
  | none => none
  | some w => s.inputWidgets.find? fun e => inside w e.1

/-- `_input_widgets[widget] = mode`: a widget already there keeps its place. -/
def setMode : List (Widget × Str) → Widget → Str → List (Widget × Str)
  | [], w, mode => [(w, mode)]
  | e :: es, w, mode => if e.1 = w then (w, mode) :: es else e :: setMode es w mode

namespace Ime
variable (x : Ime)

def setWorker (w : Nat) (pc : WorkerPc) : Ime :=
  { x with worker := Function.update x.worker w pc }

/-- `_queue_input_method` from the lock on. -/
def queue (r : Request) (force : Bool) : Ime :=
  if x.desired = some r ∧ (force = false ∨ x.pending ≠ none ∨ x.workerRunning = true) then
    { x with asked := x.asked ++ [r] }
  else if x.workerRunning then
    { x with desired := some r, pending := some r, asked := x.asked ++ [r] }
  else
    { x.setWorker x.spawned .loop with
      desired := some r
      pending := some r
      workerRunning := true
      spawned := x.spawned + 1
      asked := x.asked ++ [r] }

end Ime

def queueInputMethod (s : State) (r : Request) (force : Bool) : State :=
  { s with toIme :=
      if s.closed = true ∨ s.channel = .absent then s.toIme else s.toIme.queue r force }

def cancelInputFocusCheck (s : State) : State :=
  { s with toClock := s.toClock.cancelInputFocusCheck }

/-- The first look at `_input_desired`; the second, which takes the mode, is a task of its own. -/
def requestInputMethodHide (s : State) : State :=
  match s.desired with
  | none => queueInputMethod (cancelInputFocusCheck s) ⟨false, str "en"⟩ false
  | some _ => (cancelInputFocusCheck s).push [.hideMode]

def hideMode (s : State) : State :=
  match s.desired with
  -- a worker whose call failed has reset it in between
  | none => s.raise (.typeError (str "'NoneType' object is not subscriptable"))
  | some d => queueInputMethod s ⟨false, d.mode⟩ false

def reconcileInputMethodFocus (s : State) (hideIfMissing : Bool) : State :=
  if s.closed = true ∨ s.channel = .absent then s
  else
    match s.focus with
    | none => s
    | some focused =>
      match inputRegistration s focused with
      | some (_, mode) => queueInputMethod s ⟨true, mode⟩ false
      | none => if hideIfMissing then s.push [.requestInputMethodHide] else s

/-- `attach_input_method`; the handlers of the widget take the mode with them. -/
def attachInputMethod (cfg : Config) (s : State) (w : Widget) (mode : Str) : State :=
  let selected := cfg.unicode.lower (strip mode)
  if inputMethodModes.contains selected then
    let s := { s with inputWidgets := setMode s.inputWidgets w selected }
    if s.alive then { s with bound := s.bound ++ [(w, selected)], inputRootBound := true }
    else s.raise .tclError
  else s.raise (.valueError (str "unsupported input method mode"))

def activateLifecycle (cfg : Config) (s : State) (welcomed : Bool) : State :=
  match cfg.environment with
  | .unset => { s with channel := .absent }
  | .invalid => s
  | .descriptor =>
    -- the descriptor is gone with the channel that was closed
    if s.channel = .closed then s.raise .osError
    else if welcomed then
      let s := { s with channel := .opened }
      match s.after (.reconcileInputMethodFocus false) with
      | some clock => { s with toClock := clock }
      | none => s.raise .tclError
    else { s with channel := .unstarted }

/-! ### Messages -/

def AppCall.task : AppCall → Task
  | .requestInputMethodHide => .requestInputMethodHide
  | .close => .close

/-- `payload if isinstance(payload, dict) else {}`. -/
def Message.dict (m : Message) : Dict :=
  match m.payload with
  | .dict d => d
  | _ => []

/-- A lifecycle record that has been taken out of the queue. -/
def lifecycle (s : State) (d : Dict) : State :=
  match (field d "type").inStrings [str "shutdown", str "eof"] with
  | .error text => s.raise (.typeError text)
  | .ok true => s.push [.close]
  | .ok false =>
    -- `root.lift()`
    if (field d "type").isKey (str "event") && !s.alive then s.raise .tclError
    else s.push [.drain]

/-- One pass through the loop of `_poll_messages`. -/
def drain (cfg : Config) (s : State) : State :=
  match s.messages with
  | [] =>
    match s.after .pollMessages with
    | some clock => { s with toClock := clock }
    | none => s.raise .tclError
  | m :: rest =>
    let s := { s with messages := rest, taken := s.taken ++ [m] }
    if m.kind = str "lifecycle" then lifecycle s m.dict
    else State.push { s with handled := s.handled ++ [m] }
      ((cfg.handleMessage m).map AppCall.task ++ [.drain])

/-! ### close -/

def closeLock (s : State) : State :=
  State.push { s with pending := none, desired := some ⟨false, closeMode s.desired⟩ }
    [if s.channel ≠ .absent ∧ closeShown s.desired = true then .closeCall (closeMode s.desired)
      else .closeEnd]
where
  closeMode : Option Request → Str
    | some d => d.mode
    | none => str "en"
  closeShown : Option Request → Bool
    | some d => d.visible
    | none => false

/-- The end of `close`: the channel is closed and the root destroyed, with its timers, and the
`Destroy` handlers run, in which nothing but the registrations changes any more. -/
def closeEnd (s : State) : State :=
  { s with
    channel := if s.channel = .absent then .absent else .closed
    alive := false
    timers := []
    inputWidgets := s.inputWidgets.filter fun e => e.1 ∉ s.bound.map Prod.fst }

/-- The Tk thread goes on with the first task of its callback. -/
def perform (cfg : Config) (s : State) : Task → State
  | .shown mode => queueInputMethod (cancelInputFocusCheck s) ⟨true, mode⟩ false
  | .touched mode => queueInputMethod (cancelInputFocusCheck s) ⟨true, mode⟩ true
  | .focusOut => { s with toClock := s.toClock.scheduleInputFocusCheck }
  | .destroyed event w mode =>
    if event = some w then
      queueInputMethod { s with inputWidgets := s.inputWidgets.filter fun e => e.1 ≠ w }
        ⟨false, mode⟩ false
    else s
  | .inputPointerPress event =>
    if inputRegistration s event = none then s.push [.requestInputMethodHide] else s
  | .requestInputMethodHide => requestInputMethodHide s
  | .hideMode => hideMode s
  | .check => State.push { s with inputFocusCheck := none } [.reconcileInputMethodFocus true]
  | .reconcileInputMethodFocus hideIfMissing => reconcileInputMethodFocus s hideIfMissing
  | .pollMessages => if s.closed then s else s.push [.drain]
  | .drain => drain cfg s
  | .close =>
    if s.closed then s
    else State.push { cancelInputFocusCheck s with closed := true } [.closeLock]
  | .closeLock => closeLock s
  | .closeCall mode =>
    State.push { s with wire :=
        if s.channel = .opened then s.wire ++ [methodCall ⟨false, mode⟩] else s.wire }
      [.closeReturn]
  | .closeReturn => s.push [.closeEnd]
  | .closeEnd => closeEnd s

/-! ### _input_method_worker -/

namespace Ime
variable (x : Ime)

def workerTake (closed : Bool) (w : Nat) : Option Ime :=
  match x.worker w with
  | .loop =>
    match x.pending, closed with
    | some r, false => some { x.setWorker w (.taken r) with pending := none }
    | _, _ => some { x.setWorker w .ended with pending := none, workerRunning := false }
  | _ => none

/-- A channel that is closed, or was never started, refuses the call at once. -/
def workerCall (channel : Channel) (w : Nat) : Option Ime :=
  match x.worker w with
  | .taken r =>
    match channel with
    | .absent => some (x.setWorker w .dropping)
    | .opened => some { x.setWorker w (.calling r) with
        called := x.called ++ [r]
        wire := x.wire ++ [methodCall r] }
    | .unstarted | .closed => some { x.setWorker w (.failed r) with
        called := x.called ++ [r]
        finished := x.finished ++ [(r, false)] }
  | _ => none

def workerDrop (w : Nat) : Option Ime :=
  match x.worker w with
  | .dropping => some { x.setWorker w .loop with desired := none }
  | _ => none

/-- The call returns, or raises a `MipcError`. -/
def workerReturn (w : Nat) (ok : Bool) : Option Ime :=
  match x.worker w with
  | .calling r => some { x.setWorker w (if ok then .loop else .failed r) with
      finished := x.finished ++ [(r, ok)] }
  | _ => none

def workerNote (w : Nat) : Option Ime :=
  match x.worker w with
  | .failed r => some { x.setWorker w .loop with
      desired := if x.desired = some r ∧ x.pending = none then none else x.desired }
  | _ => none

inductive WorkerAction
  | take
  | call
  | drop
  | returned (ok : Bool)
  | note

def workerStep (closed : Bool) (channel : Channel) (w : Nat) : WorkerAction → Option Ime
  | .take => x.workerTake closed w
  | .call => x.workerCall channel w
  | .drop => x.workerDrop w
  | .returned ok => x.workerReturn w ok
  | .note => x.workerNote w

end Ime

/-! ### The system -/

/-- A callback that Tk makes for an event of the window system. -/
inductive Event
  | focusIn (w : Widget) (mode : Str)
  | focusOut (w : Widget) (mode : Str)
  | buttonPress (w : Widget) (mode : Str)
  | destroy (event : Option Widget) (w : Widget) (mode : Str)
  | rootButtonPress (event : Option Widget)
  | deleteWindow

def Event.task : Event → Task
  | .focusIn _ mode => .shown mode
  | .focusOut .. => .focusOut
  | .buttonPress _ mode => .touched mode
  | .destroy event w mode => .destroyed event w mode
  | .rootButtonPress event => .inputPointerPress event
  | .deleteWindow => .close

/-- The handler is bound. -/
def Event.fires (s : State) : Event → Bool
  | .focusIn w mode | .focusOut w mode | .buttonPress w mode | .destroy _ w mode =>
    (w, mode) ∈ s.bound
  | .rootButtonPress _ => s.inputRootBound
  | .deleteWindow => true

/-- Between two callbacks the application's own code may run, with the three calls that follow the
events. -/
inductive Action
  | event (e : Event)
  | attachInputMethod (w : Widget) (mode : Str)
  | activateLifecycle (welcomed : Bool)
  | call (c : AppCall)
  | fire (timer : Nat)
  | perform
  | moveFocus (focus : Option (Option Widget))
  | post (m : Message)
  | worker (w : Nat) (a : Ime.WorkerAction)

def step (cfg : Config) (s : State) : Action → Option State
  | .event e =>
    if s.agenda = [] ∧ s.alive = true ∧ e.fires s = true then some (s.push [e.task]) else none
  | .attachInputMethod w mode =>
    if s.agenda = [] then some (attachInputMethod cfg s w mode) else none
  | .activateLifecycle welcomed =>
    if s.agenda = [] then some (activateLifecycle cfg s welcomed) else none
  | .call c => if s.agenda = [] then some (s.push [c.task]) else none
  | .fire timer =>
    match s.agenda, s.timers.find? fun e => e.1 = timer with
    | [], some (_, t) =>
      some (State.push { s with timers := s.timers.filter fun e => e.1 ≠ timer } [t])
    | _, _ => none
  | .perform =>
    match s.agenda with
    | [] => none
    | t :: rest => some (perform cfg { s with agenda := rest } t)
  | .moveFocus focus => some { s with focus := focus }
  | .post m => some { s with messages := s.messages ++ [m], posted := s.posted ++ [m] }
  | .worker w a =>
    (s.workerStep s.closed s.channel w a).map fun ime => { s with toIme := ime }

end Msys.TouchApp
