import MsysSdk.I18n.Patterns

/-! `create_application_manifest`. Arguments have the types that it declares; the dictionaries it
builds are records here, whose optional fields are the keys that may be absent. -/

namespace Msys.AppManifest
open Python RegularExpression
open Msys.I18n (Pattern lit lowers uppers digits nameWord)

/-! ### Patterns -/

def packageIdRe : Pattern := nameWord * (star (lit '.' * nameWord) * (lit '.' * nameWord))

def componentIdRe : Pattern :=
  oneOf lowers * star (oneOf (lowers ++ digits ++ [ch '.', ch '_', ch '-']))

/-- `[0-9]+` -/
def number : Pattern := oneOf digits * star (oneOf digits)

/-- `[0-9A-Za-z.-]+` -/
def suffix : Pattern :=
  let part := oneOf (digits ++ uppers ++ lowers ++ [ch '.', ch '-'])
  part * star part

def versionRe : Pattern :=
  number * (lit '.' * (number * (lit '.' * (number *
    (opt (lit '-' * suffix) * opt (lit '+' * suffix))))))

def roleRe : Pattern := oneOf lowers * star (oneOf (lowers ++ digits ++ [ch '.', ch '-']))

def interfaceRe : Pattern :=
  oneOf lowers * star (oneOf (lowers ++ digits ++ [ch '.', ch '_', ch '-']))

def capabilityRe : Pattern :=
  oneOf lowers * star (oneOf (lowers ++ digits ++ [ch '.', ch '_', ch ':', ch '-']))

def permissionRe : Pattern :=
  oneOf (uppers ++ lowers ++ digits) * star (oneOf (uppers ++ lowers ++ digits ++
    [ch '.', ch '_', ch ':', ch '/', ch '@', ch '*', ch '+', ch '-']))

def displayRe : Pattern := lit ':' * (number * opt (lit '.' * number))

/-! ### Choices -/

inductive Runtime
  | python | tk | c | cpp | qt | electron
deriving DecidableEq

def Runtime.text : Runtime → Str
  | python => str "python"
  | tk => str "tk"
  | c => str "c"
  | cpp => str "cpp"
  | qt => str "qt"
  | electron => str "electron"

def supportedRuntimes : List Runtime := [.python, .tk, .c, .cpp, .qt, .electron]

def Runtime.ofText (s : Str) : Option Runtime := supportedRuntimes.find? (·.text = s)

def lifecycles : List Str := [str "session", str "background", str "on-demand", str "manual"]
def restartPolicies : List Str := [str "never", str "on-failure", str "always"]
def packageKinds : List Str := [str "application", str "system", str "driver", str "tool"]
def readinessModes : List Str := [str "exec", str "mipc-ready"]
def windowModes : List Str := [str "window", str "fullscreen", str "overlay", str "background"]

/-- The command, the environment and the timeout of a runtime. -/
def runtimeCommand : Runtime → List Str × List (Str × Str) × Int
  | .python | .tk =>
    ([str "python", str "@package/files/app/main.py"], [(str "PYTHONUNBUFFERED", str "1")], 5000)
  | .c | .cpp => ([str "@package/files/bin/app"], [], 5000)
  | .qt =>
    ([str "@package/files/bin/app"],
      [(str "QT_QPA_PLATFORM", str "xcb"), (str "QT_PLUGIN_PATH", str "files/runtime/qt/plugins"),
        (str "LD_LIBRARY_PATH", str "files/runtime/qt/lib")], 8000)
  | .electron =>
    ([str "@package/files/runtime/electron/electron", str "--no-sandbox",
      str "@package/files/app"], [(str "ELECTRON_ENABLE_LOGGING", str "1")], 10000)

/-! ### Checks -/

/-- The text of the `AppManifestError`. -/
abbrev Checked := Except Str

def require (ok : Bool) (text : Str) : Checked Unit := if ok then .ok () else .error text

section
variable (u : UnicodeData)

def validateIdentifier (value label : Str) (pattern : Pattern) : Checked Unit :=
  require (pattern.rmatch value) (str "invalid " ++ label ++ str ": " ++ u.repr value)

def validateText (value label : Str) (maximum : Nat) : Checked Unit := do
  require (value ≠ [] && value.length ≤ maximum)
    (label ++ str " must contain 1.." ++ natRepr maximum ++ str " characters")
  require (value.all fun c => 32 ≤ c.val) (label ++ str " contains a control character")
  require (encodeUtf8 value).isSome (label ++ str " is not valid UTF-8")

/-- The first value that repeats an earlier one. -/
def duplicate : List Str → List Str → Option Str
  | _, [] => none
  | seen, value :: values =>
    if seen.contains value then some value else duplicate (value :: seen) values

def unique (values : List Str) (label : Str) : Checked Unit :=
  match duplicate [] values with
  | some value => .error (str "duplicate " ++ label ++ str ": " ++ value)
  | none => .ok ()

/-- `part.capitalize()` of an ASCII part. -/
def capitalize : Str → Str
  | [] => []
  | c :: cs => UnicodeData.upperChar c :: cs.map UnicodeData.lowerChar

def afterLast (c : CodePoint) (s : Str) : Str := s.rtakeWhile (· ≠ c)

/-- `_default_name`, whose words are separated by nothing but spaces. -/
def defaultName (packageId : Str) : Str :=
  let leaf := replace (ch '-') (ch ' ') (replace (ch '_') (ch ' ') (afterLast (ch '.') packageId))
  let words := ((leaf.splitOn (ch ' ')).filter (· ≠ [])).map capitalize
  if words = [] then str "MSYS App" else (str " ").intercalate words

structure Args where
  packageId : Str
  runtime : Str
  name : Option Str
  version : Str
  component : Str
  kind : Str
  lifecycle : Option Str
  restart : Option Str
  readiness : Option Str
  timeoutMs : Option Int
  graphical : Bool
  display : Str
  windowMode : Str
  launchable : Option Bool
  roles : List Str
  interfaces : List Str
  capabilities : List Str
  permissions : List Str
  entrypoint : Option Str
  execArgs : List Str
deriving DecidableEq

/-- The defaults of the keyword arguments. -/
def Args.plain (packageId runtime : Str) : Args where
  packageId := packageId
  runtime := runtime
  name := none
  version := str "0.1.0"
  component := str "main"
  kind := str "application"
  lifecycle := none
  restart := none
  readiness := none
  timeoutMs := none
  graphical := true
  display := str "inherit"
  windowMode := str "window"
  launchable := none
  roles := []
  interfaces := []
  capabilities := []
  permissions := []
  entrypoint := none
  execArgs := []

inductive Provided
  | role (value : Str)
  | interface (value : Str)
  | capability (value : Str)
deriving DecidableEq

/-- Roles are exclusive, the others are shared. -/
def Provided.exclusive : Provided → Bool
  | role _ => true
  | interface _ | capability _ => false

structure Identity where
  appId : Str
  x11WmClass : Str
  x11WmInstance : Str
deriving DecidableEq

structure Windowing where
  system : Str
  display : Str
  mode : Str
  title : Str
  identity : Identity
deriving DecidableEq

structure Readiness where
  mode : Str
  timeoutMs : Int
deriving DecidableEq

structure Component where
  id : Str
  name : Str
  runtime : Runtime
  exec : List Str
  lifecycle : Str
  restart : Str
  readiness : Readiness
  isolation : Str
  launchable : Bool
  env : List (Str × Str)
  provides : List Provided
  windowing : Option Windowing
  permissions : List Str
deriving DecidableEq

structure Package where
  id : Str
  name : Str
  version : Str
  kind : Str
  summary : Str
deriving DecidableEq

structure Manifest where
  schema : Str
  package : Package
  components : List Component
deriving DecidableEq

/-- The value, or the default where it is missing or empty. -/
def orDefault (value : Option Str) (default : Str) : Str :=
  match value with
  | some (c :: cs) => c :: cs
  | _ => default

/-- A role, an interface or a capability, so that the component has to be ready when it is
found. -/
def Args.activeProvider (args : Args) : Bool :=
  args.roles ≠ [] || args.interfaces ≠ [] || args.capabilities ≠ []

def Args.displayName (args : Args) : Str := args.name.getD (defaultName args.packageId)

def Args.selectedLifecycle (args : Args) : Str :=
  orDefault args.lifecycle (if args.activeProvider then str "on-demand" else str "manual")

def Args.selectedRestart (args : Args) : Str :=
  orDefault args.restart
    (if args.selectedLifecycle = str "manual" then str "never" else str "on-failure")

def Args.selectedReadiness (args : Args) : Str :=
  orDefault args.readiness (if args.activeProvider then str "mipc-ready" else str "exec")

def Args.command (args : Args) (runtime : Runtime) : List Str :=
  (match args.entrypoint with
    | some entrypoint => [entrypoint]
    | none => (runtimeCommand runtime).1) ++ args.execArgs

def Args.selectedTimeout (args : Args) (runtime : Runtime) : Int :=
  args.timeoutMs.getD (runtimeCommand runtime).2.2

/-- The permissions, with that of the display for a graphical component. -/
def Args.grants (args : Args) : List Str :=
  if args.graphical && !args.permissions.contains (str "display:x11") then
    args.permissions ++ [str "display:x11"]
  else args.permissions

def Args.isLaunchable (args : Args) : Bool :=
  args.launchable.getD
    (args.graphical && args.selectedLifecycle = str "manual" && !args.activeProvider)

def checkIds (args : Args) : Checked Unit := do
  validateIdentifier u args.packageId (str "package id") packageIdRe
  require (args.packageId.length ≤ 128) (str "package id must contain at most 128 characters")
  validateIdentifier u args.component (str "component id") componentIdRe
  require (args.component.length ≤ 64) (str "component id must contain at most 64 characters")

def checkRuntime (args : Args) : Checked Runtime :=
  match Runtime.ofText args.runtime with
  | some runtime => .ok runtime
  | none => .error (str "unsupported runtime: " ++ u.repr args.runtime)

def checkProvides (args : Args) : Checked Unit := do
  unique args.roles (str "role")
  unique args.interfaces (str "interface")
  unique args.capabilities (str "capability")
  unique args.permissions (str "permission")
  args.roles.forM fun role => validateIdentifier u role (str "role") roleRe
  args.interfaces.forM fun interface =>
    validateIdentifier u interface (str "interface") interfaceRe
  args.capabilities.forM fun capability =>
    validateIdentifier u capability (str "capability") capabilityRe
  args.permissions.forM fun permission => do
    validateIdentifier u permission (str "permission") permissionRe
    require (permission.length ≤ 256) (str "permission must contain at most 256 characters")

def checkPolicies (args : Args) : Checked Unit := do
  require (lifecycles.contains args.selectedLifecycle)
    (str "unsupported lifecycle: " ++ u.repr args.selectedLifecycle)
  require (restartPolicies.contains args.selectedRestart)
    (str "unsupported restart policy: " ++ u.repr args.selectedRestart)
  require (readinessModes.contains args.selectedReadiness)
    (str "unsupported readiness mode: " ++ u.repr args.selectedReadiness)

def checkCommand (args : Args) (runtime : Runtime) : Checked Unit := do
  args.entrypoint.forM fun entrypoint => validateText entrypoint (str "entrypoint") 4096
  args.execArgs.forM fun argument => validateText argument (str "exec argument") 4096
  require ((args.command runtime).length ≤ 256) (str "exec must contain at most 256 arguments")
  require (1 ≤ args.selectedTimeout runtime && args.selectedTimeout runtime ≤ 300000)
    (str "timeout must be between 1 and 300000 ms")

def checkWindow (args : Args) : Checked Unit :=
  if args.graphical then do
    require (windowModes.contains args.windowMode)
      (str "unsupported window mode: " ++ u.repr args.windowMode)
    require (args.display.length ≤ 128 &&
        (args.display = str "inherit" || displayRe.rmatch args.display))
      (str "display must be 'inherit' or an X11 display such as :24")
  else .ok ()

def Args.windowing (args : Args) : Option Windowing :=
  if args.graphical then some
    { system := str "x11"
      display := args.display
      mode := args.windowMode
      title := args.displayName
      identity :=
        { appId := args.packageId
          x11WmClass := args.packageId
          x11WmInstance := args.component } }
  else none

def Args.componentItem (args : Args) (runtime : Runtime) : Component where
  id := args.component
  name := args.displayName
  runtime := runtime
  exec := args.command runtime
  lifecycle := args.selectedLifecycle
  restart := args.selectedRestart
  readiness := ⟨args.selectedReadiness, args.selectedTimeout runtime⟩
  isolation := str "baseline"
  launchable := args.isLaunchable
  env := (runtimeCommand runtime).2.1
  provides :=
    args.roles.map .role ++ args.interfaces.map .interface ++ args.capabilities.map .capability
  windowing := args.windowing
  permissions := args.grants

def Args.manifest (args : Args) (runtime : Runtime) : Manifest where
  schema := str "msys.manifest.v1"
  package :=
    { id := args.packageId
      name := args.displayName
      version := args.version
      kind := args.kind
      summary := args.displayName ++ str ", an MSYS " ++ runtime.text ++ str " component" }
  components := [args.componentItem runtime]

def createApplicationManifest (args : Args) : Checked Manifest := do
  checkIds u args
  require (versionRe.rmatch args.version) (str "invalid semantic version: " ++ u.repr args.version)
  let runtime ← checkRuntime u args
  require (packageKinds.contains args.kind)
    (str "unsupported package kind: " ++ u.repr args.kind)
  validateText args.displayName (str "name") 128
  checkProvides u args
  checkPolicies u args
  checkCommand args runtime
  checkWindow u args
  return args.manifest runtime

end

/-! ### What is accepted -/

theorem require_ok {ok : Bool} {text : Str} {r : Unit} (h : require ok text = .ok r) :
    ok = true := by
  cases ok with
  | true => rfl
  | false => cases h

/-- A step of a check that passes. -/
theorem bind_ok {α β : Type} {x : Checked α} {f : α → Checked β} {r : β}
    (h : x.bind f = .ok r) : ∃ a, x = .ok a ∧ f a = .ok r := by
  cases x with
  | error e => cases h
  | ok a => exact ⟨a, rfl, h⟩

structure IdsOk (args : Args) : Prop where
  package : packageIdRe.rmatch args.packageId = true
  packageLength : args.packageId.length ≤ 128
  component : componentIdRe.rmatch args.component = true
  componentLength : args.component.length ≤ 64

theorem checkIds_ok {u : UnicodeData} {args : Args} {r : Unit} (h : checkIds u args = .ok r) :
    IdsOk args := by
  obtain ⟨_, hpackage, h⟩ := bind_ok h
  obtain ⟨_, hpackageLength, h⟩ := bind_ok h
  obtain ⟨_, hcomponent, h⟩ := bind_ok h
  exact ⟨require_ok hpackage, by simpa using require_ok hpackageLength, require_ok hcomponent,
    by simpa using require_ok h⟩

theorem checkIds_of_ok (u : UnicodeData) {args : Args} (h : IdsOk args) :
    checkIds u args = .ok () := by
  have hpackage : decide (args.packageId.length ≤ 128) = true := decide_eq_true h.packageLength
  have hcomponent : decide (args.component.length ≤ 64) = true := decide_eq_true h.componentLength
  rw [checkIds, validateIdentifier, validateIdentifier, h.package, h.component, hpackage, hcomponent]
  rfl

theorem create_ok {u : UnicodeData} {args : Args} {m : Manifest}
    (h : createApplicationManifest u args = .ok m) :
    IdsOk args ∧ ∃ runtime, m = args.manifest runtime := by
  obtain ⟨_, hids, h⟩ := bind_ok h
  obtain ⟨_, -, h⟩ := bind_ok h
  obtain ⟨runtime, -, h⟩ := bind_ok h
  refine ⟨checkIds_ok hids, runtime, ?_⟩
  iterate 6 obtain ⟨_, -, h⟩ := bind_ok h
  exact (Except.ok.inj h).symm

example : (createApplicationManifest .ascii (.plain (str "org.example.write-it") (str "qt"))).map
    (fun m => (m.package.name, m.components.map (·.permissions))) =
    .ok (str "Write It", [[str "display:x11"]]) := by decide +kernel

end Msys.AppManifest
