import MsysSdk.Manifest.Overwrite
import MsysSdk.Manifest.Create
import MsysSdk.Python.JsonIndent

/-! The file that `write_manifest` leaves behind. `json.loads` reads from it what
`create_application_manifest` returned to one of the callers. -/

namespace Msys.AppManifest
open Python RegularExpression Transition
open Msys.I18n (Pattern)

/-! ### The dictionaries -/

def entry (name : String) (v : Value) : Value × Value := (.str (str name), v)

/-- A key that is left out where it has no value. -/
def optional (name : String) (v : Option Value) : Dict := (v.map (entry name)).toList

def strings (values : List Str) : Value := .list (values.map .str)

def Provided.value (p : Provided) : Value :=
  .dict [match p with
    | role s => entry "role" (.str s)
    | interface s => entry "interface" (.str s)
    | capability s => entry "capability" (.str s),
    entry "exclusive" (.bool p.exclusive)]

def Identity.value (i : Identity) : Value :=
  .dict [entry "app_id" (.str i.appId), entry "x11_wm_class" (.str i.x11WmClass),
    entry "x11_wm_instance" (.str i.x11WmInstance)]

def Windowing.value (w : Windowing) : Value :=
  .dict [entry "system" (.str w.system), entry "display" (.str w.display),
    entry "mode" (.str w.mode), entry "title" (.str w.title), entry "identity" w.identity.value]

def Component.value (c : Component) : Value :=
  .dict ([entry "id" (.str c.id), entry "name" (.str c.name), entry "runtime" (.str c.runtime.text),
      entry "exec" (strings c.exec), entry "lifecycle" (.str c.lifecycle),
      entry "restart" (.str c.restart),
      entry "readiness" (.dict [entry "mode" (.str c.readiness.mode),
        entry "timeout_ms" (.int c.readiness.timeoutMs)]),
      entry "isolation" (.str c.isolation),
      entry "activation" (.dict [entry "launchable" (.bool c.launchable)])] ++
    (optional "env" (if c.env = [] then none
        else some (.dict (c.env.map fun e => (.str e.1, .str e.2)))) ++
    (optional "provides" (if c.provides = [] then none
        else some (.list (c.provides.map Provided.value))) ++
    (optional "windowing" (c.windowing.map Windowing.value) ++
    optional "permissions" (if c.permissions = [] then none else some (strings c.permissions))))))

def Package.value (p : Package) : Value :=
  .dict [entry "id" (.str p.id), entry "name" (.str p.name), entry "version" (.str p.version),
    entry "kind" (.str p.kind), entry "summary" (.str p.summary)]

/-- What `create_application_manifest` returns. -/
def Manifest.value (m : Manifest) : Value :=
  .dict [entry "schema" (.str m.schema), entry "package" m.package.value,
    entry "components" (.list (m.components.map Component.value))]

/-- `json.dumps(manifest, ensure_ascii=False, indent=2) + "\n"` -/
def Manifest.text (py : Interpreter) (m : Manifest) : Option Str :=
  match dumpIndented 2 py.recursionLimit 0 m.value with
  | .ok s => some (s ++ [ch '\n'])
  | .error _ => none

/-! ### The strings of an accepted application -/

theorem encodable_of {s : Str} (h : Encodable s) : encodable s = true :=
  List.all_eq_true.mpr fun c hc => by rw [h c hc]; rfl

theorem identifier_encodable {pattern : Pattern}
    (h : pattern.letters.all (fun c => c.val < 0x80) = true) {s : Str}
    (hs : pattern.rmatch s = true) : encodable s = true := by
  refine encodable_of (encodable_of_ascii ?_)
  refine forall_of_letters (fun c hc => ?_) ((rmatch_iff_matches' pattern s).mp hs)
  exact of_decide_eq_true (List.all_eq_true.mp h c hc)

theorem choice_encodable {choices : List Str} (h : choices.all encodable = true) {s : Str}
    (hs : choices.contains s = true) : encodable s = true :=
  List.all_eq_true.mp h s (List.contains_iff_mem.mp hs)

theorem validateText_encodable {value label : Str} {maximum : Nat} {r : Unit}
    (h : validateText value label maximum = .ok r) : encodable value = true := by
  obtain ⟨_, -, h⟩ := bind_ok h
  obtain ⟨_, -, h⟩ := bind_ok h
  obtain ⟨data, hdata⟩ := Option.isSome_iff_exists.mp (require_ok h)
  exact encodable_of (encodable_iff.mpr (by rw [utf8_of_encode hdata, hdata]))

theorem forM_ok {f : Str → Checked Unit} {values : List Str} {r : Unit}
    (h : values.forM f = .ok r) : ∀ s ∈ values, f s = .ok () := by
  induction values with
  | nil => simp
  | cons s values ih =>
    obtain ⟨_, hs, h⟩ := bind_ok (show (f s).bind (fun _ => values.forM f) = .ok r from h)
    exact List.forall_mem_cons.mpr ⟨hs, ih h⟩

structure Encodes (args : Args) (runtime : Runtime) : Prop where
  packageId : encodable args.packageId = true
  component : encodable args.component = true
  version : encodable args.version = true
  kind : encodable args.kind = true
  displayName : encodable args.displayName = true
  roles : ∀ s ∈ args.roles, encodable s = true
  interfaces : ∀ s ∈ args.interfaces, encodable s = true
  capabilities : ∀ s ∈ args.capabilities, encodable s = true
  permissions : ∀ s ∈ args.permissions, encodable s = true
  lifecycle : encodable args.selectedLifecycle = true
  restart : encodable args.selectedRestart = true
  readiness : encodable args.selectedReadiness = true
  command : ∀ s ∈ args.command runtime, encodable s = true
  timeout : (args.selectedTimeout runtime).natAbs ≤ 300000
  windowMode : args.graphical = true → encodable args.windowMode = true
  display : args.graphical = true → encodable args.display = true

section
variable {u : UnicodeData} {args : Args} {runtime : Runtime} {r : Unit}

theorem checkProvides_encodable (h : checkProvides u args = .ok r) :
    (∀ s ∈ args.roles, encodable s = true) ∧ (∀ s ∈ args.interfaces, encodable s = true) ∧
      (∀ s ∈ args.capabilities, encodable s = true) ∧
        ∀ s ∈ args.permissions, encodable s = true := by
  iterate 4 obtain ⟨_, -, h⟩ := bind_ok h
  obtain ⟨_, hroles, h⟩ := bind_ok h
  obtain ⟨_, hinterfaces, h⟩ := bind_ok h
  obtain ⟨_, hcapabilities, hpermissions⟩ := bind_ok h
  refine ⟨fun s hs => ?_, fun s hs => ?_, fun s hs => ?_, fun s hs => ?_⟩
  · exact identifier_encodable (by decide +kernel) (require_ok (forM_ok hroles s hs))
  · exact identifier_encodable (by decide +kernel) (require_ok (forM_ok hinterfaces s hs))
  · exact identifier_encodable (by decide +kernel) (require_ok (forM_ok hcapabilities s hs))
  · obtain ⟨_, hmatch, -⟩ := bind_ok (forM_ok hpermissions s hs)
    exact identifier_encodable (by decide +kernel) (require_ok hmatch)

theorem checkPolicies_encodable (h : checkPolicies u args = .ok r) :
    encodable args.selectedLifecycle = true ∧ encodable args.selectedRestart = true ∧
      encodable args.selectedReadiness = true := by
  obtain ⟨_, hlifecycle, h⟩ := bind_ok h
  obtain ⟨_, hrestart, hreadiness⟩ := bind_ok h
  exact ⟨choice_encodable (by decide +kernel) (require_ok hlifecycle),
    choice_encodable (by decide +kernel) (require_ok hrestart),
    choice_encodable (by decide +kernel) (require_ok hreadiness)⟩

theorem runtimeCommand_encodable (runtime : Runtime) :
    (runtimeCommand runtime).1.all encodable = true ∧
      (runtimeCommand runtime).2.1.all (fun e => encodable e.1 && encodable e.2) = true ∧
        ((runtimeCommand runtime).2.1.map Prod.fst).Nodup := by
  cases runtime <;> decide +kernel

theorem checkCommand_encodable (h : checkCommand args runtime = .ok r) :
    (∀ s ∈ args.command runtime, encodable s = true) ∧
      (args.selectedTimeout runtime).natAbs ≤ 300000 := by
  obtain ⟨_, hentrypoint, h⟩ := bind_ok h
  obtain ⟨_, hargs, h⟩ := bind_ok h
  obtain ⟨_, -, htimeout⟩ := bind_ok h
  refine ⟨fun s hs => ?_, ?_⟩
  · rcases List.mem_append.mp hs with hs | hs
    · cases hentry : args.entrypoint with
      | none =>
        rw [hentry] at hs
        exact List.all_eq_true.mp (runtimeCommand_encodable runtime).1 s hs
      | some entrypoint =>
        rw [hentry] at hs hentrypoint
        obtain rfl := List.mem_singleton.mp hs
        exact validateText_encodable hentrypoint
    · exact validateText_encodable (forM_ok hargs s hs)
  · have hbounds := require_ok htimeout
    simp only [Bool.and_eq_true, decide_eq_true_eq] at hbounds
    omega

theorem checkWindow_encodable (h : checkWindow u args = .ok r) (hg : args.graphical = true) :
    encodable args.windowMode = true ∧ encodable args.display = true := by
  rw [checkWindow, if_pos hg] at h
  obtain ⟨_, hmode, hdisplay⟩ := bind_ok h
  refine ⟨choice_encodable (by decide +kernel) (require_ok hmode), ?_⟩
  have hok := require_ok hdisplay
  simp only [Bool.and_eq_true, Bool.or_eq_true, decide_eq_true_eq] at hok
  obtain ⟨-, hinherit | hmatch⟩ := hok
  · rw [hinherit]
    exact encodable_str _
  · exact identifier_encodable (by decide +kernel) hmatch

theorem create_encodes {m : Manifest} (h : createApplicationManifest u args = .ok m) :
    ∃ runtime, m = args.manifest runtime ∧ Encodes args runtime := by
  obtain ⟨_, hids, h⟩ := bind_ok h
  obtain ⟨_, hversion, h⟩ := bind_ok h
  obtain ⟨runtime, -, h⟩ := bind_ok h
  obtain ⟨_, hkind, h⟩ := bind_ok h
  obtain ⟨_, hname, h⟩ := bind_ok h
  obtain ⟨_, hprovides, h⟩ := bind_ok h
  obtain ⟨_, hpolicies, h⟩ := bind_ok h
  obtain ⟨_, hcommand, h⟩ := bind_ok h
  obtain ⟨_, hwindow, h⟩ := bind_ok h
  obtain ⟨hroles, hinterfaces, hcapabilities, hpermissions⟩ := checkProvides_encodable hprovides
  obtain ⟨hlifecycle, hrestart, hreadiness⟩ := checkPolicies_encodable hpolicies
  obtain ⟨hcommand, htimeout⟩ := checkCommand_encodable hcommand
  have hids := checkIds_ok hids
  exact ⟨runtime, (Except.ok.inj h).symm,
    { packageId := identifier_encodable (by decide +kernel) hids.package
      component := identifier_encodable (by decide +kernel) hids.component
      version := identifier_encodable (by decide +kernel) (require_ok hversion)
      kind := choice_encodable (by decide +kernel) (require_ok hkind)
      displayName := validateText_encodable hname
      roles := hroles
      interfaces := hinterfaces
      capabilities := hcapabilities
      permissions := hpermissions
      lifecycle := hlifecycle
      restart := hrestart
      readiness := hreadiness
      command := hcommand
      timeout := htimeout
      windowMode := fun hg => (checkWindow_encodable hwindow hg).1
      display := fun hg => (checkWindow_encodable hwindow hg).2 }⟩

end

/-! ### What can be written -/

/-- A member that can be written below so many levels. -/
def Fits (n : Nat) (e : Value × Value) : Prop :=
  (∃ k, e.1 = .str k ∧ encodable k = true) ∧ e.2.Writable n

section
variable {n : Nat}

theorem writable_str {s : Str} (h : encodable s = true) : (Value.str s).Writable n := by
  unfold Value.Writable
  exact h

theorem writable_bool (b : Bool) : (Value.bool b).Writable n := by
  unfold Value.Writable
  trivial

theorem writable_list {xs : List Value} (h : ∀ x ∈ xs, x.Writable n) :
    (Value.list xs).Writable (n + 1) := by
  unfold Value.Writable
  exact h

theorem writable_strings {values : List Str} (h : ∀ s ∈ values, encodable s = true) :
    (strings values).Writable (n + 1) :=
  writable_list (List.forall_mem_map.mpr fun s hs => writable_str (h s hs))

/-- The keys are some of the names, in their order. -/
theorem writable_dict {d : Dict} (names : List Str) (hnames : names.Nodup)
    (hkeys : (d.map Prod.fst).Sublist (names.map Value.str)) (h : ∀ e ∈ d, Fits n e) :
    (Value.dict d).Writable (n + 1) := by
  unfold Value.Writable
  exact ⟨(hnames.map fun _ _ => Value.str.inj).sublist hkeys, h⟩

theorem entry_fits {name : String} {v : Value} (h : v.Writable n) : Fits n (entry name v) :=
  ⟨⟨_, rfl, encodable_str name⟩, h⟩

theorem optional_fits {name : String} {v : Option Value} (h : ∀ x ∈ v, x.Writable n) :
    ∀ e ∈ optional name v, Fits n e := by
  intro e he
  obtain ⟨x, hx, rfl⟩ := Option.map_eq_some_iff.mp (Option.mem_toList.mp he)
  exact entry_fits (h x hx)

theorem optional_keys (name : String) (v : Option Value) :
    ((optional name v).map Prod.fst).Sublist [.str (str name)] := by
  cases v with
  | none => exact List.nil_sublist _
  | some x => exact List.Sublist.refl _

end

section
variable {args : Args} {runtime : Runtime}

theorem provided_writable {p : Provided}
    (h : ∀ s, p = .role s ∨ p = .interface s ∨ p = .capability s → encodable s = true) :
    p.value.Writable 1 := by
  cases p with
  | role s =>
    refine writable_dict [str "role", str "exclusive"] (by decide) (List.Sublist.refl _) ?_
    simpa using ⟨entry_fits (writable_str (h s (.inl rfl))), entry_fits (writable_bool _)⟩
  | interface s =>
    refine writable_dict [str "interface", str "exclusive"] (by decide) (List.Sublist.refl _) ?_
    simpa using ⟨entry_fits (writable_str (h s (.inr (.inl rfl)))), entry_fits (writable_bool _)⟩
  | capability s =>
    refine writable_dict [str "capability", str "exclusive"] (by decide) (List.Sublist.refl _) ?_
    simpa using ⟨entry_fits (writable_str (h s (.inr (.inr rfl)))), entry_fits (writable_bool _)⟩

theorem provides_writable (h : Encodes args runtime) :
    ∀ p ∈ (args.componentItem runtime).provides, p.value.Writable 1 := by
  intro p hp
  refine provided_writable fun s hs => ?_
  have hmem : p ∈ args.roles.map .role ++ args.interfaces.map .interface ++
    args.capabilities.map .capability := hp
  rcases hs with rfl | rfl | rfl
  · exact h.roles s (by simpa using hmem)
  · exact h.interfaces s (by simpa using hmem)
  · exact h.capabilities s (by simpa using hmem)

theorem identity_writable (h : Encodes args runtime) :
    (Identity.value ⟨args.packageId, args.packageId, args.component⟩).Writable 1 := by
  refine writable_dict [str "app_id", str "x11_wm_class", str "x11_wm_instance"] (by decide)
    (List.Sublist.refl _) ?_
  simpa using ⟨entry_fits (writable_str h.packageId), entry_fits (writable_str h.packageId),
    entry_fits (writable_str h.component)⟩

theorem windowing_writable (h : Encodes args runtime) {w : Windowing}
    (hw : args.windowing = some w) : w.value.Writable 2 := by
  rw [Args.windowing] at hw
  split_ifs at hw with hg
  obtain rfl := Option.some.inj hw
  refine writable_dict [str "system", str "display", str "mode", str "title", str "identity"]
    (by decide) (List.Sublist.refl _) ?_
  simpa using ⟨entry_fits (writable_str (encodable_str _)), entry_fits (writable_str (h.display hg)),
    entry_fits (writable_str (h.windowMode hg)), entry_fits (writable_str h.displayName),
    entry_fits (identity_writable h)⟩

theorem readiness_writable (h : Encodes args runtime) :
    (Value.dict [entry "mode" (.str args.selectedReadiness),
      entry "timeout_ms" (.int (args.selectedTimeout runtime))]).Writable 2 := by
  have hint : (Value.int (args.selectedTimeout runtime)).Writable 1 := by
    unfold Value.Writable
    calc (args.selectedTimeout runtime).natAbs ≤ 300000 := h.timeout
      _ < 10 ^ 6 := by norm_num
      _ ≤ 10 ^ intMaxStrDigits := Nat.pow_le_pow_right (by norm_num) (by decide)
  refine writable_dict [str "mode", str "timeout_ms"] (by decide) (List.Sublist.refl _) ?_
  simpa using ⟨entry_fits (writable_str h.readiness), entry_fits hint⟩

theorem env_writable (runtime : Runtime) :
    (Value.dict ((runtimeCommand runtime).2.1.map fun e => (.str e.1, .str e.2))).Writable 2 := by
  obtain ⟨-, hall, hkeys⟩ := runtimeCommand_encodable runtime
  refine writable_dict _ hkeys ?_ ?_
  · rw [List.map_map, List.map_map]
    exact List.Sublist.refl _
  · refine List.forall_mem_map.mpr fun e he => ?_
    have hencodable := Bool.and_eq_true_iff.mp (List.all_eq_true.mp hall e he)
    exact ⟨⟨e.1, rfl, hencodable.1⟩, writable_str hencodable.2⟩

theorem grants_encodable (h : Encodes args runtime) : ∀ s ∈ args.grants, encodable s = true := by
  intro s hs
  rw [Args.grants] at hs
  split_ifs at hs
  · rcases List.mem_append.mp hs with hs | hs
    · exact h.permissions s hs
    · rw [List.mem_singleton.mp hs]
      exact encodable_str _
  · exact h.permissions s hs

theorem runtime_encodable (runtime : Runtime) : encodable runtime.text = true := by
  cases runtime <;> exact encodable_str _

theorem component_writable (h : Encodes args runtime) :
    (args.componentItem runtime).value.Writable 3 := by
  refine writable_dict ([str "id", str "name", str "runtime", str "exec", str "lifecycle",
    str "restart", str "readiness", str "isolation", str "activation"] ++ ([str "env"] ++
      ([str "provides"] ++ ([str "windowing"] ++ [str "permissions"])))) (by decide +kernel) ?_ ?_
  · rw [List.map_append, List.map_append, List.map_append, List.map_append]
    exact (List.Sublist.refl _).append ((optional_keys _ _).append ((optional_keys _ _).append
      ((optional_keys _ _).append (optional_keys _ _))))
  · simp only [List.forall_mem_append]
    refine ⟨?_, optional_fits fun v hv => ?_, optional_fits fun v hv => ?_,
      optional_fits fun v hv => ?_, optional_fits fun v hv => ?_⟩
    · have hactivation : (Value.dict [entry "launchable" (.bool args.isLaunchable)]).Writable 2 :=
        writable_dict [str "launchable"] (by decide) (List.Sublist.refl _)
          (by simpa using entry_fits (writable_bool _))
      simpa using ⟨entry_fits (writable_str h.component), entry_fits (writable_str h.displayName),
        entry_fits (writable_str (runtime_encodable runtime)),
        entry_fits (writable_strings h.command), entry_fits (writable_str h.lifecycle),
        entry_fits (writable_str h.restart), entry_fits (readiness_writable h),
        entry_fits (writable_str (encodable_str _)), entry_fits hactivation⟩
    · split_ifs at hv
      · cases hv
      · obtain rfl := Option.some.inj hv
        exact env_writable runtime
    · split_ifs at hv
      · cases hv
      · obtain rfl := Option.some.inj hv
        exact writable_list (List.forall_mem_map.mpr (provides_writable h))
    · obtain ⟨w, hw, rfl⟩ := Option.map_eq_some_iff.mp hv
      exact windowing_writable h hw
    · split_ifs at hv
      · cases hv
      · obtain rfl := Option.some.inj hv
        exact writable_strings (grants_encodable h)

theorem manifest_writable (h : Encodes args runtime) : (args.manifest runtime).value.Writable 5 := by
  have hsummary : encodable (args.displayName ++ str ", an MSYS " ++ runtime.text ++
      str " component") = true := by
    simp [h.displayName, runtime_encodable]
  have hpackage : (args.manifest runtime).package.value.Writable 4 := by
    refine writable_dict [str "id", str "name", str "version", str "kind", str "summary"]
      (by decide) (List.Sublist.refl _) ?_
    simpa using ⟨entry_fits (writable_str h.packageId), entry_fits (writable_str h.displayName),
      entry_fits (writable_str h.version), entry_fits (writable_str h.kind),
      entry_fits (writable_str hsummary)⟩
  refine writable_dict [str "schema", str "package", str "components"] (by decide)
    (List.Sublist.refl _) ?_
  simpa using ⟨entry_fits (writable_str (encodable_str _)), entry_fits hpackage,
    entry_fits (writable_list (List.forall_mem_singleton.mpr (component_writable h)))⟩

end

/-! ### The calls -/

/-- The job is that of an accepted manifest, and this is what it puts into the file. -/
def Delivers (u : UnicodeData) (py : Interpreter) (job : Job) (content : Bytes) : Prop :=
  job.payload = some content ∧ ∃ args m, createApplicationManifest u args = .ok m ∧
    job.text = m.text py ∧ loads py false content = .ok m.value

theorem exists_delivers {u : UnicodeData} {py : Interpreter} {args : Args} {m : Manifest} {job : Job}
    (h : createApplicationManifest u args = .ok m) (ht : job.text = m.text py) :
    ∃ content, Delivers u py job content := by
  obtain ⟨runtime, rfl, hencodes⟩ := create_encodes h
  have hlimit : 5 ≤ py.recursionLimit := (by decide : 5 ≤ 8).trans py.recursionLimit_pos
  obtain ⟨s, content, hs, hencode, hloads⟩ := (manifest_writable hencodes).round_trip hlimit 2
  have htext : (args.manifest runtime).text py = some (s ++ [ch '\n']) := by
    rw [Manifest.text, hs]
  exact ⟨content, by rw [Job.payload_of_text (ht.trans htext), hencode], args, _, h, ht, hloads⟩

/-- Every call is given a manifest that `create_application_manifest` returned; `other` holds of
what other processes put into the file. -/
def Commanded (u : UnicodeData) (py : Interpreter) (other : Bytes → Prop) : State → Action → Prop
  | _, .start _ job => ∃ args m, createApplicationManifest u args = .ok m ∧ job.text = m.text py
  | _, .otherCreates content => other content
  | _, _ => True

section
variable (u : UnicodeData) (py : Interpreter) (path : Str)

/-- What a call knows, given its temporary file. -/
def Ready (temporary : Option Bytes) : Pc → Prop
  | .absent => True
  | .test job | .prepare job | .unlink job | .returned job => ∃ content, Delivers u py job content
  | .create job text | .write job text =>
    job.text = some text ∧ ∃ content, Delivers u py job content
  | .replace job => ∃ content, temporary = some content ∧ Delivers u py job content
  | .raised _ e => e = refusal path

/-- The call has put this into the file. -/
def Put (content : Bytes) : Pc → Prop
  | .unlink job | .returned job => Delivers u py job content
  | _ => False

structure Served (other : Bytes → Prop) (file : Option Bytes) (temporary : Nat → Option Bytes)
    (caller : Nat → Pc) : Prop where
  ready : ∀ k, Ready u py path (temporary k) (caller k)
  content : ∀ data, file = some data → other data ∨ ∃ k, Put u py data (caller k)

variable {u py path} {other : Bytes → Prop} {file : Option Bytes}
  {temporary temporary' : Nat → Option Bytes} {caller : Nat → Pc} {k : Nat}

theorem Served.ready_at {pc : Pc} (h : Served u py path other file temporary caller)
    (hpc : caller k = pc) : Ready u py path (temporary k) pc := hpc ▸ h.ready k

theorem ready_update {pc : Pc} (h : Served u py path other file temporary caller)
    (hothers : ∀ j, j ≠ k → temporary' j = temporary j) (hready : Ready u py path (temporary' k) pc) :
    ∀ j, Ready u py path (temporary' j) (Function.update caller k pc j) := by
  intro j
  rcases eq_or_ne j k with rfl | hne
  · rw [Function.update_self]
    exact hready
  · rw [Function.update_of_ne hne, hothers j hne]
    exact h.ready j

/-- One call moves and the file stays. -/
theorem Served.move {pc : Pc} (h : Served u py path other file temporary caller)
    (hothers : ∀ j, j ≠ k → temporary' j = temporary j) (hready : Ready u py path (temporary' k) pc)
    (hput : ∀ data, Put u py data (caller k) → Put u py data pc) :
    Served u py path other file temporary' (Function.update caller k pc) := by
  refine ⟨ready_update h hothers hready, fun data hdata => (h.content data hdata).imp_right ?_⟩
  rintro ⟨j, hj⟩
  rcases eq_or_ne j k with rfl | hne
  · exact ⟨j, by rw [Function.update_self]; exact hput data hj⟩
  · exact ⟨j, by rwa [Function.update_of_ne hne]⟩

/-- A call that has put nothing into the file so far. -/
theorem put_of_eq {pc pc' : Pc} (hpc : caller k = pc) (hnone : ∀ data, ¬Put u py data pc) :
    ∀ data, Put u py data (caller k) → Put u py data pc' := by
  rw [hpc]
  exact fun data h => absurd h (hnone data)

end

theorem Served.step {u : UnicodeData} {py : Interpreter} {path : Str} {other : Bytes → Prop}
    {s s' : State} {a : Action} (h : Step path s a s') (hok : Commanded u py other s a)
    (hi : Served u py path other s.file s.temporary s.caller) :
    Served u py path other s'.file s'.temporary s'.caller := by
  have hsame : ∀ {k : Nat} (j : Nat), j ≠ k → s.temporary j = s.temporary j := fun _ _ => rfl
  have hupdate : ∀ {k : Nat} {c : Option Bytes} (j : Nat), j ≠ k →
      Function.update s.temporary k c j = s.temporary j := fun _ hne => Function.update_of_ne hne _ _
  cases h with
  | start pc =>
    obtain ⟨args, m, hm, ht⟩ := hok
    exact hi.move hsame (exists_delivers hm ht) (put_of_eq pc fun _ => id)
  | refused pc => exact hi.move hsame rfl (put_of_eq pc fun _ => id)
  | admitted pc =>
    have hready : ∃ content, Delivers u py _ content := hi.ready_at pc
    exact hi.move hsame hready (put_of_eq pc fun _ => id)
  | prepared pc ht =>
    have hready : ∃ content, Delivers u py _ content := hi.ready_at pc
    exact hi.move hsame ⟨ht, hready⟩ (put_of_eq pc fun _ => id)
  | unprepared pc ht =>
    -- there is a text
    obtain ⟨content, hpayload, -⟩ : ∃ content, Delivers u py _ content := hi.ready_at pc
    rw [Job.payload, ht] at hpayload
    cases hpayload
  | created pc => exact hi.move hupdate (hi.ready_at pc) (put_of_eq pc fun _ => id)
  | @written k job text data pc hb =>
    obtain ⟨ht, content, hdelivers⟩ := hi.ready_at pc
    have hdata : data = content := by
      have hpayload := hdelivers.1
      rw [Job.payload_of_text ht, hb] at hpayload
      exact Option.some.inj hpayload
    refine hi.move hupdate ⟨content, ?_, hdelivers⟩ (put_of_eq pc fun _ => id)
    show Function.update s.temporary k (some data) k = some content
    rw [Function.update_self, hdata]
  | @unwritten k job text pc hb =>
    -- the text can be encoded
    obtain ⟨ht, content, hpayload, -⟩ := hi.ready_at pc
    rw [Job.payload_of_text ht, hb] at hpayload
    cases hpayload
  | @replaced k job content pc ht =>
    obtain ⟨content', htemporary, hdelivers⟩ := hi.ready_at pc
    obtain rfl : content = content' := Option.some.inj (ht.symm.trans htemporary)
    refine ⟨ready_update hi hupdate ⟨content, hdelivers⟩, fun data hdata => .inr ⟨k, ?_⟩⟩
    obtain rfl := Option.some.inj hdata
    show Put u py content (Function.update s.caller k (.unlink job) k)
    rw [Function.update_self]
    exact hdelivers
  | lost pc ht =>
    obtain ⟨content, htemporary, -⟩ := hi.ready_at pc
    rw [ht] at htemporary
    cases htemporary
  | unlinked pc =>
    refine hi.move hupdate (hi.ready_at pc) fun data hput => ?_
    rw [pc] at hput
    exact hput
  | otherCreates =>
    refine ⟨hi.ready, fun data hdata => .inl ?_⟩
    obtain rfl := Option.some.inj hdata
    exact hok

theorem reach_served {u : UnicodeData} {py : Interpreter} {path : Str} {other : Bytes → Prop}
    {s : State} (h : Reach (step path) (Commanded u py other) init s) :
    Served u py path other s.file s.temporary s.caller := by
  refine h.invariant (P := fun s => Served u py path other s.file s.temporary s.caller) ?_
    fun _ _ _ hi hok hs => Served.step (step_sound hs) hok hi
  exact ⟨fun _ => trivial, fun data hdata => by cases hdata⟩

/-- At any moment of any run, with calls forced or not: what is in the file was put there by another
process, or it is the whole text of the manifest of one of the callers, which `json.loads` reads
from it. A call raises nothing but the refusal. -/
theorem file_reads_back {u : UnicodeData} {py : Interpreter} {path : Str} {other : Bytes → Prop}
    {s : State} (h : Reach (step path) (Commanded u py other) init s) :
    (∀ content, s.file = some content → other content ∨ ∃ k job args m,
      (s.caller k = .unlink job ∨ s.caller k = .returned job) ∧ job.payload = some content ∧
        createApplicationManifest u args = .ok m ∧ job.text = m.text py ∧
          loads py false content = .ok m.value) ∧
    ∀ k job e, s.caller k = .raised job e → e = refusal path := by
  have hs := reach_served h
  refine ⟨fun content hfile => (hs.content content hfile).imp_right ?_,
    fun k job e pc => hs.ready_at pc⟩
  rintro ⟨k, hput⟩
  cases pc : s.caller k with
  | unlink job =>
    rw [pc] at hput
    obtain ⟨hpayload, args, m, hm, ht, hloads⟩ := hput
    exact ⟨k, job, args, m, .inl pc, hpayload, hm, ht, hloads⟩
  | returned job =>
    rw [pc] at hput
    obtain ⟨hpayload, args, m, hm, ht, hloads⟩ := hput
    exact ⟨k, job, args, m, .inr pc, hpayload, hm, ht, hloads⟩
  | _ =>
    rw [pc] at hput
    exact hput.elim

/-- A call that nobody disturbs. -/
theorem reach_alone {u : UnicodeData} {py : Interpreter} {path : Str} {other : Bytes → Prop}
    {args : Args} {m : Manifest} (h : createApplicationManifest u args = .ok m) :
    ∃ s job content, Reach (step path) (Commanded u py other) init s ∧
      s.caller 0 = .returned job ∧ s.file = some content := by
  obtain ⟨content, hdelivers⟩ :=
    exists_delivers h (rfl : (⟨m.text py, false⟩ : Job).text = m.text py)
  obtain ⟨text, ht, hb⟩ : ∃ text, m.text py = some text ∧ encodeUtf8 text = some content :=
    Option.bind_eq_some_iff.mp hdelivers.1
  have hrun : ∃ s, run (step path) init [.start 0 ⟨m.text py, false⟩, .existsTest 0, .prepare 0,
      .createTemporary 0, .writeTemporary 0, .replaceFile 0, .unlink 0] = some s ∧
        s.caller 0 = .returned ⟨m.text py, false⟩ ∧ s.file = some content := by
    simp [run, step, start, existsTest, prepare, createTemporary, writeTemporary, replaceFile,
      unlink, init, State.setCaller, State.setTemporary, ht, hb]
  obtain ⟨s, hs, hreturned, hfile⟩ := hrun
  refine ⟨s, _, content, Reach.start.follow hs ?_, hreturned, hfile⟩
  simp only [List.forall_mem_cons, Commanded, implies_true]
  exact ⟨fun _ => ⟨args, m, h, rfl⟩, by simp⟩

/-- The manifest of an application for Qt, written and read. -/
theorem file_reads_back_qt : ∃ s content,
    Reach (step (str "manifest.json")) (Commanded .ascii plain fun _ => False) init s ∧
      s.file = some content ∧ ∃ args m, createApplicationManifest .ascii args = .ok m ∧
        (m.text plain).bind encodeUtf8 = some content ∧
          loads plain false content = .ok m.value := by
  obtain ⟨m, hm⟩ : ∃ m, createApplicationManifest .ascii
      (.plain (str "org.example.write-it") (str "qt")) = .ok m := by
    refine ⟨Args.manifest (.plain (str "org.example.write-it") (str "qt")) .qt, ?_⟩
    decide +kernel
  obtain ⟨s, job, content, hreach, -, hfile⟩ := reach_alone hm
  obtain ⟨-, job, args, m', -, hpayload, hm', ht, hloads⟩ :=
    ((file_reads_back hreach).1 content hfile).resolve_left id
  exact ⟨s, content, hreach, hfile, args, m', hm', by rw [← ht]; exact hpayload, hloads⟩

end Msys.AppManifest
