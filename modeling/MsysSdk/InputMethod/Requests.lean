import MsysSdk.InputMethod.Worker

/-! While the binding is open no request is lost, calls go out in the order of the requests, and
what is desired in the end is what the last call asked for. -/

namespace Msys.InputMethod
open Python Transition

/-- The call that a worker has taken and not yet started. -/
def WorkerPc.taken? : WorkerPc → Option Call
  | .taken c => some c
  | _ => none

def WorkerPc.calling? : WorkerPc → Option Call
  | .calling c => some c
  | _ => none

/-- The call that a worker has in hand. -/
def WorkerPc.call? : WorkerPc → Option Call
  | .taken c | .calling c | .failed c _ => some c
  | _ => none

theorem WorkerPc.alive_of_call {pc : WorkerPc} {c : Call} (h : pc.call? = some c) :
    pc.alive = true := by
  cases pc <;> first | rfl | cases h

theorem WorkerPc.without_call {pc : WorkerPc} (h : pc.call? = none) :
    pc.taken? = none ∧ pc.calling? = none := by
  cases pc <;> first | exact ⟨rfl, rfl⟩ | cases h

/-- What is desired when all is quiet: nothing at first, and after a failed call. -/
def Settled (finished : List (Call × Option Str)) (desired : Option Request) : Prop :=
  (finished = [] ∧ desired = none) ∨
    ∃ c error, finished.getLast? = some (c, error) ∧
      ((error = none ∧ desired = some c.request) ∨ (error ≠ none ∧ desired = none))

/-- What holds of an open binding whose worker is at `pc`. -/
structure Flow (pc : WorkerPc) (s : State) : Prop where
  pending : ∀ r, s.pending = some r → s.workerRunning = true ∧ s.desired = some r
  taken : s.taken = pc.taken?
  own : ∀ c ∈ s.issued ++ s.taken.toList, c.desired = some c.request
  order : ((s.issued ++ s.taken.toList).map Call.request ++ s.pending.toList).Sublist s.accepted
  issued : s.issued = s.finished.map Prod.fst ++ pc.calling?.toList
  failed : ∀ c text, pc = .failed c text → s.finished.getLast? = some (c, some text)
  inHand : ∀ c, pc.call? = some c → s.pending = none → s.desired = some c.request
  settled : pc.call? = none → s.pending = none → Settled s.finished s.desired

theorem flow_init (pc : WorkerPc) (h : pc.call? = none) : Flow pc init where
  pending := by simp [init]
  taken := (WorkerPc.without_call h).1.symm
  own := by simp [init]
  order := List.Sublist.refl []
  issued := by
    rw [(WorkerPc.without_call h).2]
    rfl
  failed := by
    rintro c text rfl
    cases h
  inHand c hc := by
    rw [h] at hc
    cases hc
  settled _ _ := .inl ⟨rfl, rfl⟩

/-- A request is let in. -/
theorem Flow.accept {pc : WorkerPc} {s : State} {r : Request} {requester : Nat → RequestPc}
    (h : Flow pc s) :
    Flow pc { s with
      requester := requester
      desired := some r
      pending := some r
      workerRunning := true
      accepted := s.accepted ++ [r] } where
  pending _ hq := ⟨rfl, hq⟩
  taken := h.taken
  own := h.own
  order := ((List.sublist_append_left _ _).trans h.order).append (List.Sublist.refl [r])
  issued := h.issued
  failed := h.failed
  inHand _ _ hp := by cases hp
  settled _ hp := by cases hp

/-- What no request and no call has touched. -/
theorem Flow.frame {pc : WorkerPc} {s : State} {requester : Nat → RequestPc}
    {worker : Nat → WorkerPc} {closer : ClosePc} {closed : Bool} {lastError : Option Str}
    (h : Flow pc s) :
    Flow pc { s with
      requester := requester
      worker := worker
      closer := closer
      closed := closed
      lastError := lastError } :=
  ⟨h.pending, h.taken, h.own, h.order, h.issued, h.failed, h.inHand, h.settled⟩

/-- A worker without a call goes on without one. -/
theorem Flow.move {pc pc' : WorkerPc} {s : State} {requester : Nat → RequestPc}
    {worker : Nat → WorkerPc} {lastError : Option Str} (h : Flow pc s) (hpc : pc.call? = none)
    (hpc' : pc'.call? = none) :
    Flow pc' { s with requester := requester, worker := worker, lastError := lastError } where
  pending := h.pending
  taken := by rw [h.taken, (WorkerPc.without_call hpc).1, (WorkerPc.without_call hpc').1]
  own := h.own
  order := h.order
  issued := by rw [h.issued, (WorkerPc.without_call hpc).2, (WorkerPc.without_call hpc').2]
  failed := by
    rintro c text rfl
    cases hpc'
  inHand c hc := by
    rw [hpc'] at hc
    cases hc
  settled _ := h.settled hpc

theorem Flow.take {s : State} {worker : Nat → WorkerPc} {r : Request} (h : Flow .loop s)
    (hp : s.pending = some r) :
    Flow (.taken ⟨r, s.desired⟩) { s with
      worker := worker
      pending := none
      taken := some ⟨r, s.desired⟩ } := by
  obtain ⟨-, hd⟩ := h.pending r hp
  have htaken : s.taken = none := h.taken
  have horder := h.order
  rw [htaken, hp] at horder
  refine ⟨by simp, rfl, fun c hc => ?_, ?_, h.issued, by simp, fun c hc _ => ?_, by
    simp [WorkerPc.call?]⟩
  · rcases List.mem_append.mp hc with hc | hc
    · exact h.own c (List.mem_append_left _ hc)
    · rw [Option.toList_some, List.mem_singleton] at hc
      rw [hc]
      exact hd
  · simpa using horder
  · cases hc
    exact hd

theorem Flow.exit {s : State} {worker : Nat → WorkerPc} (h : Flow .loop s) (hp : s.pending = none) :
    Flow .ended { s with worker := worker, pending := none, workerRunning := false } := by
  have horder := h.order
  have hsettled := h.settled rfl hp
  rw [hp] at horder
  exact ⟨by simp, h.taken, h.own, horder, h.issued, by simp, by simp [WorkerPc.call?],
    fun _ _ => hsettled⟩

theorem Flow.call {s : State} {worker : Nat → WorkerPc} {c : Call} (h : Flow (.taken c) s) :
    Flow (.calling c)
      { s with worker := worker, taken := none, issued := s.issued ++ [c] } := by
  have htaken : s.taken = some c := h.taken
  have hissued : s.issued = s.finished.map Prod.fst := h.issued.trans (List.append_nil _)
  have hown := h.own
  have horder := h.order
  rw [htaken, Option.toList_some] at hown horder
  refine ⟨h.pending, rfl, by simpa using hown, by simpa using horder, ?_, by simp,
    fun d hd hp => h.inHand d hd hp, by simp [WorkerPc.call?]⟩
  show s.issued ++ [c] = s.finished.map Prod.fst ++ [c]
  rw [hissued]

/-- The call has ended, so all that was started has. -/
theorem Flow.finish {s : State} {worker : Nat → WorkerPc} {c : Call} {error : Option Str} {pc : WorkerPc}
    (h : Flow (.calling c) s) (hpc : pc.taken? = none ∧ pc.calling? = none)
    (hfailed : ∀ d text, pc = .failed d text → d = c ∧ error = some text)
    (hcall : pc.call? = none → error = none) :
    Flow pc { s with worker := worker, finished := s.finished ++ [(c, error)] } where
  pending := h.pending
  taken := h.taken.trans hpc.1.symm
  own := h.own
  order := h.order
  issued := by
    have hissued : s.issued = s.finished.map Prod.fst ++ [c] := h.issued
    rw [hpc.2, List.map_append]
    simpa using hissued
  failed d text he := by
    obtain ⟨rfl, rfl⟩ := hfailed d text he
    exact List.getLast?_concat
  inHand d hd hp := by
    cases pc with
    | failed e text =>
      obtain ⟨rfl, -⟩ := hfailed e text rfl
      cases hd
      exact h.inHand _ rfl hp
    | taken e => cases hpc.1
    | calling e => cases hpc.2
    | _ => cases hd
  settled hd hp :=
    .inr ⟨c, error, List.getLast?_concat, .inl ⟨hcall hd, h.inHand c rfl hp⟩⟩

theorem Flow.reset {s : State} {c : Call} {text : Str} {worker : Nat → WorkerPc} (h : Flow (.failed c text) s)
    (hp : s.pending = none) : Flow (.reporting text)
      { s with worker := worker, lastError := some text, desired := none } where
  pending r hr := by cases hp.symm.trans hr
  taken := h.taken
  own := h.own
  order := h.order
  issued := h.issued
  failed := by simp
  inHand := by simp [WorkerPc.call?]
  settled _ _ := .inr ⟨c, some text, h.failed c text rfl, .inr ⟨by simp, rfl⟩⟩

/-- A failed call whose request is no longer desired: another one is pending. -/
theorem Flow.kept {s : State} {c : Call} {text : Str} {worker : Nat → WorkerPc}
    (h : Flow (.failed c text) s) (hn : ¬(s.desired = some c.request ∧ s.pending = none)) :
    Flow (.reporting text) { s with worker := worker, lastError := some text } where
  pending := h.pending
  taken := h.taken
  own := h.own
  order := h.order
  issued := h.issued
  failed := by simp
  inHand := by simp [WorkerPc.call?]
  settled _ hp := absurd ⟨h.inHand c rfl hp, hp⟩ hn

/-! ### Runs -/

/-- Where the one worker stands, if there is one. -/
structure Phase (worker : Nat → WorkerPc) (pc : WorkerPc) : Prop where
  here : ∀ w, (worker w).alive = true → worker w = pc
  exists_worker : pc.alive = true → ∃ w, worker w = pc

theorem Phase.of_worker {worker : Nat → WorkerPc} {pc : WorkerPc} {w : Nat}
    (h : Phase worker pc) (hw : (worker w).alive = true) : pc = worker w :=
  (h.here w hw).symm

theorem Phase.update {running : Bool} {requester : Nat → RequestPc} {worker : Nat → WorkerPc}
    {w : Nat} (hs : Sole running requester worker) (hw : (worker w).alive = true)
    (pc : WorkerPc) : Phase (Function.update worker w pc) pc where
  here _ hv := (hs.only hw hv rfl).2.symm
  exists_worker _ := ⟨w, Function.update_self ..⟩

/-- A worker is started where there is none. -/
theorem Phase.spawn {running : Bool} {requester : Nat → RequestPc} {worker : Nat → WorkerPc}
    {k : Nat} {pc : WorkerPc} (h : Phase worker pc) (hs : Sole running requester worker)
    (hk : requester k = .starting) :
    Phase (Function.update worker k .loop) .loop ∧ pc.call? = none := by
  have hnone : ∀ w, (worker w).alive = true → False := by
    intro w hw
    obtain rfl := hs.unique w k (.inr hw) (.inl hk)
    cases (hs.returned hw).symm.trans hk
  refine ⟨⟨fun v hv => ?_, fun _ => ⟨k, Function.update_self ..⟩⟩, ?_⟩
  · rcases eq_or_ne v k with rfl | hne
    · exact Function.update_self ..
    · rw [Function.update_of_ne hne] at hv
      exact absurd hv (hnone v)
  · by_contra hcall
    obtain ⟨c, hc⟩ := Option.ne_none_iff_exists'.mp hcall
    obtain ⟨w, rfl⟩ := h.exists_worker (WorkerPc.alive_of_call hc)
    exact hnone w (WorkerPc.alive_of_call hc)

/-- The worker of an open binding, and what holds of the binding then. -/
def Flows (s : State) : Prop :=
  s.closed = false → ∃ pc, Phase s.worker pc ∧ Flow pc s

theorem Flows.step {cfg : Config} {s s' : State} {a : Action} (h : Step cfg s a s')
    (hs : Sole s.workerRunning s.requester s.worker)
    (hb : s.closer.before = !s.closed) (hi : Flows s) : Flows s' := by
  intro hc
  have hopen := h.open_of hc
  obtain ⟨pc, hphase, hflow⟩ := hi hopen
  -- the worker that moves is the one the invariant speaks of
  have at_worker : ∀ {w p}, s.worker w = p → p.alive = true →
      Flow p s ∧ ∀ q, Phase (Function.update s.worker w q) q := by
    rintro w p rfl hp
    exact ⟨hphase.of_worker hp ▸ hflow, fun q => Phase.update hs hp q⟩
  cases h with
  | joined => exact ⟨pc, hphase, hflow.accept⟩
  | started => exact ⟨pc, hphase, hflow.accept⟩
  | spawn hk =>
    obtain ⟨hloop, hcall⟩ := hphase.spawn hs hk
    exact ⟨.loop, hloop, hflow.move hcall rfl⟩
  | take hw hp =>
    obtain ⟨hf, hup⟩ := at_worker hw rfl
    exact ⟨_, hup _, hf.take hp⟩
  | exit hw hp =>
    obtain ⟨hf, hup⟩ := at_worker hw rfl
    exact ⟨_, hup _, hf.exit (hp.resolve_right (by simp [hopen]))⟩
  | call hw =>
    obtain ⟨hf, hup⟩ := at_worker hw rfl
    exact ⟨_, hup _, hf.call⟩
  | succeeded hw =>
    obtain ⟨hf, hup⟩ := at_worker hw rfl
    exact ⟨_, hup _, hf.finish ⟨rfl, rfl⟩ (by simp) fun _ => rfl⟩
  | failed hw =>
    obtain ⟨hf, hup⟩ := at_worker hw rfl
    exact ⟨_, hup _, hf.finish ⟨rfl, rfl⟩ (by simp) (by simp [WorkerPc.call?])⟩
  | noted hw =>
    obtain ⟨hf, hup⟩ := at_worker hw rfl
    exact ⟨_, hup _, hf.move rfl rfl⟩
  | reset hw hd hp =>
    obtain ⟨hf, hup⟩ := at_worker hw rfl
    exact ⟨_, hup _, hf.reset hp⟩
  | kept hw hn =>
    obtain ⟨hf, hup⟩ := at_worker hw rfl
    exact ⟨_, hup _, hf.kept hn⟩
  | reported hw =>
    obtain ⟨hf, hup⟩ := at_worker hw rfl
    exact ⟨_, hup _, hf.move rfl rfl⟩
  | closeHide | closeQuiet => cases hc
  | closeCall hcloser =>
    rw [hcloser, hopen] at hb
    cases hb
  | _ => exact ⟨pc, hphase, hflow.frame⟩

theorem reach_flows {cfg : Config} {ok : State → Action → Prop} {s : State}
    (h : Reach (step cfg) ok init s) : Flows s := by
  refine h.invariant_of (P := Flows) (fun _ hr => And.intro (reach_sole hr) (reach_before hr))
    (fun _ => ?_) fun _ _ _ hq hi _ hs => Flows.step (step_sound hs) hq.1 hq.2 hi
  exact ⟨.absent, ⟨(by rintro _ ⟨⟩), (by rintro ⟨⟩)⟩, flow_init _ rfl⟩

/-- What the one worker of an open binding guarantees. A worker runs from the moment its request
has raised the flag. -/
structure Served (s : State) : Prop where
  one_worker : ∀ k l, Live s.requester s.worker k → Live s.requester s.worker l → k = l
  one_call : s.closer ≠ .calling ∧
    ∀ v w c d, s.worker v = .calling c → s.worker w = .calling d → v = w
  flag : s.workerRunning = true ↔ ∃ k, Live s.requester s.worker k
  pending : s.pending ≠ none → ∃ k, Live s.requester s.worker k
  own : ∀ c ∈ s.issued, c.desired = some c.request
  order : (s.issued.map Call.request).Sublist s.accepted
  settled : (∀ k, ¬Live s.requester s.worker k) →
    s.issued = s.finished.map Prod.fst ∧
    ((s.issued = [] ∧ s.desired = none) ∨ ∃ c error, s.finished.getLast? = some (c, error) ∧
      ((error = none ∧ s.desired = some c.request) ∨
        (error ≠ none ∧ s.desired = none ∧ ∀ r force, ¬Suppressed s r force)))

theorem worker_converges {cfg : Config} {s : State} (h : Reach (step cfg) Any init s)
    (hopen : s.closed = false) : Served s := by
  have hs := reach_sole h
  have hbefore := reach_before h
  obtain ⟨pc, hphase, hflow⟩ := reach_flows h hopen
  have hpending : s.pending ≠ none → s.workerRunning = true := by
    intro hp
    obtain ⟨r, hr⟩ := Option.ne_none_iff_exists'.mp hp
    exact (hflow.pending r hr).1
  refine ⟨hs.unique, ⟨?_, ?_⟩, ⟨hs.live, ?_⟩, fun hp => hs.live (hpending hp), ?_, ?_, ?_⟩
  · intro hcloser
    rw [hcloser, hopen] at hbefore
    cases hbefore
  · intro v w c d hv hw
    apply hs.unique v w
    · exact .inr (by rw [hv]; rfl)
    · exact .inr (by rw [hw]; rfl)
  · rintro ⟨k, hk⟩
    exact hs.flag k hk
  · exact fun c hc => hflow.own c (List.mem_append_left _ hc)
  · refine List.Sublist.trans ?_ hflow.order
    rw [List.map_append, List.append_assoc]
    exact List.sublist_append_left _ _
  · intro hnone
    have hcall : pc.call? = none := by
      by_contra hcall
      obtain ⟨c, hc⟩ := Option.ne_none_iff_exists'.mp hcall
      obtain ⟨w, hw⟩ := hphase.exists_worker (WorkerPc.alive_of_call hc)
      exact hnone w (.inr (by rw [hw]; exact WorkerPc.alive_of_call hc))
    have hquiet : s.pending = none := by
      by_contra hp
      obtain ⟨k, hk⟩ := hs.live (hpending hp)
      exact hnone k hk
    have hissued : s.issued = s.finished.map Prod.fst := by
      have hi := hflow.issued
      rw [(WorkerPc.without_call hcall).2] at hi
      exact hi.trans (List.append_nil _)
    refine ⟨hissued, ?_⟩
    rcases hflow.settled hcall hquiet with ⟨hnil, hd⟩ | ⟨c, error, hlast, hd⟩
    · rw [hnil] at hissued
      exact .inl ⟨hissued, hd⟩
    · refine .inr ⟨c, error, hlast, ?_⟩
      rcases hd with hd | ⟨herror, hd⟩
      · exact .inl hd
      · refine .inr ⟨herror, hd, ?_⟩
        rintro r force ⟨hr, -⟩
        cases hd.symm.trans hr

/-- A show that fails, with nothing after it. -/
def failedShow : List Action :=
  [.queueStart 0 ⟨true, str "en"⟩ false, .queueTest 0, .queueLock 0, .queueSpawn 0, .workerTake 0,
    .workerCall 0, .workerReturn 0 (some (str "role failed")), .workerNote 0, .workerReport 0,
    .workerTake 0]

def plainConfig : Config := ⟨.ascii, 6, 2⟩

theorem worker_converges_failed_show :
    ∃ s, run (step plainConfig) init failedShow = some s ∧ s.issued ≠ [] ∧ s.desired = none ∧
      Served s := by
  have hrun : ∃ s, run (step plainConfig) init failedShow = some s ∧ s.closed = false ∧
      s.issued ≠ [] ∧ s.desired = none := ⟨_, rfl, rfl, List.cons_ne_nil _ _, rfl⟩
  obtain ⟨s, hs, hopen, hissued, hdesired⟩ := hrun
  exact ⟨s, hs, hissued, hdesired, worker_converges (.of_run hs) hopen⟩

end Msys.InputMethod
