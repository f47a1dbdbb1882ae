import MsysSdk.InputMethod.Requests

/-! `close` against the worker: which of their calls is the last one. -/

namespace Msys.InputMethod
open Python Transition

/-- Every `role_call` succeeds, and `close` is asked to hide. -/
def Smooth : Action → Prop
  | .workerReturn _ error | .closeReturn error => error = none
  | .closeStart requestHide => requestHide = true
  | _ => True

/-- The call that is the last one if the worker takes nothing more. -/
def latest (s : State) : Option Call :=
  s.taken.or s.issued.getLast?

def Shows (call : Option Call) : Prop :=
  ∃ c, call = some c ∧ c.request.visible = true

/-- `close` does not drop a hide that waits behind a show, and does not hide before a show that
the worker has taken. -/
def Careful (s : State) : Action → Prop
  | .closeLock => closeShown s = false → s.pending ≠ none → ¬Shows (latest s)
  | .closeCall => ¬Shows s.taken
  | _ => True

theorem shows_some {c : Call} : Shows (some c) ↔ c.request.visible = true := by
  simp [Shows]

theorem not_shows_none : ¬Shows none := by
  simp [Shows]

/-! ### Runs without failures -/

/-- No call has failed so far. -/
structure Calm (s : State) : Prop where
  worker : ∀ w, (∀ c text, s.worker w ≠ .failed c text) ∧ ∀ text, s.worker w ≠ .reporting text
  finished : ∀ p ∈ s.finished, p.2 = none
  closer : (∀ text, s.closer ≠ .failed text) ∧ ∀ b, s.closer = .lock b → b = true

theorem Calm.worker_update {s : State} (h : Calm s) {w : Nat} {pc : WorkerPc}
    (hfailed : ∀ c text, pc ≠ .failed c text) (hreporting : ∀ text, pc ≠ .reporting text)
    (v : Nat) : (∀ c text, Function.update s.worker w pc v ≠ .failed c text) ∧
      ∀ text, Function.update s.worker w pc v ≠ .reporting text := by
  rcases eq_or_ne v w with rfl | hne
  · rw [Function.update_self]
    exact ⟨hfailed, hreporting⟩
  · rw [Function.update_of_ne hne]
    exact h.worker v

theorem Calm.step {cfg : Config} {s s' : State} {a : Action} (hok : Smooth a)
    (h : Step cfg s a s') (hi : Calm s) : Calm s' := by
  cases h with
  | spawn | take | exit | call | noted =>
    exact ⟨hi.worker_update (by simp) (by simp), hi.finished, hi.closer⟩
  | succeeded =>
    refine ⟨hi.worker_update (by simp) (by simp), fun p hp => ?_, hi.closer⟩
    rcases List.mem_append.mp hp with hp | hp
    · exact hi.finished p hp
    · rw [List.mem_singleton.mp hp]
  | failed => cases hok
  | reset pc | kept pc => exact absurd pc ((hi.worker _).1 _ _)
  | reported pc => exact absurd pc ((hi.worker _).2 _)
  | closeStart pc =>
    refine ⟨hi.worker, hi.finished, ?_, fun b hb => ?_⟩
    · intro text
      split_ifs <;> simp
    · split_ifs at hb
      cases hb
      exact hok
  | closeHide | closeQuiet | closeCall | closeReturned | closeReported =>
    exact ⟨hi.worker, hi.finished, by simp, by simp⟩
  | closeFailed => cases hok
  | closeNoted pc => exact absurd pc (hi.closer.1 _)
  | _ => exact ⟨hi.worker, hi.finished, hi.closer⟩

theorem reach_calm {cfg : Config} {ok : State → Action → Prop} {s : State}
    (hok : ∀ s a, ok s a → Smooth a) (h : Reach (step cfg) ok init s) : Calm s := by
  refine h.invariant (P := Calm) ?_ fun s a _ hi ha hs => hi.step (hok s a ha) (step_sound hs)
  exact ⟨by simp [init], by simp [init], by simp [init]⟩

/-! ### The call that a worker holds -/

def Held (taken : Option Call) (worker : Nat → WorkerPc) : Prop :=
  ∀ c, taken = some c ↔ ∃ w, worker w = .taken c

section
variable {taken : Option Call} {worker : Nat → WorkerPc} {w : Nat} {pc : WorkerPc}

/-- A worker that holds no call goes on without one. -/
theorem Held.worker_update (h : Held taken worker) (hold : (worker w).taken? = none)
    (hpc : pc.taken? = none) : Held taken (Function.update worker w pc) := by
  intro c
  rw [h c]
  apply exists_congr
  intro v
  rcases eq_or_ne v w with rfl | hne
  · rw [Function.update_self]
    constructor
    · intro hv
      rw [hv] at hold
      cases hold
    · rintro rfl
      cases hpc
  · rw [Function.update_of_ne hne]

theorem Held.take {running : Bool} {requester : Nat → RequestPc}
    (hs : Sole running requester worker) (hw : (worker w).alive = true) {c : Call} :
    Held (some c) (Function.update worker w (.taken c)) := by
  intro d
  constructor
  · rintro ⟨⟩
    exact ⟨w, Function.update_self ..⟩
  · rintro ⟨v, hv⟩
    obtain ⟨-, heq⟩ := hs.only hw rfl hv
    cases heq
    rfl

theorem Held.call {running : Bool} {requester : Nat → RequestPc}
    (hs : Sole running requester worker) (hw : (worker w).alive = true)
    (hpc : pc.taken? = none) : Held none (Function.update worker w pc) := by
  intro d
  constructor
  · rintro ⟨⟩
  · rintro ⟨v, hv⟩
    obtain ⟨-, rfl⟩ := hs.only hw rfl hv
    cases hpc

end

theorem Held.step {cfg : Config} {s s' : State} {a : Action} (h : Step cfg s a s')
    (hs : Sole s.workerRunning s.requester s.worker) (hi : Held s.taken s.worker) :
    Held s'.taken s'.worker := by
  cases h with
  | spawn pc =>
    refine hi.worker_update ?_ rfl
    rw [hs.fresh _ (by rw [pc]; simp)]
    rfl
  | take pc => exact Held.take hs (by rw [pc]; rfl)
  | call pc => exact Held.call hs (by rw [pc]; rfl) rfl
  | exit pc | succeeded pc | failed pc | noted pc | reset pc | kept pc | reported pc =>
    exact hi.worker_update (by rw [pc]; rfl) rfl
  | _ => exact hi

theorem reach_held {cfg : Config} {ok : State → Action → Prop} {s : State}
    (h : Reach (step cfg) ok init s) : Held s.taken s.worker := by
  refine h.invariant_of (P := fun s => Held s.taken s.worker) (fun _ hr => reach_sole hr)
    (fun c => ?_) fun _ _ _ hq hi _ hs => Held.step (step_sound hs) hq hi
  simp [init]

/-! ### After the block of close -/

theorem latest_taken {s : State} {c : Call} (h : s.taken = some c) : latest s = some c := by
  unfold latest
  rw [h]
  rfl

theorem latest_issued {s : State} (h : s.taken = none) : latest s = s.issued.getLast? := by
  unfold latest
  rw [h]
  rfl

theorem Flow.latest_settled {pc : WorkerPc} {s : State} (h : Flow pc s) (hcalm : Calm s)
    (hcall : pc.call? = none) (hp : s.pending = none) :
    (latest s).map Call.request = s.desired := by
  obtain ⟨htaken, hcalling⟩ := WorkerPc.without_call hcall
  have hissued : s.issued = s.finished.map Prod.fst := by
    have hi := h.issued
    rw [hcalling] at hi
    exact hi.trans (List.append_nil _)
  rw [latest_issued (h.taken.trans htaken), hissued, List.getLast?_map]
  rcases h.settled hcall hp with ⟨hnil, hd⟩ | ⟨c, error, hlast, hd⟩
  · rw [hnil, hd]
    rfl
  · have hok : error = none := hcalm.finished _ (List.mem_of_getLast? hlast)
    rcases hd with ⟨-, hd⟩ | ⟨herror, -⟩
    · rw [hlast, hd]
      rfl
    · exact absurd hok herror

/-- With nothing pending, what is desired is what the latest call asks for. -/
theorem Flow.latest {pc : WorkerPc} {s : State} (h : Flow pc s) (hcalm : Calm s)
    (hpc : ∀ c text, pc ≠ .failed c text) (hp : s.pending = none) :
    (latest s).map Call.request = s.desired := by
  cases pc with
  | taken c =>
    rw [latest_taken h.taken, h.inHand c rfl hp]
    rfl
  | calling c =>
    have hissued : s.issued = s.finished.map Prod.fst ++ [c] := h.issued
    rw [latest_issued h.taken, hissued, List.getLast?_concat, h.inHand c rfl hp]
    rfl
  | failed c text => exact absurd rfl (hpc c text)
  | _ => exact h.latest_settled hcalm rfl hp

theorem closeShown_of_latest {s : State} (h : (latest s).map Call.request = s.desired) :
    Shows (latest s) → closeShown s = true := by
  rintro ⟨c, hc, hv⟩
  rw [hc] at h
  unfold closeShown
  rw [← h]
  exact hv

/-- `close` finds the keyboard hidden, or at least wanted hidden. -/
theorem not_shows_of_quiet {s : State} (hflows : Flows s) (hopen : s.closed = false)
    (hcalm : Calm s) (hcareful : closeShown s = false → s.pending ≠ none → ¬Shows (latest s))
    (hquiet : closeShown s = false) : ¬Shows (latest s) := by
  by_cases hp : s.pending = none
  · obtain ⟨pc, hphase, hflow⟩ := hflows hopen
    have hpc : ∀ c text, pc ≠ .failed c text := by
      rintro c text rfl
      obtain ⟨w, hw⟩ := hphase.exists_worker rfl
      exact (hcalm.worker w).1 c text hw
    intro hshows
    have hshown := closeShown_of_latest (hflow.latest hcalm hpc hp) hshows
    rw [hquiet] at hshown
    cases hshown
  · exact hcareful hquiet hp

/-- A closed binding whose `close` has nothing more to start. -/
def Hidden (s : State) : Prop :=
  s.closed = true → (∀ mode, s.closer ≠ .hide mode) → ¬Shows (latest s)

theorem Hidden.step {cfg : Config} {s s' : State} {a : Action} (h : Step cfg s a s')
    (hcareful : Careful s a) (hcalm : Calm s) (hheld : Held s.taken s.worker)
    (hflows : Flows s) (hb : s.closer.before = !s.closed) (hi : Hidden s) : Hidden s' := by
  intro hc hcloser
  cases h with
  | take pc hp hopen =>
    have hclosed : s.closed = true := hc
    rw [hopen] at hclosed
    cases hclosed
  | @call w c pc =>
    have htaken : s.taken = some c := (hheld c).mpr ⟨w, pc⟩
    have hold := hi hc hcloser
    rw [latest_taken htaken] at hold
    rw [latest_issued rfl, List.getLast?_concat]
    exact hold
  | closeStart pc =>
    have hclosed : s.closed = true := hc
    rw [pc, hclosed] at hb
    cases hb
  | closeHide => exact absurd rfl (hcloser _)
  | closeQuiet pc hs =>
    have hopen : s.closed = false := by
      rw [pc] at hb
      simpa [ClosePc.before] using hb
    have hquiet : closeShown s = false := by
      rcases hs with hfalse | hquiet
      · have htrue := hcalm.closer.2 _ pc
        rw [hfalse] at htrue
        cases htrue
      · exact hquiet
    have hnot := not_shows_of_quiet hflows hopen hcalm hcareful hquiet
    exact hnot
  | closeCall pc =>
    have hc' : ¬Shows s.taken := hcareful
    show ¬Shows (s.taken.or (s.issued ++ [_]).getLast?)
    cases htaken : s.taken with
    | none =>
      rw [Option.none_or, List.getLast?_concat, shows_some]
      exact Bool.false_ne_true
    | some c =>
      rw [htaken] at hc'
      exact hc'
  | closeReturned pc | closeFailed pc | closeNoted pc | closeReported pc =>
    exact hi hc (by simp [pc])
  | _ => exact hi hc hcloser

theorem method_of_not_shows {cfg : Config} {c : Call} (h : ¬Shows (some c)) :
    (c.request.roleCall cfg).method ≠ str "show" := by
  rw [shows_some, Bool.not_eq_true] at h
  rw [Request.roleCall, h]
  show str "hide" ≠ str "show"
  decide

/-- No interleaving in which `close` is careful leaves the keyboard shown. -/
theorem close_hides {cfg : Config} {s : State}
    (h : Reach (step cfg) (fun s a => Smooth a ∧ Careful s a) init s)
    (hreturned : s.closer = .returned) (hstopped : ∀ w, (s.worker w).alive = false) :
    ∀ c, s.issued.getLast? = some c → (c.request.roleCall cfg).method ≠ str "show" := by
  have hhidden : Hidden s := by
    refine h.invariant_of (P := Hidden) (fun _ hr => And.intro (reach_calm (fun _ _ ha => ha.1) hr)
      (And.intro (reach_held hr) (And.intro (reach_flows hr) (reach_before hr)))) ?_ ?_
    · intro hc
      cases hc
    · rintro s a s' ⟨hcalm, hheld, hflows, hb⟩ hi ha hs
      exact Hidden.step (step_sound hs) ha.2 hcalm hheld hflows hb hi
  have hclosed : s.closed = true := by
    have hb := reach_before h
    rw [hreturned] at hb
    simpa [ClosePc.before] using hb
  have htaken : s.taken = none := by
    by_contra htaken
    obtain ⟨c, hc⟩ := Option.ne_none_iff_exists'.mp htaken
    obtain ⟨w, hw⟩ := (reach_held h c).mp hc
    have halive := hstopped w
    rw [hw] at halive
    cases halive
  intro c hlast
  have hnot := hhidden hclosed (by simp [hreturned])
  rw [latest_issued htaken, hlast] at hnot
  exact method_of_not_shows hnot

theorem close_hides_shown :
    ∃ s, Reach (step plainConfig) (fun s a => Smooth a ∧ Careful s a) init s ∧
      s.issued.length = 2 ∧
      ∀ c, s.issued.getLast? = some c → (c.request.roleCall plainConfig).method ≠ str "show" := by
  have shown := (@Reach.start _ _ (step plainConfig) (fun s a => Smooth a ∧ Careful s a) init).follow
    (show run (step plainConfig) init
      [.showStart 0 (str " EN") false, .queueTest 0, .queueLock 0, .queueSpawn 0, .workerTake 0,
        .workerCall 0, .workerReturn 0 none, .workerNote 0, .workerTake 0, .closeStart true] =
      some _ from rfl) (by simp [Smooth, Careful])
  have locked := shown.next (show Smooth .closeLock ∧ Careful _ .closeLock from
    ⟨trivial, fun hquiet => by cases hquiet⟩) rfl
  have called := locked.next (show Smooth .closeCall ∧ Careful _ .closeCall from
    ⟨trivial, not_shows_none⟩) rfl
  have returned := called.next (show Smooth (.closeReturn none) ∧ Careful _ (.closeReturn none) from
    ⟨rfl, trivial⟩) rfl
  refine ⟨_, returned, rfl, close_hides returned rfl fun w => ?_⟩
  cases w <;> rfl

/-! ### The UI thread -/

def RequestPc.idle : RequestPc → Bool
  | .absent | .returned | .raised _ => true
  | _ => false

/-- One request after the other, and `close` after the last. -/
def Serial (s : State) : Action → Prop
  | .queueStart .. | .showStart .. | .hideStart _ =>
    s.closer = .absent ∧ ∀ k, (s.requester k).idle = true
  | .closeStart _ => ∀ k, (s.requester k).idle = true
  | _ => True

theorem idle {requester : Nat → RequestPc} (h0 : (requester 0).idle = true)
    (h1 : (requester 1).idle = true) (hrest : ∀ k, (requester (k + 2)).idle = true) :
    ∀ k, (requester k).idle = true
  | 0 => h0
  | 1 => h1
  | k + 2 => hrest k

/-- A show, and a hide that comes while the show is on its way. -/
theorem close_drops_hide :
    ¬∀ (cfg : Config) (s : State),
      Reach (step cfg) (fun s a => Smooth a ∧ Serial s a) init s → s.closer = .returned →
      (∀ w, (s.worker w).alive = false) →
      ∀ c, s.issued.getLast? = some c → (c.request.roleCall cfg).method ≠ str "show" := by
  intro h
  have first := @Reach.next _ _ (step plainConfig) (fun s a => Smooth a ∧ Serial s a) init init _
    (.queueStart 0 ⟨true, str "en"⟩ false) .start ⟨trivial, rfl, fun _ => rfl⟩ rfl
  have shown := first.follow (show run (step plainConfig) _
    [.queueTest 0, .queueLock 0, .queueSpawn 0, .workerTake 0, .workerCall 0] = some _ from rfl)
    (by simp [Smooth, Serial])
  have second := shown.next (show Smooth (.hideStart 1) ∧ Serial _ (.hideStart 1) from
    ⟨trivial, rfl, idle rfl rfl fun _ => rfl⟩) rfl
  have waiting := second.follow (show run (step plainConfig) _
    [.hideMode 1, .queueTest 1, .queueLock 1] = some _ from rfl) (by simp [Smooth, Serial])
  have last := waiting.next (show Smooth (.closeStart true) ∧ Serial _ (.closeStart true) from
    ⟨rfl, idle rfl rfl fun _ => rfl⟩) rfl
  have closed := last.follow (show run (step plainConfig) _
    [.closeLock, .workerReturn 0 none, .workerNote 0, .workerTake 0] = some _ from rfl)
    (by simp [Smooth, Serial])
  refine h plainConfig _ closed rfl (fun w => ?_) _ rfl rfl
  cases w <;> rfl

end Msys.InputMethod
