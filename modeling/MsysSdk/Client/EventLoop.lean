import MsysSdk.Client.Events

/-! `MsysClient.run`: the event loop on top of `recv`. Any number of threads call it, one at a time
gets past `_run_lock`, and the rest of the client goes on around it. -/

namespace Msys.Client
open Python Transition

/-- What `run` lets out. -/
inductive RunExc
  | busy
  | client (e : Error)
  | typeError (text : Str)
  | callback
deriving DecidableEq

inductive RunPc
  | start
  | loop
  | receiving
  | handling (m : Dict)
  | leaving (e : Option RunExc)
  | done (e : Option RunExc)
deriving DecidableEq

/-- Between `acquire` and `release`. -/
def RunPc.inside : RunPc → Bool
  | .start | .done _ => false
  | _ => true

/-- The client with the threads that call `run`. The fields from `taken` on record the past: the
events that `recv` gave and to which loop, if to any, the calls of `on_event`, and whether a
loop has met the end of the channel. -/
structure Session where
  client : State
  runLock : Option Nat
  run : Nat → RunPc
  taken : List (Option Nat × Dict)
  called : List (Nat × Dict)
  ended : Bool

def Session.init : Session where
  client := Client.init
  runLock := none
  run := fun _ => .start
  taken := []
  called := []
  ended := false

inductive Verdict
  | leave (e : Option RunExc)
  | handle (m : Dict)
  | again

/-- What the body of the loop makes of what `recv` gave, with and without an `on_event`. -/
def verdict (onEvent : Bool) : RecvResult → Verdict
  | .terminal (.error e) => .leave (some (.client e))
  | .record m | .terminal (.ok m) =>
    if m = [] then .leave none
    else match (field m "type").inStrings [str "eof", str "shutdown"] with
      | .error text => .leave (some (.typeError text))
      | .ok true => .leave none
      | .ok false => if isEvent m && onEvent then .handle m else .again

/-- Who of the program does what. `outside` is a thread that calls `recv` itself. -/
inductive RunAction
  | client (a : Action)
  | outside (a : Action)
  | enter (k : Nat)
  | receive (k : Nat)
  | recv (k : Nat) (a : Action)
  | handled (k : Nat) (raised : Bool)
  | leave (k : Nat)
deriving DecidableEq

def Action.isRecv : Action → Bool
  | .recvStart | .recvTest | .recvItem | .recvEmpty | .recvRefused | .recvRecheck
  | .recvTerminal => true
  | _ => false

/-- The steps of `recv(timeout=None)`: `Queue.get` takes no timeout amiss and never gives up. -/
def untimed (s : State) : Action → Bool
  | .recvTest | .recvItem | .recvTerminal => true
  | .recvEmpty => s.receiver = .nowait
  | _ => false

namespace Session
variable (s : Session)

def setRun (k : Nat) (pc : RunPc) : Session := { s with run := Function.update s.run k pc }

/-- `recv` has moved the client on; what it gave, if it returned, is now with `owner`. -/
def moved (owner : Option Nat) (client : State) : Session :=
  { s with
    client := client
    taken := s.taken ++ (received (client.results.drop s.client.results.length)).map (owner, ·) }

end Session

def RecvResult.isTerminal : RecvResult → Bool
  | .terminal _ => true
  | .record _ => false

/-- The loop of `k` goes on with what `recv` gave it. -/
def judge (onEvent : Nat → Bool) (s : Session) (k : Nat) (r : RecvResult) : Session :=
  let s := { s with ended := s.ended || r.isTerminal }
  match verdict (onEvent k) r with
  | .leave e => s.setRun k (.leaving e)
  | .handle m => { s.setRun k (.handling m) with called := s.called ++ [(k, m)] }
  | .again => s.setRun k .loop

def runStep (cfg : Config) (onEvent : Nat → Bool) (s : Session) : RunAction → Option Session
  | .client a =>
    if a.isRecv then none else (step cfg s.client a).map fun c => { s with client := c }
  | .outside a => if a.isRecv then (step cfg s.client a).map (s.moved none) else none
  | .enter k =>
    match s.run k, s.runLock with
    | .start, none => some { s.setRun k .loop with runLock := some k }
    | .start, some _ => some (s.setRun k (.done (some .busy)))
    | _, _ => none
  | .receive k =>
    match s.run k with
    | .loop => (step cfg s.client .recvStart).map fun c => { s.setRun k .receiving with client := c }
    | _ => none
  | .recv k a =>
    if s.run k = .receiving ∧ untimed s.client a then
      match step cfg s.client a with
      | none => none
      | some c =>
        match c.results.drop s.client.results.length with
        | [] => some { s with client := c }
        | r :: _ => some (judge onEvent (s.moved (some k) c) k r)
    else none
  | .handled k raised =>
    match s.run k with
    | .handling _ => some (s.setRun k (if raised then .leaving (some .callback) else .loop))
    | _ => none
  | .leave k =>
    match s.run k with
    | .leaving e => some { s.setRun k (.done e) with runLock := none }
    | _ => none

/-- One consumer at a time: nobody calls `recv` beside a running loop, and no loop starts beside
a `recv`. -/
def OneConsumer (s : Session) : RunAction → Prop
  | .outside _ => s.runLock = none
  | .enter _ => s.runLock = none → s.client.receiver = .idle
  | _ => True

/-! ### One recv(timeout=None) -/

section
variable {cfg : Config} {s s' : State} {a : Action}

/-- The client is closed, and what may still come is what may come too late. -/
def Drained (s : State) : Prop := s.closed = true ∧ Spare s s.coming

theorem Drained.step (hd : Drained s) (h : Step cfg s a s') (hi : Flow cfg.py s) : Drained s' :=
  ⟨h.closed_kept hd.1, hd.2.step h hd.1 (h.coming_le hi hd.1)⟩

/-- A `recv` under way that has no timeout. -/
structure Blocking (s : State) : Prop where
  begun : s.receiver ≠ .idle
  patient : s.receiver ≠ .recheck
  noticed : s.receiver = .nowait → s.closed = true
  empty : s.receiver = .terminal → Drained s

theorem Step.recv_kept (h : Step cfg s a s') (ha : a.isRecv = false) :
    s'.receiver = s.receiver ∧ s'.results = s.results := by
  cases h with
  | fail term | deliver pc => exact ⟨rfl, rfl⟩
  | _ => first | exact ⟨rfl, rfl⟩ | cases ha

theorem Blocking.step (hb : Blocking s) (h : Step cfg s a s') (ha : a.isRecv = false)
    (hi : Flow cfg.py s) : Blocking s' := by
  have hr := (h.recv_kept ha).1
  refine ⟨?_, ?_, fun hn => ?_, fun ht => ?_⟩
  · exact hr ▸ hb.begun
  · exact hr ▸ hb.patient
  · exact h.closed_kept (hb.noticed (hr ▸ hn))
  · exact (hb.empty (hr ▸ ht)).step h hi

theorem InboxItem.isTerminal_result (item : InboxItem) :
    item.result.isTerminal = item.isTerminal := by
  cases item with
  | record n m => cases n <;> rfl
  | failure f => rfl

/-- Either the `recv` goes on, or it has given one result; a terminal one leaves nothing but
what comes too late. -/
theorem Blocking.untimed (hb : Blocking s) (h : Step cfg s a s') (ha : untimed s a = true)
    (inv : Inv cfg.py s) (hi : Flow cfg.py s) (hbehind : Behind s) :
    s'.results = s.results ∧ Blocking s' ∨
      ∃ r, s'.results = s.results ++ [r] ∧ s'.receiver = .idle ∧
        (r.isTerminal = true → Drained s') := by
  have hstep := h
  cases h with
  | recvTest pc =>
    refine .inl ⟨rfl, ?_, ?_, fun hn => ?_, fun ht => ?_⟩
    · show (if s.closed then RecvPc.nowait else .waiting) ≠ .idle
      split_ifs <;> simp
    · show (if s.closed then RecvPc.nowait else .waiting) ≠ .recheck
      split_ifs <;> simp
    · by_contra hc
      simp [hc] at hn
    · split_ifs at ht
  | @recvItem item rest queue pc =>
    refine .inr ⟨item.result, rfl, rfl, fun hterminal => ?_⟩
    rw [InboxItem.isTerminal_result] at hterminal
    obtain ⟨front, hfront⟩ := hbehind.queued
    obtain ⟨hc, hspare⟩ := hbehind.spare front item rest (queue ▸ hfront.symm) hterminal
    refine ⟨hc, hspare.step hstep hc ?_⟩
    exact Nat.add_le_add_right (List.length_filterMap_le _ _) _
  | recvNone pc queue =>
    have hc := hb.noticed pc
    refine .inl ⟨rfl, by simp, by simp, by simp, fun _ => Drained.step ⟨hc, ?_⟩ hstep hi⟩
    rw [State.coming, queue, List.filterMap_nil, List.length_nil, Nat.zero_add]
    exact ⟨ReaderPc.busy_le _, inv.busy_zero⟩
  | recvTimeout pc => simp [Client.untimed, pc] at ha
  | recvTerminal pc => exact .inr ⟨_, rfl, rfl, fun _ => (hb.empty pc).step hstep hi⟩
  | _ => cases ha

end

/-! ### The loop -/

/-- The call of `on_event` that an event leads to. -/
def callOf (onEvent : Nat → Bool) : Option Nat × Dict → Option (Nat × Dict)
  | (some k, m) => if onEvent k then some (k, m) else none
  | (none, _) => none

structure Looping (cfg : Config) (onEvent : Nat → Bool) (s : Session) : Prop where
  reach : Reach (step cfg) Any Client.init s.client
  taken : s.taken.map Prod.snd = received s.client.results
  called : s.called = s.taken.filterMap (callOf onEvent)
  locked : ∀ k, (s.run k).inside = true → s.runLock = some k
  resting : ∀ k, s.runLock = some k → s.run k ≠ .receiving → s.client.receiver = .idle
  blocking : ∀ k, s.run k = .receiving → Blocking s.client
  drained : s.ended = true → Drained s.client

theorem reach_flow {cfg : Config} {s : State} (h : Reach (step cfg) Any init s) : Flow cfg.py s :=
  h.invariant (Flow.init cfg.py) fun _ _ _ hi _ hs => hi.step (step_sound hs)

theorem reach_behind {cfg : Config} {s : State} (h : Reach (step cfg) Any init s) : Behind s :=
  h.invariant_of (fun _ hr => reach_inv hr) Behind.init fun _ _ _ inv hi _ hs =>
    hi.step (step_sound hs) inv

/-- An event is neither empty nor an end. -/
theorem verdict_handle {onEvent : Bool} {r : RecvResult} {m : Dict} :
    verdict onEvent r = .handle m ↔ r.event? = some m ∧ onEvent = true := by
  have hrecord : ∀ m', verdict onEvent (.record m') = .handle m ↔
      (some m').filter isEvent = some m ∧ onEvent = true := by
    intro m'
    by_cases hevent : isEvent m' = true
    · have htype := Value.isKey_iff.mp hevent
      have hne : m' ≠ [] := by
        rintro rfl
        cases htype
      have hends : (Value.str (str "event")).inStrings [str "eof", str "shutdown"] = .ok false := by
        decide
      rw [verdict, if_neg hne, htype, hends, Option.filter_some, if_pos hevent]
      cases onEvent <;> simp [hevent]
    · have hnone : (some m').filter isEvent = none := by rw [Option.filter_some, if_neg hevent]
      rw [verdict, hnone]
      by_cases hempty : m' = []
      · simp [hempty]
      · rw [if_neg hempty]
        split <;> simp [hevent]
  cases r with
  | record m' => exact hrecord m'
  | terminal t =>
    cases t with
    | ok m' => exact hrecord m'
    | error e => simp [verdict, RecvResult.event?]

section
variable {cfg : Config} {onEvent : Nat → Bool} {s s' : Session}

theorem Looping.init : Looping cfg onEvent .init where
  reach := .start
  taken := rfl
  called := rfl
  locked := by simp [Session.init, RunPc.inside]
  resting := by simp [Session.init]
  blocking := by simp [Session.init]
  drained := by simp [Session.init]

theorem locked_update {run : Nat → RunPc} {lock : Option Nat} {k : Nat} {pc : RunPc}
    (h : ∀ j, (run j).inside = true → lock = some j) (hk : pc.inside = true → lock = some k) :
    ∀ j, (Function.update run k pc j).inside = true → lock = some j := by
  intro j hj
  rcases eq_or_ne j k with rfl | hne
  · rw [Function.update_self] at hj
    exact hk hj
  · exact h j (by rwa [Function.update_of_ne hne] at hj)

theorem update_eq_iff {run : Nat → RunPc} {k j : Nat} {pc p : RunPc} (hp : pc ≠ p)
    (h : Function.update run k pc j = p) : run j = p := by
  rcases eq_or_ne j k with rfl | hne
  · rw [Function.update_self] at h
    exact absurd h hp
  · rwa [Function.update_of_ne hne] at h

/-- The loop of `k` moves on, outside `recv` both before and after. -/
theorem Looping.setRun (hi : Looping cfg onEvent s) {k : Nat} {pc : RunPc}
    (hpc : pc ≠ .receiving) (hk : s.run k ≠ .receiving)
    (hinside : pc.inside = true → (s.run k).inside = true) :
    Looping cfg onEvent (s.setRun k pc) :=
  { hi with
    locked := locked_update hi.locked fun h => hi.locked k (hinside h)
    resting := fun j hj hrun => hi.resting j hj fun hold => hrun <| by
      rcases eq_or_ne j k with rfl | hne
      · exact absurd hold hk
      · exact (Function.update_of_ne hne ..).trans hold
    blocking := fun j hj => hi.blocking j (update_eq_iff hpc hj) }

/-- The client moves on beside the loops. -/
theorem Looping.beside (hi : Looping cfg onEvent s) {a : Action} {c : State}
    (hstep : step cfg s.client a = some c) (ha : a.isRecv = false) :
    Looping cfg onEvent { s with client := c } := by
  have h := step_sound hstep
  have hflow := reach_flow hi.reach
  obtain ⟨hreceiver, hresults⟩ := h.recv_kept ha
  exact { hi with
    reach := hi.reach.next trivial hstep
    taken := by rw [hi.taken, hresults]
    resting := fun j hj hrun => hreceiver.trans (hi.resting j hj hrun)
    blocking := fun j hj => (hi.blocking j hj).step h ha hflow
    drained := fun hended => (hi.drained hended).step h hflow }

theorem Step.results_grow {cfg : Config} {s s' : State} {a : Action} (h : Step cfg s a s') :
    ∃ more, s'.results = s.results ++ more := by
  cases h with
  | recvItem queue pc => exact ⟨_, rfl⟩
  | recvTerminal pc => exact ⟨_, rfl⟩
  | fail term => exact ⟨[], (List.append_nil _).symm⟩
  | deliver pc => exact ⟨[], (List.append_nil _).symm⟩
  | _ => exact ⟨[], (List.append_nil _).symm⟩

theorem received_append_list (results more : List RecvResult) :
    received (results ++ more) = received results ++ received more := List.filterMap_append ..

theorem Session.moved_taken (owner : Option Nat) {c : State} {more : List RecvResult}
    (h : c.results = s.client.results ++ more) :
    (s.moved owner c).taken = s.taken ++ (received more).map (owner, ·) := by
  rw [Session.moved, h, List.drop_left]

theorem moved_taken_events (hi : Looping cfg onEvent s) (owner : Option Nat) {c : State}
    {more : List RecvResult} (h : c.results = s.client.results ++ more) :
    (s.moved owner c).taken.map Prod.snd = received c.results := by
  rw [Session.moved_taken owner h, h, received_append_list, List.map_append, hi.taken,
    List.map_map]
  exact congrArg _ (List.map_id _)

/-- A thread that is in no loop takes what it gets from `recv`. -/
theorem Looping.outside (hi : Looping cfg onEvent s) {a : Action} {c : State}
    (hstep : step cfg s.client a = some c) (hfree : s.runLock = none) :
    Looping cfg onEvent (s.moved none c) := by
  have h := step_sound hstep
  obtain ⟨more, hmore⟩ := h.results_grow
  have hnobody : ∀ j, (s.run j).inside ≠ true := fun j hj => by simp [hi.locked j hj] at hfree
  refine ⟨hi.reach.next trivial hstep, moved_taken_events hi none hmore, ?_, hi.locked, ?_, ?_,
    fun hended => (hi.drained hended).step h (reach_flow hi.reach)⟩
  · have hcalls : ((received more).map ((none : Option Nat), ·)).filterMap (callOf onEvent) = [] := by
      rw [List.filterMap_map]
      exact List.filterMap_eq_nil_iff.mpr fun _ _ => rfl
    rw [Session.moved_taken none hmore, List.filterMap_append, hcalls, List.append_nil]
    exact hi.called
  · intro j hj
    exact absurd (hj.symm.trans hfree) (by simp)
  · intro j hj
    exact absurd (congrArg RunPc.inside hj) (hnobody j)

theorem judge_called (s : Session) (k : Nat) (r : RecvResult) :
    (judge onEvent s k r).called =
      s.called ++ (r.event?.toList.map (some k, ·)).filterMap (callOf onEvent) := by
  by_cases h : ∃ m, r.event? = some m ∧ onEvent k = true
  · obtain ⟨m, hm, hk⟩ := h
    rw [judge, verdict_handle.mpr ⟨hm, hk⟩, hm]
    simp [callOf, hk]
  · have hsame : (judge onEvent s k r).called = s.called := by
      unfold judge
      cases hv : verdict (onEvent k) r with
      | handle m => exact absurd ⟨m, verdict_handle.mp hv⟩ h
      | leave e => rfl
      | again => rfl
    rw [hsame]
    cases hm : r.event? with
    | none => simp
    | some m =>
      have hk : onEvent k = false := by
        rw [Bool.eq_false_iff]
        exact fun hk => h ⟨m, hm, hk⟩
      simp [callOf, hk]

/-- The fields that a verdict leaves alone, and where the loop goes. -/
theorem judge_spec (s : Session) (k : Nat) (r : RecvResult) :
    (judge onEvent s k r).client = s.client ∧ (judge onEvent s k r).runLock = s.runLock ∧
      (judge onEvent s k r).taken = s.taken ∧
      (judge onEvent s k r).ended = (s.ended || r.isTerminal) ∧
      ∃ pc, pc.inside = true ∧ pc ≠ .receiving ∧
        (judge onEvent s k r).run = Function.update s.run k pc := by
  unfold judge
  cases verdict (onEvent k) r with
  | leave e => exact ⟨rfl, rfl, rfl, rfl, .leaving e, rfl, by simp, rfl⟩
  | handle m => exact ⟨rfl, rfl, rfl, rfl, .handling m, rfl, by simp, rfl⟩
  | again => exact ⟨rfl, rfl, rfl, rfl, .loop, rfl, by simp, rfl⟩

/-- The `recv` of a loop returns. -/
theorem Looping.judge (hi : Looping cfg onEvent s) {k : Nat} {a : Action} {c : State}
    {r : RecvResult} (hstep : step cfg s.client a = some c) (hk : s.run k = .receiving)
    (hresults : c.results = s.client.results ++ [r]) (hidle : c.receiver = .idle)
    (hdrained : r.isTerminal = true → Drained c) :
    Looping cfg onEvent (Client.judge onEvent (s.moved (some k) c) k r) := by
  have hlock := hi.locked k (by rw [hk]; rfl)
  have htaken := moved_taken_events hi (some k) hresults
  obtain ⟨hclient, hrunLock, htook, hended, pc, hinside, hpc, hrun⟩ :=
    judge_spec (s.moved (some k) c) k r
  refine ⟨?_, ?_, ?_, ?_, fun j _ _ => ?_, fun j hj => ?_, fun h => ?_⟩
  · rw [hclient]
    exact hi.reach.next trivial hstep
  · rw [hclient, htook]
    exact htaken
  · have hone : received [r] = r.event?.toList := received_append [] r
    rw [judge_called, htook, Session.moved_taken _ hresults, List.filterMap_append, ← hi.called, hone]
    rfl
  · rw [hrunLock, hrun]
    exact locked_update hi.locked fun _ => hlock
  · rw [hclient]
    exact hidle
  · rw [hrun] at hj
    have hold : s.run j = .receiving := update_eq_iff hpc hj
    have hsame : j = k :=
      Option.some.inj ((hi.locked j (by rw [hold]; rfl)).symm.trans hlock)
    subst hsame
    rw [Function.update_self] at hj
    exact absurd hj hpc
  · rw [hended, Bool.or_eq_true] at h
    rw [hclient]
    rcases h with h | h
    · exact (hi.drained h).step (step_sound hstep) (reach_flow hi.reach)
    · exact hdrained h

/-- The loop of `k` calls `recv`. -/
theorem Looping.begin (hi : Looping cfg onEvent s) {k : Nat} {c : State}
    (hstep : step cfg s.client .recvStart = some c) (hk : s.run k = .loop) :
    Looping cfg onEvent { s.setRun k .receiving with client := c } := by
  have hlock := hi.locked k (by rw [hk]; rfl)
  have h := step_sound hstep
  have hdrained := fun hended => (hi.drained hended).step h (reach_flow hi.reach)
  cases h with
  | recvStart pc =>
    refine ⟨hi.reach.next trivial hstep, hi.taken, hi.called, locked_update hi.locked fun _ => hlock,
      fun j hj hrun => ?_, fun j hj => ⟨by simp, by simp, by simp, by simp⟩, hdrained⟩
    obtain rfl := Option.some.inj (hj.symm.trans hlock)
    exact absurd (Function.update_self ..) hrun

/-- The `recv` of a loop goes on. -/
theorem Looping.wait (hi : Looping cfg onEvent s) {k : Nat} {a : Action} {c : State}
    (hstep : step cfg s.client a = some c) (hk : s.run k = .receiving)
    (hresults : c.results = s.client.results) (hb : Blocking c) :
    Looping cfg onEvent { s with client := c } :=
  { hi with
    reach := hi.reach.next trivial hstep
    taken := by rw [hi.taken, hresults]
    resting := fun j hj hrun => by
      have hlock := hi.locked k (by rw [hk]; rfl)
      obtain rfl := Option.some.inj (hj.symm.trans hlock)
      exact absurd hk hrun
    blocking := fun _ _ => hb
    drained := fun hended => (hi.drained hended).step (step_sound hstep) (reach_flow hi.reach) }

/-- The loop of `k` lets the lock go. -/
theorem Looping.release (hi : Looping cfg onEvent s) {k : Nat} {e : Option RunExc}
    (hk : s.run k = .leaving e) :
    Looping cfg onEvent { s.setRun k (.done e) with runLock := none } := by
  have hlock := hi.locked k (by rw [hk]; rfl)
  have hnobody : ∀ j, (Function.update s.run k (.done e) j).inside ≠ true := by
    intro j hj
    rcases eq_or_ne j k with rfl | hne
    · simp [RunPc.inside] at hj
    · rw [Function.update_of_ne hne] at hj
      exact hne (Option.some.inj ((hi.locked j hj).symm.trans hlock))
  exact { hi with
    locked := fun j hj => absurd hj (hnobody j)
    resting := fun j hj => by cases hj
    blocking := fun j hj => absurd (congrArg RunPc.inside hj) (hnobody j) }

theorem Looping.step {a : RunAction} (hi : Looping cfg onEvent s) (hok : OneConsumer s a)
    (h : runStep cfg onEvent s a = some s') : Looping cfg onEvent s' := by
  cases a with
  | client a =>
    simp only [runStep] at h
    split_ifs at h with ha
    obtain ⟨c, hc, rfl⟩ := Option.map_eq_some_iff.mp h
    exact hi.beside hc (Bool.eq_false_iff.mpr ha)
  | outside a =>
    simp only [runStep] at h
    split_ifs at h
    obtain ⟨c, hc, rfl⟩ := Option.map_eq_some_iff.mp h
    exact hi.outside hc hok
  | enter k =>
    simp only [runStep] at h
    split at h
    next hk hfree =>
      cases h
      exact { hi with
        locked := locked_update (fun j hj => absurd (hi.locked j hj) (by simp [hfree])) fun _ => rfl
        resting := fun _ _ _ => hok hfree
        blocking := fun j hj => hi.blocking j (update_eq_iff (by simp) hj) }
    next hk _ =>
      cases h
      exact hi.setRun (by simp) (by simp [hk]) (by simp [RunPc.inside])
    next => cases h
  | receive k =>
    simp only [runStep] at h
    split at h
    next hk =>
      obtain ⟨c, hc, rfl⟩ := Option.map_eq_some_iff.mp h
      exact hi.begin hc hk
    next => cases h
  | recv k a =>
    simp only [runStep] at h
    split_ifs at h with hk
    obtain ⟨hk, ha⟩ := hk
    split at h
    next => cases h
    next c hc =>
      rcases (hi.blocking k hk).untimed (step_sound hc) ha (reach_inv hi.reach)
        (reach_flow hi.reach) (reach_behind hi.reach) with ⟨hsame, hb⟩ | ⟨r, hr, hidle, hd⟩
      · rw [hsame, List.drop_length] at h
        cases h
        exact hi.wait hc hk hsame hb
      · rw [hr, List.drop_left] at h
        cases h
        exact hi.judge hc hk hr hidle hd
  | handled k raised =>
    simp only [runStep] at h
    split at h
    next m hk =>
      cases h
      refine hi.setRun ?_ (by simp [hk]) (fun _ => by rw [hk]; rfl)
      split_ifs <;> simp
    next => cases h
  | leave k =>
    simp only [runStep] at h
    split at h
    next e hk =>
      cases h
      exact hi.release hk
    next => cases h

end

/-! ### Every run -/

/-- In every interleaving one loop runs at a time, `on_event` is called for the events in the order
of the wire, and a loop that meets the end of the channel has missed one event at most, and
none if the reader ended the channel. -/
theorem run_delivers (cfg : Config) (onEvent : Nat → Bool) (s : Session)
    (h : Reach (runStep cfg onEvent) OneConsumer Session.init s) :
    (∀ k j, (s.run k).inside = true → (s.run j).inside = true → k = j) ∧
    s.called = s.taken.filterMap (callOf onEvent) ∧
    ∃ missed, s.taken.map Prod.snd ++ missed = events cfg.py s.client.wire ∧
      (s.ended = true → missed.length ≤ 1 ∧ (s.client.EndedByReader → missed = [])) := by
  have hi : Looping cfg onEvent s :=
    h.invariant Looping.init fun _ _ _ hi hok hs => hi.step hok hs
  refine ⟨fun k j hk hj => ?_, hi.called, underway s.client.eventQueue s.client.reader, ?_,
    fun hended => ?_⟩
  · exact Option.some.inj ((hi.locked k hk).symm.trans (hi.locked j hj))
  · rw [hi.taken]
    exact (reach_flow hi.reach).ordered
  · obtain ⟨-, hone, hnone⟩ := hi.drained hended
    have hle := @underway_le_coming s.client
    refine ⟨Nat.le_trans hle hone, fun hreader => List.eq_nil_of_length_eq_zero ?_⟩
    exact Nat.le_zero.mp (Nat.le_trans hle (Nat.le_of_eq (hnone hreader)))

instance (s : Session) : DecidablePred (OneConsumer s)
  | .client _ | .receive _ | .recv .. | .handled .. | .leave _ => inferInstanceAs (Decidable True)
  | .outside _ => inferInstanceAs (Decidable (_ = _))
  | .enter _ => inferInstanceAs (Decidable (_ → _))

/-- A loop that waits for its first event, handles it and waits again until the stream ends. -/
theorem run_delivers_eof : ∃ s,
    Reach (runStep (withTimeout 5) fun _ => true) OneConsumer Session.init s ∧
      s.run 0 = .done none ∧ s.called.length = 1 ∧
      ∃ missed, s.taken.map Prod.snd ++ missed = events plain s.client.wire ∧ missed = [] := by
  have h : (runWhere (runStep (withTimeout 5) fun _ => true) OneConsumer Session.init
      ([.enter 0, .receive 0, .recv 0 .recvTest] ++ oneEvent.map .client ++
        [.recv 0 .recvItem, .handled 0 false, .receive 0, .recv 0 .recvTest] ++
        atEof.map .client ++ [.recv 0 .recvItem, .leave 0])).map (fun s =>
          decide (s.run 0 = .done none ∧ s.called.length = 1 ∧ s.ended = true) &&
            (s.client.term .reader).any fun f => f.pc.won) = some true := by
    decide +kernel
  obtain ⟨s, hs, hp⟩ := Option.map_eq_some_iff.mp h
  obtain ⟨hdone, hreader⟩ := Bool.and_eq_true_iff.mp hp
  obtain ⟨hrun, hcalled, hended⟩ := of_decide_eq_true hdone
  obtain ⟨f, hf, hw⟩ := (Option.any_eq_true _ _).mp hreader
  have hr := Reach.of_runWhere hs
  obtain ⟨-, -, missed, horder, hend⟩ := run_delivers (withTimeout 5) _ s hr
  exact ⟨s, hr, hrun, hcalled, missed, horder, (hend hended).2 ⟨_, hf, hw⟩⟩

end Msys.Client
