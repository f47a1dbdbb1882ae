import MsysSdk.Bridge.Steps

/-! From the child to the supervisor: what the output pump has made of the lines of the child,
and what the end of the stream says about them. -/

namespace Msys.Bridge
open Python Framing Transition

/-- The longest line that `readline` gives. -/
def lineLimit : Nat := maxPacket + 2

/-- The lines that the child's output consists of, once it has ended. -/
def childLines (wrote : Bytes) : List Bytes := cut newline lineLimit wrote

theorem validatedRecord_ok {py : Interpreter} {l r : Bytes}
    (h : validatedRecord py (l ++ [newline]) = .ok r) : l.length < lineLimit := by
  have hlast : (l ++ [newline]).getLast? = some newline := by simp
  rw [validatedRecord, if_neg (by simp [hlast]), List.dropLast_concat] at h
  by_cases hcr : l.getLast? = some carriageReturn
  · simp only [hcr, if_true] at h
    split_ifs at h with hempty hlong
    have := l.length_dropLast
    have hmax := Nat.le_of_not_lt hlong
    unfold lineLimit
    omega
  · simp only [hcr, if_false] at h
    split_ifs at h with hempty hlong
    have hmax := Nat.le_of_not_lt hlong
    unfold lineLimit
    omega

/-- The child's own status is to be returned. -/
def Leaving.unfailed : Leaving → Bool
  | .returning none _ => true
  | _ => false

/-! ### The output pump -/

/-- The lines that the pump has read are those whose records it has sent, or has in hand. -/
def Progress (py : Interpreter) (output : OutputPc) (read sent : List Bytes) : Prop :=
  match output with
  | .absent | .test | .read => read.map (validatedRecord py) = sent.map .ok
  | .sending r => read.map (validatedRecord py) = sent.map .ok ++ [.ok r]
  | _ => True

/-- The child's output has ended and every line of it was sent. -/
structure Drained (py : Interpreter) (s : State) : Prop where
  ended : s.child.ended = true
  empty : s.pipe = []
  all : s.read.map (validatedRecord py) = s.sent.map .ok

structure Pumped (py : Interpreter) (s : State) : Prop where
  fresh : s.run = .start ∨ s.run = .refused →
    s.child = .absent ∧ s.output = .absent ∧ s.wrote = []
  feeds : Feeds newline lineLimit (s.child.ended = true) s.wrote s.pipe s.read
  progress : Progress py s.output s.read s.sent
  reporting : ∀ r, s.output = .reporting r → r.source = .childEof → Drained py s
  reported : ∀ r ∈ s.results, r.source = .childEof → Drained py s
  waitEof : s.run = .waitEof → Drained py s
  input : ∀ r, s.input = .reporting r → r.source ≠ .childEof

theorem pumped_init (py : Interpreter) : Pumped py init where
  fresh := fun _ => ⟨rfl, rfl, rfl⟩
  feeds := Feeds.start
  progress := rfl
  reporting := by simp [init]
  reported := by simp [init]
  waitEof := by simp [init]
  input := by simp [init]

theorem lineRead_progress {py : Interpreter} {read sent : List Bytes} {line : Bytes}
    (h : read.map (validatedRecord py) = sent.map .ok) :
    Progress py (lineRead py line) (read ++ [line]) sent := by
  unfold lineRead Progress
  cases hv : validatedRecord py line <;> simp [h, hv]

theorem lineRead_source {py : Interpreter} {line : Bytes} {r : PumpResult}
    (h : lineRead py line = .reporting r) : r.source = .childOutput := by
  unfold lineRead at h
  split at h
  · cases h
  · exact (OutputPc.reporting.inj h) ▸ rfl

theorem lineRead_going {py : Interpreter} {line : Bytes} :
    lineRead py line ≠ .ended ∧ lineRead py line ≠ .absent ∧ ∀ e, lineRead py line ≠ .failed e := by
  unfold lineRead
  split <;> simp

/-- Nothing comes after the end of the stream. -/
theorem Drained.step {py : Interpreter} {s s' : State} {a : Action} (h : Step py s a s')
    (hp : Pumped py s) (hd : Drained py s) : Drained py s' := by
  obtain ⟨hend, hempty, hall⟩ := hd
  cases h with
  | childWrite pc => simp [pc, Child.ended] at hend
  | childClose pc => exact ⟨rfl, hempty, hall⟩
  | childExit pc => exact ⟨rfl, hempty, hall⟩
  | started pc => simp [(hp.fresh (.inl pc)).1, Child.ended] at hend
  | readLine pc hc hl => simp [hempty, takeLine] at hl
  | readRest pc hc he hl hne => exact absurd hempty hne
  | sent pc hs =>
    have := hp.progress
    simp [pc, Progress, hall] at this
  | @finish phase o pc => cases phase <;> exact ⟨hend, hempty, hall⟩
  | _ => exact ⟨hend, hempty, hall⟩

theorem feeds_step {py : Interpreter} {s s' : State} {a : Action} (h : Step py s a s')
    (hp : Pumped py s) :
    Feeds newline lineLimit (s'.child.ended = true) s'.wrote s'.pipe s'.read := by
  have hi := hp.feeds
  cases h with
  | childWrite pc => exact hi.write (by simp [pc, Child.ended]) _
  | childClose pc => exact hi.close fun _ => rfl
  | childExit pc => exact hi.close fun _ => rfl
  | started pc => exact hi.close (by simp [(hp.fresh (.inl pc)).1, Child.ended])
  | readLine pc hc hl => exact hi.take (by decide) hl
  | readRest pc hc he hl hne => exact hi.rest he hl hne
  | @finish phase o pc => cases phase <;> exact hi
  | _ => exact hi

theorem progress_step {py : Interpreter} {s s' : State} {a : Action} (h : Step py s a s')
    (hp : Pumped py s) : Progress py s'.output s'.read s'.sent := by
  have hi := hp.progress
  cases h with
  | started pc =>
    rw [(hp.fresh (.inl pc)).2.1] at hi
    exact hi
  | outputTest pc =>
    rw [pc] at hi
    dsimp only
    split_ifs
    · trivial
    · exact hi
  | readLine pc =>
    rw [pc] at hi
    exact lineRead_progress hi
  | readRest pc =>
    rw [pc] at hi
    exact lineRead_progress hi
  | sent pc =>
    rw [pc] at hi
    simpa [Progress] using hi
  | outputFailed pc =>
    dsimp only
    split_ifs <;> trivial
  | @finish phase o pc => cases phase <;> exact hi
  | _ => first | exact hi | trivial

theorem fresh_step {py : Interpreter} {s s' : State} {a : Action} (h : Step py s a s')
    (hp : Pumped py s) : s'.run = .start ∨ s'.run = .refused →
      s'.child = .absent ∧ s'.output = .absent ∧ s'.wrote = [] := by
  have hi := hp.fresh
  intro hr
  cases h with
  | refused pc => exact hi (.inl pc)
  | @finish phase o pc => cases phase <;> simp [finish] at hr
  | _ => first | exact hi hr | simp_all

theorem reporting_step {py : Interpreter} {s s' : State} {a : Action} (h : Step py s a s')
    (hp : Pumped py s) : ∀ r, s'.output = .reporting r → r.source = .childEof → Drained py s' := by
  intro r hr hs
  have keep : s.output = .reporting r → Drained py s' :=
    fun ho => (hp.reporting r ho hs).step h hp
  cases h with
  | outputTest pc =>
    dsimp only at hr
    split_ifs at hr
  -- a closed stdout is an error, not the end of the output
  | readClosed pc =>
    obtain rfl := OutputPc.reporting.inj hr
    cases hs
  | readLine pc => simp [lineRead_source hr] at hs
  | readRest pc => simp [lineRead_source hr] at hs
  | readEof pc hc he hempty =>
    have hall := hp.progress
    rw [pc] at hall
    exact ⟨he, hempty, hall⟩
  | outputFailed pc =>
    dsimp only at hr
    split_ifs at hr
    obtain rfl := OutputPc.reporting.inj hr
    cases hs
  | @finish phase o pc => cases phase <;> exact keep hr
  | _ => first | exact keep hr | cases hr

theorem reported_step {py : Interpreter} {s s' : State} {a : Action} (h : Step py s a s')
    (hp : Pumped py s) : ∀ r ∈ s'.results, r.source = .childEof → Drained py s' := by
  intro r hr hs
  have keep : r ∈ s.results → Drained py s' := fun hm => (hp.reported r hm hs).step h hp
  have said : s.output = .reporting r → Drained py s' :=
    fun ho => (hp.reporting r ho hs).step h hp
  cases h with
  | getEof pc hres => exact keep (hres ▸ List.mem_cons_of_mem _ hr)
  | getFailure pc hres => exact keep (hres ▸ List.mem_cons_of_mem _ hr)
  | outputReport pc =>
    rcases List.mem_append.mp hr with hr | hr
    · exact keep hr
    · exact said (by rw [List.mem_singleton.mp hr, pc])
  | inputReport pc =>
    rcases List.mem_append.mp hr with hr | hr
    · exact keep hr
    · exact absurd hs (hp.input r (by rw [List.mem_singleton.mp hr, pc]))
  | @finish phase o pc => cases phase <;> exact keep hr
  | _ => exact keep hr

theorem waitEof_step {py : Interpreter} {s s' : State} {a : Action} (h : Step py s a s')
    (hp : Pumped py s) : s'.run = .waitEof → Drained py s' := by
  intro hr
  have keep : s.run = .waitEof → Drained py s' := fun hw => (hp.waitEof hw).step h hp
  have taken : ∀ r ∈ s.results, r.source = .childEof → Drained py s' :=
    fun r hm hs => (hp.reported r hm hs).step h hp
  cases h with
  | getEof pc hres hs => exact taken _ (by simp [hres]) hs
  | @finish phase o pc => cases phase <;> cases hr
  | _ => first | exact keep hr | cases hr

theorem input_step {py : Interpreter} {s s' : State} {a : Action} (h : Step py s a s')
    (hp : Pumped py s) : ∀ r, s'.input = .reporting r → r.source ≠ .childEof := by
  intro r hr
  have hi := hp.input r
  cases h with
  | inputTest pc =>
    dsimp only at hr
    split_ifs at hr
  | inputFailed pc =>
    dsimp only at hr
    split_ifs at hr
    simp [← InputPc.reporting.inj hr]
  | @finish phase o pc => cases phase <;> exact hi hr
  | writeClosed => simp [← InputPc.reporting.inj hr, closedWrite]
  | _ => first | exact hi hr | (cases hr <;> simp)

theorem Pumped.step {py : Interpreter} {s s' : State} {a : Action} (h : Step py s a s')
    (hp : Pumped py s) : Pumped py s' where
  fresh := fresh_step h hp
  feeds := feeds_step h hp
  progress := progress_step h hp
  reporting := reporting_step h hp
  reported := reported_step h hp
  waitEof := waitEof_step h hp
  input := input_step h hp

theorem reach_pumped {py : Interpreter} {ok : State → Action → Prop} {s : State}
    (h : Reach (step py) ok init s) : Pumped py s :=
  h.invariant (pumped_init py) fun _ _ _ hi _ hs => hi.step (step_sound hs)

/-- The bridge is up, and the child has written this. -/
def childWrites (b : Bytes) : List Action := [.spawn true, .childWrite b]

/-- `run` goes on by so many steps. -/
def runs (n : Nat) : List Action := List.replicate n .run

end Msys.Bridge
