import MsysSdk.Bridge.Outbound

/-! What the child said before it exited is sent, unless the `finally` block of `run` overtakes
the output pump. -/

namespace Msys.Bridge
open Python Framing Transition

/-- `run` has noted a failure, or is on its way out with an exception. -/
def RunPc.failing : RunPc → Bool
  | .terminate _ | .terminating _ | .killing _ => true
  | .wait f => f.isSome
  | .leaving _ o | .left o => !o.unfailed
  | _ => false

/-- The control socket takes every record until the bridge shuts it down. -/
def willing (s : State) : Action → Bool
  | .outputSend (.error _) => s.shut
  | _ => true

def Willing (s : State) (a : Action) : Prop := willing s a = true

/-- The output pump finds `_stop` set only when there is nothing left to read, reads before its
stream is closed, sends before the socket is shut down, and has ended when `run` returns. -/
def inTime (s : State) : Action → Bool
  | .outputTest => !s.stop || s.child.ended && s.pipe = []
  | .outputRead => !s.stdoutClosed
  | .outputSend _ => !s.shut
  | .run =>
    match s.run with
    | .leaving .joinOutput _ => s.output = .ended
    | _ => true
  | _ => true

/-- On the way to the child's own status, `run` does not overtake the pump. -/
def Unhurried (s : State) (a : Action) : Prop :=
  Willing s a ∧ (s.run.failing || inTime s a) = true

instance (s : State) (a : Action) : Decidable (Willing s a) :=
  inferInstanceAs (Decidable (_ = true))

instance (s : State) (a : Action) : Decidable (Unhurried s a) :=
  inferInstanceAs (Decidable (_ ∧ _))

theorem failing_step {py : Interpreter} {s s' : State} {a : Action} (h : Step py s a s')
    (hr : s'.run.failing = false) : s.run.failing = false := by
  cases h with
  | terminated pc => cases hr
  | @waited f code pc =>
    rw [pc]
    cases f <;> exact hr
  | @finish phase o pc =>
    rw [pc]
    cases phase <;> exact hr
  | gaveUp pc => cases hr
  | _ => first | exact hr | simp_all [RunPc.failing]

/-- Some line that was read is rejected. -/
def Rejected (py : Interpreter) (s : State) : Prop :=
  ∃ l ∈ s.read, ∃ e, validatedRecord py l = .error e

/-- The pump stops at the end of the stream or at a line that is rejected. -/
structure Settling (py : Interpreter) (s : State) : Prop where
  sound : ∀ e, s.output ≠ .failed e
  reporting : ∀ r, s.output = .reporting r → Drained py s ∨ Rejected py s
  ended : s.output = .ended → Drained py s ∨ Rejected py s
  left : ∀ o, s.run = .left o → s.output = .ended

theorem Rejected.step {py : Interpreter} {s s' : State} {a : Action} (h : Step py s a s')
    (hr : Rejected py s) : Rejected py s' := by
  obtain ⟨l, hl, he⟩ := hr
  refine ⟨l, ?_, he⟩
  cases h with
  | readLine => exact List.mem_append_left _ hl
  | readRest => exact List.mem_append_left _ hl
  | @finish phase o pc => cases phase <;> exact hl
  | _ => exact hl

theorem lineRead_rejected {py : Interpreter} {line : Bytes} {read : List Bytes} {r : PumpResult}
    (h : lineRead py line = .reporting r) :
    ∃ l ∈ read ++ [line], ∃ e, validatedRecord py l = .error e := by
  unfold lineRead at h
  split at h
  · cases h
  next e he => exact ⟨line, by simp, e, he⟩

theorem Settling.step {py : Interpreter} {s s' : State} {a : Action} (h : Step py s a s')
    (hok : Unhurried s a) (hgo : s.run.failing = false) (hp : Pumped py s)
    (hi : Settling py s) : Settling py s' := by
  obtain ⟨hwill, hslow⟩ := hok
  rw [hgo, Bool.false_or] at hslow
  have keep : Drained py s ∨ Rejected py s → Drained py s' ∨ Rejected py s' :=
    Or.imp (fun hd => hd.step h hp) fun hr => hr.step h
  have unleft : s.output ≠ .ended → ∀ o, s.run ≠ .left o := fun hne o ho => hne (hi.left o ho)
  cases h with
  | started pc => exact ⟨by simp, by simp, by simp, by simp⟩
  | outputTest pc =>
    have hl := unleft (by simp [pc])
    have hdrained : s.stop = true → Drained py s := by
      intro hs
      have hall := hp.progress
      rw [pc] at hall
      simp only [inTime, hs, Bool.not_true, Bool.false_or, Bool.and_eq_true,
        decide_eq_true_eq] at hslow
      exact ⟨hslow.1, hslow.2, hall⟩
    cases hs : s.stop with
    | true =>
      obtain ⟨h1, h2, h3⟩ := hdrained hs
      exact ⟨by simp, by simp, fun _ => .inl ⟨h1, h2, h3⟩, fun _ _ => rfl⟩
    | false => exact ⟨by simp, by simp, by simp, fun o ho => absurd ho (hl o)⟩
  | readClosed pc hc => simp [inTime, hc] at hslow
  | readLine pc =>
    exact ⟨lineRead_going.2.2, fun r hr => .inr (lineRead_rejected hr),
      fun he => absurd he lineRead_going.1, fun o ho => absurd ho (unleft (by simp [pc]) o)⟩
  | readRest pc =>
    exact ⟨lineRead_going.2.2, fun r hr => .inr (lineRead_rejected hr),
      fun he => absurd he lineRead_going.1, fun o ho => absurd ho (unleft (by simp [pc]) o)⟩
  | readEof pc hc he hempty =>
    have hall := hp.progress
    rw [pc] at hall
    exact ⟨by simp, fun _ _ => .inl ⟨he, hempty, hall⟩, by simp,
      fun o ho => absurd ho (unleft (by simp [pc]) o)⟩
  | sent pc =>
    exact ⟨by simp, by simp, by simp, fun o ho => absurd ho (unleft (by simp [pc]) o)⟩
  | notSent pc => simp_all [Willing, willing, inTime]
  | outputFailed pc => exact absurd pc (hi.sound _)
  | outputReport pc =>
    exact ⟨by simp, by simp, fun _ => keep (hi.reporting _ pc), fun _ _ => rfl⟩
  | @finish phase o pc =>
    have hend : ∀ r, s.output = .reporting r → Drained py (finish s o phase) ∨ _ :=
      fun r hr => keep (hi.reporting r hr)
    cases phase with
    | joinOutput =>
      simp only [inTime, pc, decide_eq_true_eq] at hslow
      exact ⟨hi.sound, hend, fun he => keep (hi.ended he), fun _ _ => hslow⟩
    | _ => exact ⟨hi.sound, hend, fun he => keep (hi.ended he), by simp [finish]⟩
  | _ =>
    exact ⟨hi.sound, fun r hr => keep (hi.reporting r hr), fun he => keep (hi.ended he),
      by first | exact hi.left | simp⟩

theorem reach_settling {py : Interpreter} {s : State} (h : Reach (step py) Unhurried init s) :
    s.run.failing = false → Settling py s := by
  refine h.invariant_of (P := fun s => s.run.failing = false → Settling py s)
    (fun _ hr => reach_pumped hr)
    (fun _ => ⟨by simp [init], by simp [init], by simp [init], by simp [init]⟩)
    fun s a s' hp hi hok hs hgo => ?_
  have hstep := step_sound hs
  have hgo₀ := failing_step hstep hgo
  exact (hi hgo₀).step hstep hok hgo₀ hp

/-- The child wrote these lines, each with a newline at its end, and they are valid records. -/
def Says (py : Interpreter) (wrote : Bytes) (ls : List Bytes) : Prop :=
  wrote = unlines newline ls ∧
    ∀ l ∈ ls, newline ∉ l ∧ ∃ r, validatedRecord py (l ++ [newline]) = .ok r

theorem Says.lines {py : Interpreter} {wrote : Bytes} {ls : List Bytes} (h : Says py wrote ls) :
    childLines wrote = ls.map (· ++ [newline]) := by
  rw [childLines, h.1]
  refine cut_unlines fun l hl => ⟨(h.2 l hl).1, ?_⟩
  obtain ⟨r, hr⟩ := (h.2 l hl).2
  exact validatedRecord_ok hr

theorem child_output_sent (py : Interpreter) (s : State) (h : Reach (step py) Unhurried init s)
    (ls : List Bytes) (hsaid : Says py s.wrote ls) (status : Int)
    (hret : s.run = .left (.returning none status)) :
    ls.map (fun l => validatedRecord py (l ++ [newline])) = s.sent.map .ok := by
  have hp := reach_pumped h
  have hi := reach_settling h (by rw [hret]; rfl)
  have hlines := hp.feeds [] fun _ => rfl
  rw [List.append_nil, List.append_nil] at hlines
  have hcut : ls.map (· ++ [newline]) = s.read ++ cut newline lineLimit s.pipe :=
    hsaid.lines.symm.trans hlines
  -- the pump has drained the pipe, or it met a line that is no record: not one of `ls`
  rcases hi.ended (hi.left _ hret) with hd | ⟨l, hl, e, he⟩
  · rw [hd.empty, cut_nil, List.append_nil] at hcut
    rw [← hd.all, ← hcut, List.map_map]
    rfl
  · have hmem : l ∈ ls.map (· ++ [newline]) := hcut ▸ List.mem_append_left _ hl
    obtain ⟨m, hm, rfl⟩ := List.mem_map.mp hmem
    obtain ⟨r, hr⟩ := (hsaid.2 m hm).2
    simp [hr] at he

def emptyLine : Bytes := bytes "\x7b\x7d\n"

theorem says_emptyLine : Says plain emptyLine [bytes "\x7b\x7d"] := by
  refine ⟨by decide, fun l hl => ?_⟩
  rw [List.mem_singleton.mp hl]
  exact ⟨by decide, bytes "\x7b\x7d", by decide +kernel⟩

theorem child_output_sent_once : ∃ s, Reach (step plain) Unhurried init s ∧
    Says plain s.wrote [bytes "\x7b\x7d"] ∧ s.run = .left (.returning none 0) ∧
      s.sent.map Except.ok = [validatedRecord plain emptyLine] := by
  have h : (runWhere (step plain) Unhurried init (childWrites emptyLine ++
      [.outputTest, .outputRead, .outputSend (.ok ()), .outputTest, .childExit 0, .outputRead,
        .outputReport] ++ runs 8)).map
        (fun s => decide (s.wrote = emptyLine) && decide (s.run = .left (.returning none 0))) =
          some true := by
    decide +kernel
  obtain ⟨s, hs, hp⟩ := Option.map_eq_some_iff.mp h
  simp only [Bool.and_eq_true, decide_eq_true_eq] at hp
  have hr := Reach.of_runWhere hs
  have hsaid : Says plain s.wrote [bytes "\x7b\x7d"] := hp.1 ▸ says_emptyLine
  exact ⟨s, hr, hsaid, hp.2, (child_output_sent plain s hr _ hsaid 0 hp.2).symm⟩

/-- The child exits, and `_stop` is set before the pump has read its line. -/
theorem stop_loses_output :
    ¬∀ py s, Reach (step py) Willing init s → ∀ ls, Says py s.wrote ls →
      ∀ status, s.run = .left (.returning none status) →
        ls.map (fun l => validatedRecord py (l ++ [newline])) = s.sent.map .ok := by
  intro hall
  have h : (runWhere (step plain) Willing init
      (childWrites emptyLine ++ [.childExit 0] ++ runs 8 ++ [.outputTest])).map
        (fun s => decide (s.wrote = emptyLine) && decide (s.run = .left (.returning none 0)) &&
          s.sent.isEmpty) = some true := by
    decide +kernel
  obtain ⟨s, hs, hp⟩ := Option.map_eq_some_iff.mp h
  simp only [Bool.and_eq_true, decide_eq_true_eq, List.isEmpty_iff] at hp
  have := hall plain s (Reach.of_runWhere hs) _ (hp.1.1 ▸ says_emptyLine) 0 hp.1.2
  simp [hp.2] at this

end Msys.Bridge
