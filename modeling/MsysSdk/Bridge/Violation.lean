import MsysSdk.Bridge.Outbound

/-! A line of the child that is rejected fails the bridge, unless `run` finds the child
exited before it has taken the report. -/

namespace Msys.Bridge
open Python Framing Transition

/-- `run` is past its loop with no failure noted. -/
def RunPc.unfailed : RunPc → Bool
  | .wait f => f.isNone
  | .leaving _ o | .left o => o.unfailed
  | _ => false

/-- The loop test of `run` does not find the child exited. -/
def watching (s : State) : Action → Bool
  | .run => s.run ≠ .poll || s.child.poll = none
  | _ => true

def Watching (s : State) (a : Action) : Prop := watching s a = true

instance (s : State) (a : Action) : Decidable (Watching s a) :=
  inferInstanceAs (Decidable (_ = true))

theorem unfailed_step {py : Interpreter} {s s' : State} {a : Action} (h : Step py s a s')
    (hok : Watching s a) (hp : Pumped py s) (hi : s.run.unfailed = true → Drained py s) :
    s'.run.unfailed = true → Drained py s' := by
  intro hr
  have keep : s.run.unfailed = true → Drained py s' := fun hu => (hi hu).step h hp
  have eof : s.run = .waitEof → Drained py s' := fun hw => (hp.waitEof hw).step h hp
  cases h with
  | pollExited pc hc => simp [Watching, watching, pc, hc] at hok
  | eofExited pc => exact eof pc
  | @waited f code pc =>
    refine keep ?_
    rw [pc]
    cases f <;> exact hr
  | @finish phase o pc =>
    have hu : s.run.unfailed = true := by
      rw [pc]
      cases phase <;> exact hr
    cases phase <;> exact keep hu
  | _ => first | exact keep hr | cases hr

/-- Some line of the child's output is rejected. -/
def Violates (py : Interpreter) (wrote : Bytes) : Prop :=
  ∃ l ∈ childLines wrote, ∃ e, validatedRecord py l = .error e

theorem Drained.not_violates {py : Interpreter} {s : State} (hd : Drained py s)
    (hp : Pumped py s) : ¬Violates py s.wrote := by
  rintro ⟨l, hl, e, he⟩
  have hfeeds := hp.feeds
  rw [hd.empty] at hfeeds
  rw [childLines, hfeeds.finished] at hl
  have hmem : validatedRecord py l ∈ s.sent.map .ok := hd.all ▸ List.mem_map_of_mem hl
  obtain ⟨r, -, hr⟩ := List.mem_map.mp hmem
  simp [he] at hr

/-- What `run` returns is the status of a failure that it has noted. -/
theorem violation_fails (py : Interpreter) (s : State) (h : Reach (step py) Watching init s)
    (hbad : Violates py s.wrote) (code : Int) (hret : exitStatus s.run = some code) :
    code = 65 ∧ ∃ failure status, s.run = .left (.returning (some failure) status) := by
  have hp := reach_pumped h
  have hunfailed := h.invariant_of (P := fun s => s.run.unfailed = true → Drained py s)
    (fun _ hr => reach_pumped hr) (by simp [init, RunPc.unfailed])
    fun _ _ _ hp hi hok hs => unfailed_step (step_sound hs) hok hp hi
  unfold exitStatus at hret
  split at hret
  next hr =>
    obtain ⟨l, hl, -⟩ := hbad
    simp [childLines, (hp.fresh (.inr hr)).2.2] at hl
  next f c hr => exact ⟨(Option.some.inj hret).symm, f, c, hr⟩
  next c hr => exact absurd hbad ((hunfailed (by rw [hr]; rfl)).not_violates hp)
  next => cases hret

def violates (py : Interpreter) (wrote : Bytes) : Bool :=
  (childLines wrote).any fun l => (validatedRecord py l).toOption.isNone

theorem violates_iff {py : Interpreter} {wrote : Bytes} :
    violates py wrote = true ↔ Violates py wrote := by
  simp only [violates, Violates, List.any_eq_true]
  refine exists_congr fun l => and_congr_right fun _ => ?_
  cases validatedRecord py l <;> simp [Except.toOption]

theorem violation_fails_log : ∃ s, Reach (step plain) Watching init s ∧ Violates plain s.wrote ∧
    exitStatus s.run = some 65 := by
  have h : (runWhere (step plain) Watching init (childWrites (bytes "log\n") ++
      [.outputTest, .outputRead, .outputReport] ++ runs 2 ++ [.childExit 0] ++ runs 8)).map
        (fun s => violates plain s.wrote && (exitStatus s.run).isSome) = some true := by
    decide +kernel
  obtain ⟨s, hs, hp⟩ := Option.map_eq_some_iff.mp h
  simp only [Bool.and_eq_true, Option.isSome_iff_exists] at hp
  obtain ⟨hbad, code, hret⟩ := hp
  have hr := Reach.of_runWhere hs
  have hbad := violates_iff.mp hbad
  exact ⟨s, hr, hbad, (violation_fails plain s hr hbad code hret).1 ▸ hret⟩

/-- The child exits at once: `run` sees that before the pump has reported the line. -/
theorem violation_unseen :
    ¬∀ py s, Reach (step py) Any init s → Violates py s.wrote → exitStatus s.run ≠ some 0 := by
  intro hall
  have h : (run (step plain) init
      (childWrites (bytes "log\n") ++ [.childExit 0] ++ runs 8)).map
        (fun s => violates plain s.wrote && decide (exitStatus s.run = some 0)) = some true := by
    decide +kernel
  obtain ⟨s, hs, hp⟩ := Option.map_eq_some_iff.mp h
  simp only [Bool.and_eq_true, decide_eq_true_eq] at hp
  exact hall plain s (Reach.of_run hs) (violates_iff.mp hp.1) hp.2

end Msys.Bridge
