import MsysSdk.Manifest.Write

/-! Calls without force that nobody gets ahead of replace nothing. -/

namespace Msys.AppManifest
open Python Transition

/-- Past the existence test, and bound to replace the file. -/
def Pc.committed : Pc → Bool
  | .prepare job => job.payload.isSome
  | .create _ text | .write _ text => (encodeUtf8 text).isSome
  | .replace _ => true
  | _ => false

def Pc.succeeded : Pc → Bool
  | .unlink _ | .returned _ => true
  | _ => false

def Unforced : Action → Prop
  | .start _ job => job.force = false
  | _ => True

/-- Nobody creates or replaces the file while a call is between its test and its replacement. -/
def Careful (s : State) : Action → Prop
  | .replaceFile k => ∀ j, j ≠ k → (s.caller j).committed = false
  | .otherCreates _ => ∀ j, (s.caller j).committed = false
  | _ => True

/-- What a call knows, given its temporary file. -/
def Local (path : Str) (temporary : Option Bytes) : Pc → Prop
  | .test job => job.force = false
  | .create job text | .write job text => job.text = some text
  | .replace _ => temporary ≠ none
  | .raised job e => e = refusal path ∨ job.payload = none
  | _ => True

structure Sound (path : Str) (file : Option Bytes) (temporary : Nat → Option Bytes)
    (caller : Nat → Pc) : Prop where
  known : ∀ k, Local path (temporary k) (caller k)
  fresh : ∀ k, (caller k).committed = true → file = none
  there : ∀ k, (caller k).succeeded = true → file ≠ none
  one : ∀ j k, (caller j).succeeded = true → (caller k).succeeded = true → j = k

section
variable {path : Str} {file : Option Bytes} {temporary temporary' : Nat → Option Bytes}
  {caller : Nat → Pc} {k : Nat}

theorem Sound.known_at {pc : Pc} (h : Sound path file temporary caller) (hpc : caller k = pc) :
    Local path (temporary k) pc := hpc ▸ h.known k

theorem Sound.fresh_at {pc : Pc} (h : Sound path file temporary caller) (hpc : caller k = pc)
    (hcommitted : pc.committed = true) : file = none :=
  h.fresh k (hpc ▸ hcommitted)

/-- One call moves and the file stays. -/
theorem Sound.move {pc : Pc} (h : Sound path file temporary caller)
    (hothers : ∀ j, j ≠ k → temporary' j = temporary j)
    (hknown : Local path (temporary' k) pc) (hfresh : pc.committed = true → file = none)
    (hdone : pc.succeeded = true → (caller k).succeeded = true) :
    Sound path file temporary' (Function.update caller k pc) := by
  have hsucceeded : ∀ j, (Function.update caller k pc j).succeeded = true →
      (caller j).succeeded = true := by
    intro j hj
    rcases eq_or_ne j k with rfl | hne
    · rw [Function.update_self] at hj
      exact hdone hj
    · rwa [Function.update_of_ne hne] at hj
  refine ⟨fun j => ?_, fun j hj => ?_, fun j hj => h.there j (hsucceeded j hj),
    fun i j hi hj => h.one i j (hsucceeded i hi) (hsucceeded j hj)⟩
  · rcases eq_or_ne j k with rfl | hne
    · rw [Function.update_self]
      exact hknown
    · rw [Function.update_of_ne hne, hothers j hne]
      exact h.known j
  · rcases eq_or_ne j k with rfl | hne
    · rw [Function.update_self] at hj
      exact hfresh hj
    · rw [Function.update_of_ne hne] at hj
      exact h.fresh j hj

/-- The first one to get there, with nobody else on the way. -/
theorem Sound.replace {job : Job} {content : Bytes} (h : Sound path file temporary caller)
    (pc : caller k = .replace job) (hothers : ∀ j, j ≠ k → temporary' j = temporary j)
    (halone : ∀ j, j ≠ k → (caller j).committed = false) :
    Sound path (some content) temporary' (Function.update caller k (.unlink job)) := by
  have hself : ∀ j, (Function.update caller k (.unlink job) j).succeeded = true → j = k := by
    intro j hj
    by_contra hne
    rw [Function.update_of_ne hne] at hj
    exact h.there j hj (h.fresh_at pc rfl)
  refine ⟨fun j => ?_, fun j hj => ?_, fun _ _ => Option.some_ne_none content,
    fun i j hi hj => (hself i hi).trans (hself j hj).symm⟩
  · rcases eq_or_ne j k with rfl | hne
    · rw [Function.update_self]
      trivial
    · rw [Function.update_of_ne hne, hothers j hne]
      exact h.known j
  · rcases eq_or_ne j k with rfl | hne
    · rw [Function.update_self] at hj
      cases hj
    · rw [Function.update_of_ne hne, halone j hne] at hj
      cases hj

theorem Sound.create {content : Bytes} (h : Sound path file temporary caller)
    (halone : ∀ j, (caller j).committed = false) : Sound path (some content) temporary caller := by
  refine ⟨h.known, fun j hj => ?_, fun _ _ => Option.some_ne_none content, h.one⟩
  rw [halone j] at hj
  cases hj

end

theorem Job.payload_of_text {job : Job} {text : Str} (h : job.text = some text) :
    job.payload = encodeUtf8 text := by
  rw [Job.payload, h]
  rfl

theorem Sound.step {path : Str} {s s' : State} {a : Action} (h : Step path s a s')
    (hok : Unforced a ∧ Careful s a) (hi : Sound path s.file s.temporary s.caller) :
    Sound path s'.file s'.temporary s'.caller := by
  obtain ⟨hunforced, hcareful⟩ := hok
  have hsame : ∀ {k : Nat} (j : Nat), j ≠ k → s.temporary j = s.temporary j := fun _ _ => rfl
  have hupdate : ∀ {k : Nat} {c : Option Bytes} (j : Nat), j ≠ k →
      Function.update s.temporary k c j = s.temporary j := fun _ hne => Function.update_of_ne hne _ _
  cases h with
  | start pc => exact hi.move hsame hunforced (by simp [Pc.committed]) (by simp [Pc.succeeded])
  | refused pc =>
    exact hi.move hsame (.inl rfl) (by simp [Pc.committed]) (by simp [Pc.succeeded])
  | @admitted k job pc hfile =>
    have hforce : job.force = false := hi.known_at pc
    have hnone : s.file = none := hfile.resolve_right (by simp [hforce])
    exact hi.move hsame trivial (fun _ => hnone) (by simp [Pc.succeeded])
  | @prepared k job text pc ht =>
    refine hi.move hsame ht (fun hc => hi.fresh_at pc ?_) (by simp [Pc.succeeded])
    rw [Pc.committed, Job.payload_of_text ht]
    exact hc
  | unprepared pc ht =>
    refine hi.move hsame (.inr ?_) (by simp [Pc.committed]) (by simp [Pc.succeeded])
    rw [Job.payload, ht]
    rfl
  | created pc =>
    exact hi.move hupdate (hi.known_at pc) (fun hc => hi.fresh_at pc hc) (by simp [Pc.succeeded])
  | @written k job text content pc hb =>
    refine hi.move hupdate ?_ (fun _ => hi.fresh_at pc ?_) (by simp [Pc.succeeded])
    · show Function.update s.temporary k (some content) k ≠ none
      rw [Function.update_self]
      exact Option.some_ne_none content
    · rw [Pc.committed, hb]
      rfl
  | @unwritten k job text pc hb =>
    have htext : job.text = some text := hi.known_at pc
    refine hi.move hsame (.inr ?_) (by simp [Pc.committed]) (by simp [Pc.succeeded])
    rw [Job.payload_of_text htext, hb]
  | replaced pc => exact hi.replace pc hupdate hcareful
  | lost pc ht => exact absurd ht (hi.known_at pc)
  | unlinked pc =>
    exact hi.move hupdate trivial (by simp [Pc.committed]) fun _ => by rw [pc]; rfl
  | otherCreates => exact hi.create hcareful

theorem reach_sound {path : Str} {s : State}
    (h : Reach (step path) (fun s a => Unforced a ∧ Careful s a) init s) :
    Sound path s.file s.temporary s.caller := by
  refine h.invariant (P := fun s => Sound path s.file s.temporary s.caller) ?_
    fun _ _ _ hi hok hs => Sound.step (step_sound hs) hok hi
  exact ⟨fun _ => trivial, by simp [init, Pc.committed], by simp [init, Pc.succeeded],
    by simp [init, Pc.succeeded]⟩

/-- Whoever is about to replace the file finds none, at most one call succeeds, and the others are
refused, unless their own manifest cannot be written. -/
theorem keeps_existing {path : Str} {s : State}
    (h : Reach (step path) (fun s a => Unforced a ∧ Careful s a) init s) :
    (∀ k job, s.caller k = .replace job → s.file = none) ∧
    (∀ j k, (s.caller j).succeeded = true → (s.caller k).succeeded = true → j = k) ∧
    ∀ k job e, s.caller k = .raised job e → e = refusal path ∨ job.payload = none := by
  have hs := reach_sound h
  refine ⟨fun k job pc => hs.fresh_at pc rfl, hs.one, fun k job e pc => hs.known_at pc⟩

def plainJob : Job := ⟨some (str "\x7b\x7d\n"), false⟩

/-- Two calls, one after the other. -/
theorem keeps_existing_twice :
    ∃ s, run (step (str "m")) init
        [.start 0 plainJob, .start 1 plainJob, .existsTest 0, .prepare 0, .createTemporary 0,
          .writeTemporary 0, .replaceFile 0, .existsTest 1, .unlink 0] = some s ∧
      s.caller 0 = .returned plainJob ∧ s.caller 1 = .raised plainJob (refusal (str "m")) ∧
      ∀ j k, (s.caller j).succeeded = true → (s.caller k).succeeded = true → j = k := by
  have first := (@Reach.start _ _ (step (str "m")) (fun s a => Unforced a ∧ Careful s a)
    init).follow (show run (step (str "m")) init [.start 0 plainJob, .start 1 plainJob,
      .existsTest 0, .prepare 0, .createTemporary 0, .writeTemporary 0] = some _ from rfl)
    (by simp [Unforced, Careful, plainJob])
  have alone : ∀ {caller : Nat → Pc}, (caller 1).committed = false →
      (∀ j, (caller (j + 2)).committed = false) → ∀ j, j ≠ 0 → (caller j).committed = false
    | _, _, _, 0, hj => absurd rfl hj
    | _, h1, _, 1, _ => h1
    | _, _, hrest, j + 2, _ => hrest j
  have replaced := first.next (show Unforced (.replaceFile 0) ∧ Careful _ (.replaceFile 0) from
    ⟨trivial, alone rfl fun _ => rfl⟩) rfl
  have done := replaced.follow (show run (step (str "m")) _ [.existsTest 1, .unlink 0] = some _
    from rfl) (by simp [Unforced, Careful])
  exact ⟨_, rfl, rfl, rfl, (keeps_existing done).2.1⟩

/-- Two calls that both look first. -/
theorem both_replace :
    ¬∀ (path : Str) (s : State), Reach (step path) (fun _ a => Unforced a) init s →
      (∀ k job, s.caller k = .replace job → s.file = none) ∧
      (∀ j k, (s.caller j).succeeded = true → (s.caller k).succeeded = true → j = k) := by
  intro h
  have both := (@Reach.start _ _ (step (str "m")) (fun _ a => Unforced a) init).follow
    (show run (step (str "m")) init [.start 0 plainJob, .start 1 plainJob, .existsTest 0,
      .existsTest 1, .prepare 0, .prepare 1, .createTemporary 0, .createTemporary 1,
      .writeTemporary 0, .writeTemporary 1, .replaceFile 0, .replaceFile 1] = some _ from rfl)
    (by simp [Unforced, plainJob])
  exact absurd ((h (str "m") _ both).2 0 1 rfl rfl) (by decide)

end Msys.AppManifest
