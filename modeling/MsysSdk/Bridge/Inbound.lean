import MsysSdk.Bridge.Steps
import Mathlib.Data.List.Forall2
import Mathlib.Data.List.Induction

/-! From the supervisor to the child. A packet is passed on as it came, with a newline after
it, so a packet with a newline among its white space becomes several lines. -/

namespace Msys.Bridge
open Python Framing Transition

theorem checkObject_ok {py : Interpreter} {record : Bytes} {invalid notObject : Str}
    (h : checkObject py record invalid notObject = .ok ()) :
    ∃ d, loads py false record = .ok (.dict d) := by
  unfold checkObject at h
  split at h
  next d hd => exact ⟨d, hd⟩
  all_goals cases h

theorem checkPacket_ok {py : Interpreter} {packet : Bytes} (h : checkPacket py packet = .ok ()) :
    packet.length ≤ maxPacket ∧ ∃ d, loads py false packet = .ok (.dict d) := by
  unfold checkPacket at h
  split_ifs at h with hlen
  exact ⟨Nat.le_of_not_lt hlen, checkObject_ok h⟩

/-- The stream has one line for each packet, in order, and it parses to the same object. -/
def Framed (py : Interpreter) (stream : Bytes) (packets : List Bytes) : Prop :=
  List.Forall₂ (fun line packet =>
    ∃ d, loads py false line = .ok (.dict d) ∧ loads py false packet = .ok (.dict d))
    (lines newline stream) packets

theorem framed_iff {py : Interpreter} {packets : List Bytes}
    (h : ∀ p ∈ packets, checkPacket py p = .ok ()) :
    Framed py (unlines newline packets) packets ↔ ∀ p ∈ packets, newline ∉ p := by
  constructor
  · exact fun hf => (length_lines_unlines packets).mp hf.length_eq
  · intro hn
    rw [Framed, lines_unlines hn, List.forall₂_same]
    intro p hp
    obtain ⟨-, d, hd⟩ := checkPacket_ok (h p hp)
    exact ⟨d, hd, hd⟩

/-! ### Runs -/

structure Forwarding (py : Interpreter) (s : State) : Prop where
  stream : s.toChild = unlines newline s.forwarded
  checked : ∀ p ∈ s.forwarded, checkPacket py p = .ok ()
  inHand : ∀ p, s.input = .writing p → checkPacket py p = .ok ()

theorem Forwarding.step {py : Interpreter} {s s' : State} {a : Action} (h : Step py s a s')
    (hi : Forwarding py s) : Forwarding py s' := by
  obtain ⟨hstream, hchecked, hhand⟩ := hi
  cases h with
  | @written packet pc hc =>
    refine ⟨by simp only [hstream, unlines_append], fun p hp => ?_, by simp⟩
    rcases List.mem_append.mp hp with hp | hp
    · exact hchecked p hp
    · rw [List.mem_singleton.mp hp]
      exact hhand packet pc
  | recv pc hp check =>
    exact ⟨hstream, hchecked, fun p hp => InputPc.writing.inj hp ▸ check⟩
  | started pc => exact ⟨hstream, hchecked, by simp⟩
  | inputTest pc =>
    refine ⟨hstream, hchecked, fun p hp => ?_⟩
    dsimp only at hp
    split_ifs at hp
  | inputFailed pc =>
    refine ⟨hstream, hchecked, fun p hp => ?_⟩
    dsimp only at hp
    split_ifs at hp
  | @finish phase o pc => cases phase <;> exact ⟨hstream, hchecked, hhand⟩
  | _ => first | exact ⟨hstream, hchecked, hhand⟩ | exact ⟨hstream, hchecked, by simp⟩

theorem reach_forwarding {py : Interpreter} {ok : State → Action → Prop} {s : State}
    (h : Reach (step py) ok init s) : Forwarding py s :=
  h.invariant ⟨rfl, by simp [init], by simp [init]⟩ fun _ _ _ hi _ hs => hi.step (step_sound hs)

/-- Any packets that pass the checks are passed on in some run. -/
theorem forwards (py : Interpreter) (packets : List Bytes)
    (h : ∀ p ∈ packets, p ≠ [] ∧ checkPacket py p = .ok ()) :
    ∃ s, Reach (step py) Any init s ∧ s.forwarded = packets ∧ s.input = .test ∧ s.stop = false ∧
      s.stdinClosed = false := by
  -- each packet takes one round of the pump from its test of `_stop` back to it
  induction packets using List.reverseRec with
  | nil =>
    have hs : step py init (.spawn true) = some { init with
      run := .poll, child := .running true, output := .test, input := .test } := rfl
    exact ⟨_, Reach.start.next trivial hs, rfl, rfl, rfl, rfl⟩
  | append_singleton packets p ih =>
    obtain ⟨s, hr, hf, hi, hstop, hopen⟩ := ih fun q hq => h q (by simp [hq])
    obtain ⟨hne, hcheck⟩ := h p (by simp)
    have hrun : run (step py) s [.inputTest, .inputRecv (.data p), .inputWrite (.ok ())] =
        some { s with
          input := .test
          forwarded := s.forwarded ++ [p]
          toChild := s.toChild ++ p ++ [newline] } := by
      simp [Transition.run, step, inputTest, inputRecv, inputWrite, hi, hstop, hopen, hne, hcheck]
    exact ⟨_, hr.trans (Reach.of_run hrun), by simp [hf], rfl, hstop, hopen⟩

theorem packets_framed (py : Interpreter) (s : State) (h : Reach (step py) Any init s) :
    Framed py s.toChild s.forwarded ↔ ∀ p ∈ s.forwarded, newline ∉ p := by
  have hi := reach_forwarding h
  rw [hi.stream]
  exact framed_iff hi.checked

def emptyObject : Bytes := bytes "\x7b\x7d"

theorem packets_framed_empty : ∃ s, Reach (step plain) Any init s ∧ s.forwarded = [emptyObject] ∧
    Framed plain s.toChild s.forwarded := by
  obtain ⟨s, hr, hf, -⟩ := forwards plain [emptyObject] (by decide +kernel)
  refine ⟨s, hr, hf, (packets_framed plain s hr).mpr ?_⟩
  rw [hf]
  decide

/-- An object with a newline between its braces. -/
theorem newline_breaks_framing :
    ¬∀ py s, Reach (step py) Any init s → Framed py s.toChild s.forwarded := by
  intro hall
  obtain ⟨s, hr, hf, -⟩ := forwards plain [bytes "\x7b\n\x7d"] (by decide +kernel)
  -- the newline between the braces ends the child's first line
  have hi := reach_forwarding hr
  have hframed := hall plain s hr
  rw [hi.stream, framed_iff hi.checked, hf] at hframed
  exact absurd hframed (by decide)

end Msys.Bridge
