import MsysSdk.Channel.Replies

/-! Which inbound call was handled in which way: the records behind `handled`, in the order in
which they were read. -/

namespace Msys.Channel
open Python Transition

/-- An inbound call with its id. -/
def callMessage (m : Dict) : Option (Int × Dict) := (callId m).map (·, m)

def inboundMessage (py : Interpreter) : Received → Option (Int × Dict)
  | .data b =>
    match decode py b with
    | .ok m => callMessage m
    | .error _ => none
  | _ => none

/-- The call that the pump has read and not yet handled. -/
def PumpPc.callMessage? : PumpPc → Option (Int × Dict)
  | .message _ m => callMessage m
  | .handling _ m id => some (id, m)
  | _ => none

/-- Each call was handled in its turn, in a way that `R` allows. -/
def Tracked (py : Interpreter) (R : Dict → Handled → Prop) (wire : List Received) (pump : PumpPc)
    (handled : List (Int × Handled)) : Prop :=
  ∃ calls : List (Int × Dict),
    wire.filterMap (inboundMessage py) = calls ++ pump.callMessage?.toList ∧
      List.Forall₂ (fun c h => h.1 = c.1 ∧ R c.2 h.2) calls handled

/-- `Serving`, and what the handler makes of a call is one of the results `R` allows for it. -/
def ServingBy (cfg : Config) (R : Dict → Handled → Prop) (s : State) (a : Action) : Prop :=
  Serving cfg s a ∧ ∀ h n m id, a = .pumpHandle h → s.pump = .handling n m id → R m h

section
variable {py : Interpreter} {R : Dict → Handled → Prop} {wire : List Received}
  {pump pump' : PumpPc} {handled : List (Int × Handled)}

theorem Tracked.go (hi : Tracked py R wire pump handled)
    (hcall : pump'.callMessage? = pump.callMessage?) : Tracked py R wire pump' handled := by
  obtain ⟨calls, hwire, hhandled⟩ := hi
  exact ⟨calls, by rw [hwire, hcall], hhandled⟩

theorem Tracked.receive {r : Received} (hi : Tracked py R wire pump handled)
    (hidle : pump.callMessage? = none) (hcall : inboundMessage py r = pump'.callMessage?) :
    Tracked py R (wire ++ [r]) pump' handled := by
  obtain ⟨calls, hwire, hhandled⟩ := hi
  refine ⟨calls, ?_, hhandled⟩
  rw [List.filterMap_append, hwire, hidle, ← hcall, Option.toList_none, List.append_nil]
  cases h : inboundMessage py r with
  | none => rw [List.filterMap_cons_none h, List.filterMap_nil, Option.toList_none]
  | some c => rw [List.filterMap_cons_some h, List.filterMap_nil, Option.toList_some]

theorem Tracked.handle {n : Nat} {m : Dict} {id : Int} {h : Handled}
    (hi : Tracked py R wire pump handled) (pc : pump = .handling n m id) (hR : R m h)
    (hidle : pump'.callMessage? = none) : Tracked py R wire pump' (handled ++ [(id, h)]) := by
  obtain ⟨calls, hwire, hhandled⟩ := hi
  refine ⟨calls ++ [(id, m)], ?_, List.rel_append hhandled (.cons ⟨rfl, hR⟩ .nil)⟩
  rw [hwire, hidle, pc, Option.toList_none, List.append_nil]
  rfl

end

theorem callMessage_of_reply {m : Dict} {id : Int} (h : replyId m = .ok (some id)) :
    callMessage m = none := by
  rw [callMessage, callId_of_reply h, Option.map_none]

theorem pass_callMessage (cfg : Config) (hh : cfg.handles = true) (n : Nat) (m : Dict) :
    (pass cfg n m).callMessage? = callMessage m := by
  unfold pass callMessage callId
  rw [hh, Bool.and_true]
  split_ifs
  · cases (field m "id").asInt <;> rfl
  · rfl

theorem Tracked.step {cfg : Config} {R : Dict → Handled → Prop} {s s' : State} {a : Action}
    (h : Step cfg s a s') (hh : cfg.handles = true) (hok : ServingBy cfg R s a)
    (hstart : s.pumpThread = false → s.pump = .absent)
    (hhash : ∀ n m, s.pump = .message n m → hashable (field m "type") = true)
    (hi : Tracked cfg.py R s.wire s.pump s.handled) :
    Tracked cfg.py R s'.wire s'.pump s'.handled := by
  cases h with
  | pumpStart ht => exact hi.go (by rw [hstart ht]; rfl)
  | pumpTest pc => exact hi.go (by rw [pc]; split_ifs <;> rfl)
  | pumpSettimeout pc => exact hi.go (by rw [pc]; split_ifs <;> rfl)
  | recvTimeout pc => exact hi.receive (by rw [pc]; rfl) rfl
  | recvFailed pc => exact hi.receive (by rw [pc]; rfl) rfl
  | recvEof pc => exact hi.receive (by rw [pc]; rfl) rfl
  | recvBad pc hb packet =>
    exact hi.receive (by rw [pc]; rfl) (by rw [inboundMessage, packet]; rfl)
  | recv pc hb packet =>
    exact hi.receive (by rw [pc]; rfl) (by rw [inboundMessage, packet]; rfl)
  | failedClosed pc hc => exact hi.go (by rw [pc]; rfl)
  | failedOpen pc hc => exact hi.go (by rw [pc]; rfl)
  | unhashable pc hm => exact absurd hm (replyId_of_hashable (hhash _ _ pc))
  | notReply pc => exact hi.go (by rw [pc, pass_callMessage cfg hh]; rfl)
  | unknown pc => exact hi.go (by rw [pc, pass_callMessage cfg hh]; rfl)
  | found pc hm => exact hi.go (by rw [pc]; exact (callMessage_of_reply hm).symm)
  | deliver pc => exact hi.go (by rw [pc]; rfl)
  | full pc => exact hi.go (by rw [pc]; rfl)
  | handle pc reply => exact hi.handle pc (hok.2 _ _ _ _ rfl pc) rfl
  | handleRaised pc reply => exact hi.handle pc (hok.2 _ _ _ _ rfl pc) rfl
  | replied pc frame => exact hi.go (by rw [pc]; rfl)
  | returnFailed pc frame reply => exact hi.go (by rw [pc]; rfl)
  | returnRaised pc frame reply => exact hi.go (by rw [pc]; rfl)
  | errorFailed pc frame => exact hi.go (by rw [pc]; rfl)
  | callback pc => exact hi.go (by rw [pc]; rfl)
  | notifiedEnd pc hm => exact hi.go (by rw [pc]; rfl)
  | notifiedOn pc hm => exact hi.go (by rw [pc]; rfl)
  | leave pc frame => exact hi.go (by rw [pc]; split_ifs <;> rfl)
  | announce pc => exact hi.go (by rw [pc]; rfl)
  | _ => exact hi

/-- A run with a handler: the pump serves, and keeps its calls apart. -/
theorem reach_tracked {cfg : Config} {R : Dict → Handled → Prop} (hh : cfg.handles = true)
    {s : State} (h : Reach (step cfg) (ServingBy cfg R) init s) :
    Server cfg s ∧ Tracked cfg.py R s.wire s.pump s.handled := by
  refine h.invariant_of (P := fun s => Server cfg s ∧ Tracked cfg.py R s.wire s.pump s.handled)
    (fun _ hr => reach_inv hr) ⟨server_init cfg, [], rfl, .nil⟩ ?_
  rintro s a s' inv ⟨hserver, htracked⟩ hok hs
  have hstep := step_sound hs
  exact ⟨hserver.step hstep hh hok.1 inv.started,
    htracked.step hstep hh hok inv.started fun n m pc => (hserver.short n m pc).2⟩

end Msys.Channel
