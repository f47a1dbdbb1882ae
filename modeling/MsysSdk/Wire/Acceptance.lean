import MsysSdk.Client.Model
import MsysSdk.Channel.Model
import MsysSdk.Bridge.Inbound
import MsysSdk.Python.JsonConstants

/-! The endpoints of one socket: what `MsysClient.send` and the bridge put on it, and what
`_decode`, `_read_packet` and the bridge's pump make of that. -/

namespace Msys.Wire
open Python

/-- All three decoders read `m` from the packet. -/
structure Accepted (py : Interpreter) (packet : Bytes) (m : Dict) : Prop where
  channel : Channel.decode py packet = .ok m
  client : Client.readPacket py packet = .ok (some m)
  bridge : Bridge.checkPacket py packet = .ok ()
  bridgeValue : loads py false packet = .ok (.dict m)

section
variable {py : Interpreter} {packet : Bytes}

theorem Accepted.strict {m : Dict} (h : Accepted py packet m) :
    loads py true packet = .ok (.dict m) := by
  have hdecode := h.channel
  unfold Channel.decode at hdecode
  split_ifs at hdecode
  split at hdecode
  next => cases hdecode
  next d hd => rw [hd, Except.ok.inj hdecode]
  next => cases hdecode

/-- Both ways of reading give the same object, and the packet has a size that every endpoint
takes. -/
theorem accepted_of_loads {m : Dict} (hne : packet ≠ []) (hlen : packet.length ≤ maxPacket)
    (hlax : loads py false packet = .ok (.dict m)) (hstrict : loads py true packet = .ok (.dict m)) :
    Accepted py packet m where
  channel := by rw [Channel.decode, if_neg hne, if_neg (Nat.not_lt.mpr hlen), hstrict]
  client := by rw [Client.readPacket, if_neg hne, if_neg (Nat.not_lt.mpr hlen), hlax]
  bridge := by rw [Bridge.checkPacket, if_neg (Nat.not_lt.mpr hlen), Bridge.checkObject, hlax]
  bridgeValue := hlax

theorem accepted_iff {m : Dict} (hne : packet ≠ []) (hlen : packet.length ≤ maxPacket) :
    Accepted py packet m ↔
      loads py false packet = .ok (.dict m) ∧ loads py true packet = .ok (.dict m) :=
  ⟨fun h => ⟨h.bridgeValue, h.strict⟩, fun h => accepted_of_loads hne hlen h.1 h.2⟩

/-! ### What is transmitted -/

theorem encodeForSend_ok {v : Value} (h : Client.encodeForSend py v = .ok packet) :
    dumps py true v = .ok packet ∧ packet.length ≤ maxPacket := by
  unfold Client.encodeForSend at h
  split at h
  · cases h
  next data hdata =>
    split_ifs at h with hlarge
    cases h
    exact ⟨hdata, Nat.le_of_not_lt hlarge⟩

theorem sent_accepted_iff {v : Value} {m : Dict} (hv : v.IsJson py)
    (h : Client.encodeForSend py v = .ok packet) :
    Accepted py packet m ↔ v = .dict m ∧ v.finite = true := by
  obtain ⟨hdumps, hlen⟩ := encodeForSend_ok h
  rw [accepted_iff (dumps_ne_nil hv hdumps) hlen, loads_dumps hv hdumps, loads_dumps hv hdumps]
  cases v.finite <;> simp

theorem validatedRecord_ok {line record : Bytes} (h : Bridge.validatedRecord py line = .ok record) :
    record ≠ [] ∧ record.length ≤ maxPacket ∧ ∃ m, loads py false record = .ok (.dict m) := by
  unfold Bridge.validatedRecord at h
  dsimp only at h
  split_ifs at h with hend hcr hempty hlarge hempty hlarge
  all_goals
    split at h
    next hcheck =>
      cases h
      exact ⟨hempty, Nat.le_of_not_lt hlarge, Bridge.checkObject_ok hcheck⟩
    next => cases h

theorem forwarded_accepted_iff {line record : Bytes}
    (h : Bridge.validatedRecord py line = .ok record) :
    (∃ m, Accepted py record m) ↔ namesConstant record = false := by
  obtain ⟨hne, hlen, d, hlax⟩ := validatedRecord_ok h
  have hstrict := loads_strict hlax
  constructor
  · rintro ⟨m, hm⟩
    cases hnamed : namesConstant record with
    | false => rfl
    | true =>
      rw [hm.strict, hnamed] at hstrict
      cases hstrict
  · intro hnamed
    rw [hnamed] at hstrict
    exact ⟨d, accepted_of_loads hne hlen hlax hstrict⟩

end

/-! ### Transmission and acceptance -/

theorem transmitted_accepted (py : Interpreter) :
    (∀ (v : Value) (packet : Bytes), v.IsJson py → Client.encodeForSend py v = .ok packet →
      ((∃ m, Accepted py packet m) ↔ (∃ m, v = .dict m) ∧ v.finite = true) ∧
        ∀ m, Accepted py packet m → v = .dict m) ∧
      ∀ line record, Bridge.validatedRecord py line = .ok record →
        ((∃ m, Accepted py record m) ↔ namesConstant record = false) := by
  refine ⟨fun v packet hv h => ⟨?_, fun m hm => ((sent_accepted_iff hv h).mp hm).1⟩,
    fun line record h => forwarded_accepted_iff h⟩
  constructor
  · rintro ⟨m, hm⟩
    obtain ⟨hdict, hfinite⟩ := (sent_accepted_iff hv h).mp hm
    exact ⟨⟨m, hdict⟩, hfinite⟩
  · rintro ⟨⟨m, hdict⟩, hfinite⟩
    exact ⟨m, (sent_accepted_iff hv h).mpr ⟨hdict, hfinite⟩⟩

/-- `{"type":"eof"}`, sent by a client and forwarded by a bridge. -/
theorem transmitted_accepted_eof :
    (∃ packet, Client.encodeForSend plain (.dict eof) = .ok packet ∧
      ∃ m, Accepted plain packet m) ∧
      ∃ record, Bridge.validatedRecord plain (bytes "\x7b\"type\":\"eof\"\x7d\r\n") = .ok record ∧
        ∃ m, Accepted plain record m := by
  have hsent : Client.encodeForSend plain (.dict eof) =
      .ok (bytes "\x7b\"type\":\"eof\"\x7d") := by decide +kernel
  have hforwarded : Bridge.validatedRecord plain (bytes "\x7b\"type\":\"eof\"\x7d\r\n") =
      .ok (bytes "\x7b\"type\":\"eof\"\x7d") := by decide +kernel
  have hjson : (Value.dict eof).IsJson plain :=
    ⟨by decide, ⟨_, rfl⟩, trivial, trivial⟩
  exact ⟨⟨_, hsent, ((transmitted_accepted plain).1 _ _ hjson hsent).1.mpr ⟨⟨_, rfl⟩, by decide⟩⟩,
    _, hforwarded, ((transmitted_accepted plain).2 _ _ hforwarded).mpr (by decide +kernel)⟩

/-- `{"a":NaN}` leaves `send`, and `_decode` refuses the constant. -/
theorem nan_refused :
    ¬∀ py m packet, (Value.dict m).IsJson py → Client.encodeForSend py (.dict m) = .ok packet →
      ∃ m', Accepted py packet m' := by
  intro hall
  have hjson : (Value.dict [(.str (str "a"), .float .nan)]).IsJson plain :=
    ⟨by decide, ⟨_, rfl⟩, trivial, trivial⟩
  have hsent : Client.encodeForSend plain (.dict [(.str (str "a"), .float .nan)]) =
      .ok (bytes "\x7b\"a\":NaN\x7d") := by decide +kernel
  obtain ⟨m, hm⟩ := hall plain _ _ hjson hsent
  cases ((sent_accepted_iff hjson hsent).mp hm).2

end Msys.Wire
