import MsysSdk.Mipc.Receive

/-! What the receiver does with the packets: each one is taken off the queue once, and delivered
exactly if it is small enough and looks like an object. -/

namespace Msys.Mipc
open Libc

/-- Small enough, and an object's text by its first and last characters. -/
def Deliverable (packet : Bytes) : Prop :=
  packet.length ≤ 262144 ∧ (trimSpace packet).head? = some (chr '{') ∧
    (trimSpace packet).getLast? = some (chr '}')

instance (packet : Bytes) : Decidable (Deliverable packet) :=
  inferInstanceAs (Decidable (_ ∧ _ ∧ _))

theorem jsonObjectShape_iff (packet : Bytes) :
    jsonObjectShape packet = true ↔
      (trimSpace packet).head? = some (chr '{') ∧ (trimSpace packet).getLast? = some (chr '}') := by
  have hlength : (trimSpace packet).head? = some (chr '{') →
      (trimSpace packet).getLast? = some (chr '}') → 2 ≤ (trimSpace packet).length := by
    intro hfirst hlast
    match htrim : trimSpace packet with
    | [] => simp [htrim] at hfirst
    | [b] =>
      rw [htrim] at hfirst hlast
      cases hfirst
      exact absurd hlast (by decide)
    | _ :: _ :: _ => simp
  simp only [jsonObjectShape, Bool.and_eq_true, decide_eq_true_eq]
  tauto

/-! ### One call -/

/-- The results that take a packet off the queue. -/
def Result.takes (r : Result) : Prop := r = .ok ∨ r = .invalidJson ∨ r = .tooLarge

/-- The result neither takes a packet nor asks for a larger buffer. -/
def Result.idle (r : Result) : Prop := ¬r.takes ∧ r ≠ .bufferTooSmall

theorem idle_iff {r : Result} :
    r.idle ↔ r ≠ .ok ∧ r ≠ .invalidJson ∧ r ≠ .tooLarge ∧ r ≠ .bufferTooSmall := by
  simp only [Result.idle, Result.takes, not_or]
  tauto

/-- What a call can do. -/
inductive Received (queue : List Bytes) (call : RecvCall) (reply : RecvReply) : Prop
  /-- Nothing is taken, for a reason other than the buffer's size. -/
  | nothing (hresult : reply.result.idle) (hqueue : reply.queue = queue)
  | tooSmall (head : Bytes) (hhead : queue.head? = some head)
    (hresult : reply.result = .bufferTooSmall) (hqueue : reply.queue = queue)
    (hlength : reply.jsonLen = head.length) (hcapacity : call.capacity ≤ head.length)
  | tooLarge (head : Bytes) (hqueue : queue = head :: reply.queue)
    (hresult : reply.result = .tooLarge) (hlarge : maxPacket < head.length)
  | taken (head : Bytes) (hqueue : queue = head :: reply.queue) (hsize : head.length ≤ maxPacket)
    (hcapacity : head.length < call.capacity) (hlength : reply.jsonLen = head.length)
    (hread : Buffer.read reply.buffer head.length = head)
    (hnul : reply.buffer head.length = 0)
    (hresult : reply.result = if jsonObjectShape head then .ok else .invalidJson)

theorem read_copy (m : Buffer) (s : Bytes) : Buffer.read (Buffer.copy m 0 s) s.length = s := by
  refine List.ext_getElem (by simp [Buffer.read]) fun j hj hs => ?_
  simp [Buffer.read, Buffer.copy, hs]

theorem read_update {m : Buffer} {n j : Nat} (h : n ≤ j) (b : UInt8) :
    Buffer.read (Function.update m j b) n = Buffer.read m n := by
  refine List.map_congr_left fun i hi => Function.update_of_ne ?_ _ _
  have := List.mem_range.mp hi
  omega

theorem waitForPacket_idle {timeoutMs : Int} {answers : RecvAnswers} {result : Result}
    {errno : Nat} (h : waitForPacket timeoutMs answers = some (result, errno)) : result.idle := by
  unfold waitForPacket at h
  split at h
  · cases h
    simp [idle_iff]
  split at h
  · cases h
    simp [idle_iff]
  split at h
  · cases h
    simp [idle_iff]
  · cases h
    simp [idle_iff]
  · cases h

/-- Nothing is written from the capacity on. -/
def Framed (call : RecvCall) (reply : RecvReply) : Prop :=
  ∀ j, call.capacity ≤ j → reply.buffer j = call.buffer j

theorem recvJson_received (queue : List Bytes) (call : RecvCall) :
    Received queue call (recvJson queue call) ∧ Framed call (recvJson queue call) := by
  unfold recvJson
  by_cases hclient : validClient call.client = false
  · simp only [if_pos hclient]
    exact ⟨.nothing (by simp [idle_iff]) rfl, fun _ _ => rfl⟩
  by_cases hcapacity : call.capacity = 0
  · simp only [if_neg hclient, if_pos hcapacity]
    exact ⟨.nothing (by simp [idle_iff]) rfl, fun _ _ => rfl⟩
  simp only [if_neg hclient, if_neg hcapacity]
  have hfirst : ∀ j, call.capacity ≤ j → Function.update call.buffer 0 0 j = call.buffer j :=
    fun j hj => Function.update_of_ne (by omega) _ _
  cases hwait : waitForPacket call.timeoutMs call.answers with
  | some failed => exact ⟨.nothing (waitForPacket_idle hwait) rfl, hfirst⟩
  | none =>
  cases hpeek : fault call.answers.peekFaults with
  | some errno => exact ⟨.nothing (by simp [idle_iff]) rfl, hfirst⟩
  | none =>
  cases queue with
  | nil => exact ⟨.nothing (by simp [peekLength, idle_iff]) rfl, hfirst⟩
  | cons head queue =>
  simp only [peekLength, List.headD_cons, List.tail_cons, List.take_length]
  by_cases hempty : head.length = 0
  · simp only [if_pos hempty]
    exact ⟨.nothing (by simp [idle_iff]) rfl, hfirst⟩
  simp only [if_neg hempty]
  by_cases hlarge : head.length > maxPacket
  · simp only [if_pos hlarge]
    cases fault call.answers.recvFaults with
    | some errno => exact ⟨.nothing (by simp [idle_iff]) rfl, hfirst⟩
    | none => exact ⟨.tooLarge head rfl rfl hlarge, hfirst⟩
  simp only [if_neg hlarge]
  by_cases hsmall : head.length ≥ call.capacity
  · simp only [if_pos hsmall]
    exact ⟨.tooSmall head rfl rfl rfl rfl hsmall, hfirst⟩
  simp only [if_neg hsmall]
  cases fault call.answers.recvFaults with
  | some errno =>
    refine ⟨.nothing (by simp [idle_iff]) rfl, fun j hj => ?_⟩
    exact (Function.update_of_ne (by omega) _ _).trans (hfirst j hj)
  | none =>
  have hread : ∀ m : Buffer, Buffer.read
      (Function.update (Buffer.copy m 0 head) head.length 0) head.length = head := fun m => by
    rw [read_update le_rfl, read_copy]
  -- the packet and the NUL after it end before the capacity
  have hframe : ∀ j, call.capacity ≤ j → Function.update
      (Buffer.copy (Function.update call.buffer 0 0) 0 head) head.length 0 j = call.buffer j := by
    intro j hj
    have hpast : head[j]? = none := List.getElem?_eq_none (by omega)
    rw [Function.update_of_ne (by omega), Buffer.copy, if_pos (Nat.zero_le j), Nat.sub_zero, hpast,
      Option.getD_none, hfirst j hj]
  simp only [ne_eq, not_true_eq_false, if_false, hread]
  have hsize := not_lt.mp hlarge
  by_cases hshape : jsonObjectShape head = false
  · simp only [if_pos hshape]
    exact ⟨.taken head rfl hsize (not_le.mp hsmall) rfl (hread _) (by simp) (by simp [hshape]),
      hframe⟩
  · simp only [if_neg hshape]
    exact ⟨.taken head rfl hsize (not_le.mp hsmall) rfl (hread _) (by simp) (by simp [hshape]),
      hframe⟩

/-! ### Runs -/

/-- What the receiver promises about one call. -/
structure Contract (queue : List Bytes) (call : RecvCall) (reply : RecvReply) : Prop where
  /-- A packet that does not fit stays, and its length is reported. -/
  tooSmall : reply.result = .bufferTooSmall → reply.queue = queue ∧
    ∃ head, queue.head? = some head ∧ reply.jsonLen = head.length
  /-- It fits a buffer of that length and one more, whatever has arrived in between. -/
  retry : reply.result = .bufferTooSmall → ∀ (later : RecvCall) (more : List Bytes),
    later.capacity = reply.jsonLen + 1 →
    (recvJson (reply.queue ++ more) later).result ≠ .bufferTooSmall
  takes : reply.result.takes → ∃ head, queue = head :: reply.queue
  keeps : ¬reply.result.takes → reply.queue = queue
  copied : reply.result = .ok → ∃ head, queue = head :: reply.queue ∧
    reply.jsonLen = head.length ∧ Buffer.read reply.buffer head.length = head ∧
    reply.buffer head.length = 0 ∧ head.length < call.capacity
  frame : Framed call reply

theorem recvJson_fits {head : Bytes} {queue : List Bytes} {call : RecvCall}
    (h : head.length < call.capacity) :
    (recvJson (head :: queue) call).result ≠ .bufferTooSmall := by
  intro hsmall
  rcases (recvJson_received (head :: queue) call).1 with
    ⟨hresult, _⟩ | ⟨first, hfirst, _, _, _, hcapacity⟩ | ⟨_, _, hresult, _⟩ |
    ⟨_, _, _, _, _, _, _, hresult⟩
  · exact hresult.2 hsmall
  · cases hfirst
    omega
  · rw [hresult] at hsmall
    cases hsmall
  · rw [hresult] at hsmall
    split at hsmall <;> cases hsmall

theorem recvJson_contract (queue : List Bytes) (call : RecvCall) :
    Contract queue call (recvJson queue call) := by
  obtain ⟨hreceived, hframe⟩ := recvJson_received queue call
  generalize recvJson queue call = reply at hreceived hframe
  cases hreceived with
  | nothing hresult hqueue =>
    obtain ⟨htakes, hsmall⟩ := hresult
    exact ⟨fun h => absurd h hsmall, fun h => absurd h hsmall, fun h => absurd h htakes,
      fun _ => hqueue, fun h => absurd (.inl h) htakes, hframe⟩
  | tooSmall head hhead hresult hqueue hlength hcapacity =>
    refine ⟨fun _ => ⟨hqueue, head, hhead, hlength⟩, fun _ later more hlater => ?_, ?_,
      fun _ => hqueue, ?_, hframe⟩
    · obtain ⟨rest, rfl⟩ := List.head?_eq_some_iff.mp hhead
      rw [hqueue, List.cons_append]
      exact recvJson_fits (by omega)
    · rw [hresult]
      simp [Result.takes]
    · rw [hresult]
      simp
  | tooLarge head hqueue hresult hlarge =>
    refine ⟨?_, ?_, fun _ => ⟨head, hqueue⟩, ?_, ?_, hframe⟩ <;> rw [hresult] <;>
      simp [Result.takes]
  | taken head hqueue hsize hcapacity hlength hread hnul hresult =>
    refine ⟨?_, ?_, fun _ => ⟨head, hqueue⟩, ?_,
      fun _ => ⟨head, hqueue, hlength, hread, hnul, hcapacity⟩, hframe⟩
    · rw [hresult]
      split <;> simp
    · rw [hresult]
      split <;> simp
    · rw [hresult]
      split <;> simp [Result.takes]

/-- The invariant of a run: what was taken and what is left are what was there and what has
arrived, and what was delivered is the deliverable part of what was taken. -/
structure Ledger (packets : List Bytes) (arrived : List Bytes) (s : Socket) : Prop where
  kept : s.consumed ++ s.queue = packets ++ arrived
  delivered : s.delivered = s.consumed.filter Deliverable

theorem Ledger.call {packets arrived : List Bytes} {s : Socket} (h : Ledger packets arrived s)
    (call : RecvCall) : Ledger packets arrived (s.step (.call call)) := by
  obtain ⟨hkept, hdelivered⟩ := h
  have hreceived := (recvJson_received s.queue call).1
  simp only [Socket.step]
  generalize recvJson s.queue call = reply at hreceived ⊢
  have taken : ∀ head, s.queue = head :: reply.queue →
      s.queue.take (s.queue.length - reply.queue.length) = [head] := by
    intro head hqueue
    rw [hqueue]
    simp
  cases hreceived with
  | nothing hresult hqueue =>
    have hok : reply.result ≠ .ok := fun h => hresult.1 (.inl h)
    rw [if_neg hok, hqueue]
    exact ⟨by simpa using hkept, by simpa using hdelivered⟩
  | tooSmall head hhead hresult hqueue =>
    rw [hresult, hqueue]
    exact ⟨by simpa using hkept, by simpa using hdelivered⟩
  | tooLarge head hqueue hresult hlarge =>
    have hdrop : ¬Deliverable head := fun h => absurd h.1 (not_le.mpr hlarge)
    rw [taken head hqueue, hresult]
    refine ⟨?_, ?_⟩
    · rw [List.append_assoc, List.singleton_append, ← hqueue]
      exact hkept
    · simp [List.filter_append, hdrop, hdelivered]
  | taken head hqueue hsize hcapacity hlength hread hnul hresult =>
    have hshape : Deliverable head ↔ jsonObjectShape head = true := by
      rw [jsonObjectShape_iff, Deliverable]
      exact and_iff_right hsize
    rw [taken head hqueue]
    refine ⟨?_, ?_⟩
    · rw [List.append_assoc, List.singleton_append, ← hqueue]
      exact hkept
    · rw [hresult, hlength, hread, List.filter_append, hdelivered]
      by_cases hobject : jsonObjectShape head = true <;> simp [hshape, hobject]

theorem Ledger.run {packets : List Bytes} {events : List SocketEvent} :
    Ledger packets (arrivals events) (Socket.run packets events) := by
  induction events using List.reverseRecOn with
  | nil => exact ⟨by simp [Socket.run, arrivals], rfl⟩
  | append_singleton events event ih =>
    have hrun : Socket.run packets (events ++ [event]) = (Socket.run packets events).step event := by
      rw [Socket.run, List.foldl_append]
      rfl
    rw [hrun]
    cases event with
    | arrive packet =>
      refine ⟨?_, ih.delivered⟩
      have hkept := ih.kept
      simp only [Socket.step, arrivals, List.filterMap_append] at hkept ⊢
      rw [← List.append_assoc, hkept]
      simp
    | call call =>
      have hsame : arrivals (events ++ [.call call]) = arrivals events := by
        simp [arrivals, List.filterMap_append]
      rw [hsame]
      exact ih.call call

/-- Over any run of arrivals and calls: every call keeps its contract, no packet is lost or
taken twice, and the results `OK` are the deliverable packets taken, in order. -/
theorem recv_queue_discipline (packets : List Bytes) (events : List SocketEvent) :
    (∀ before call after, events = before ++ .call call :: after →
      Contract (Socket.run packets before).queue call
        (recvJson (Socket.run packets before).queue call)) ∧
    (Socket.run packets events).consumed ++ (Socket.run packets events).queue =
      packets ++ arrivals events ∧
    (Socket.run packets events).delivered =
      (Socket.run packets events).consumed.filter Deliverable :=
  ⟨fun _ call _ _ => recvJson_contract _ call, Ledger.run.kept, Ledger.run.delivered⟩

end Msys.Mipc
