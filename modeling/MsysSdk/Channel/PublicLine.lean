import MsysSdk.Channel.Model
import MsysSdk.Python.JsonRoundTrip

/-! The line framing of `component_ipc.py`: `_encode` with its newline and `_recv_line`, on a
stream that the socket gives in pieces. -/

namespace Msys.Channel
open Python

def newline : UInt8 := 10

/-- `_encode(message, newline=True)`. -/
def encodeLine (py : Interpreter) (message : Value) : Except Exc Bytes :=
  (encode py message).map (· ++ [newline])

/-- `sock.recv(size)` and what is left: at least a byte, as long as there is one, and at most
`size`; `wish` is how many more the kernel has at hand. -/
def recv (size wish : Nat) (stream : Bytes) : Bytes × Bytes := stream.splitAt (min size (wish + 1))

theorem recv_split (size wish : Nat) (stream : Bytes) :
    (recv size wish stream).1 ++ (recv size wish stream).2 = stream := by
  rw [recv, List.splitAt_eq]
  exact List.take_append_drop ..

theorem recv_length (size wish : Nat) (stream : Bytes) : (recv size wish stream).1.length ≤ size := by
  rw [recv, List.splitAt_eq, List.length_take]
  omega

theorem recv_ended {size wish : Nat} {stream : Bytes} (hsize : 0 < size)
    (h : (recv size wish stream).1 = []) : stream = [] := by
  rw [recv, List.splitAt_eq] at h
  rcases List.take_eq_nil_iff.mp h with hzero | hnil
  · omega
  · exact hnil

theorem recv_shorter {size wish : Nat} {stream : Bytes} (h : (recv size wish stream).1 ≠ []) :
    (recv size wish stream).2.length < stream.length := by
  have hchunk := List.length_pos_of_ne_nil h
  have hlength := congrArg List.length (recv_split size wish stream)
  rw [List.length_append] at hlength
  omega

def tooLong : Exc := .mipc (str "mIPC response exceeds 256 KiB")

/-- The loop of `_recv_line`; how much comes at a time may depend on how much has come. -/
def recvLoop (wishes : Nat → Nat) (data stream : Bytes) : Except Exc Bytes :=
  let remaining := maxPacket + 1 - data.length
  if remaining = 0 then .error tooLong
  else
    let received := recv (min 65536 remaining) (wishes data.length) stream
    if received.1 = [] then .ok data
    else if newline ∈ data ++ received.1 then .ok ((data ++ received.1).takeWhile (· ≠ newline))
    else recvLoop wishes (data ++ received.1) received.2
termination_by stream.length
decreasing_by exact recv_shorter ‹_›

def recvLine (py : Interpreter) (wishes : Nat → Nat) (stream : Bytes) : Except Exc Dict :=
  match recvLoop wishes [] stream with
  | .error e => .error e
  | .ok data => decode py data

/-! ### One line, whatever the pieces -/

/-- The bytes before the first newline, or all of them. -/
def firstLine (stream : Bytes) : Bytes := stream.takeWhile (· ≠ newline)

theorem firstLine_append {s : Bytes} (h : newline ∉ s) (t : Bytes) :
    firstLine (s ++ t) = s ++ firstLine t :=
  List.takeWhile_append_of_pos fun _ hb => decide_eq_true fun heq => h (heq ▸ hb)

theorem firstLine_of_mem {s : Bytes} (h : newline ∈ s) (t : Bytes) :
    firstLine (s ++ t) = firstLine s ∧ (firstLine s).length < s.length := by
  obtain ⟨l, r, rfl, hl⟩ := List.eq_append_cons_of_mem h
  have hnil : ∀ u, firstLine (newline :: u) = [] := fun u => List.takeWhile_cons_of_neg (by simp)
  rw [List.append_assoc, firstLine_append hl, firstLine_append hl, List.cons_append, hnil, hnil]
  simp

/-- What the loop makes of a stream, with some of it read already. -/
theorem recvLoop_eq (wishes : Nat → Nat) {data stream : Bytes} (hdata : newline ∉ data)
    (hlen : data.length ≤ maxPacket + 1) :
    recvLoop wishes data stream =
      if (firstLine (data ++ stream)).length ≤ maxPacket then .ok (firstLine (data ++ stream))
      else .error tooLong := by
  induction hn : stream.length using Nat.strong_induction_on generalizing data stream with
  | h n ih =>
    subst hn
    have hline : firstLine (data ++ stream) = data ++ firstLine stream := firstLine_append hdata stream
    rw [recvLoop]
    dsimp only
    by_cases hfull : maxPacket + 1 - data.length = 0
    · rw [if_pos hfull, if_neg]
      rw [hline, List.length_append]
      omega
    rw [if_neg hfull]
    have hsplit := recv_split (min 65536 (maxPacket + 1 - data.length)) (wishes data.length) stream
    have hsize := recv_length (min 65536 (maxPacket + 1 - data.length)) (wishes data.length) stream
    have hended := @recv_ended (min 65536 (maxPacket + 1 - data.length)) (wishes data.length) stream
      (by omega)
    have hshorter := @recv_shorter (min 65536 (maxPacket + 1 - data.length)) (wishes data.length)
      stream
    generalize recv (min 65536 (maxPacket + 1 - data.length)) (wishes data.length) stream = received
      at *
    obtain ⟨chunk, rest⟩ := received
    dsimp only at *
    have hread : (data ++ chunk).length ≤ maxPacket + 1 := by
      rw [List.length_append]
      omega
    rw [← hsplit, ← List.append_assoc]
    by_cases hempty : chunk = []
    · -- the end of the stream
      obtain rfl : rest = [] := by
        rw [hempty, List.nil_append] at hsplit
        exact hsplit.trans (hended hempty)
      have hall : firstLine (data ++ chunk ++ []) = data := by
        rw [hempty, List.append_nil, firstLine_append hdata]
        exact List.append_nil data
      rw [if_pos hempty, hall, if_pos (by omega)]
    rw [if_neg hempty]
    by_cases hmem : newline ∈ data ++ chunk
    · obtain ⟨hsame, hshort⟩ := firstLine_of_mem hmem rest
      rw [if_pos hmem, hsame, if_pos (by omega)]
      rfl
    · rw [if_neg hmem]
      exact ih rest.length (hshorter hempty) hmem hread rfl

/-- What comes after the newline is not read as part of the record. -/
theorem recvLine_eq (py : Interpreter) (wishes : Nat → Nat) (stream : Bytes) :
    recvLine py wishes stream =
      if (firstLine stream).length ≤ maxPacket then decode py (firstLine stream)
      else .error tooLong := by
  have hloop : recvLoop wishes [] stream = _ := recvLoop_eq wishes List.not_mem_nil (Nat.zero_le _)
  rw [List.nil_append] at hloop
  rw [recvLine, hloop]
  split_ifs <;> rfl

/-! ### The records of `_encode` -/

theorem encodeLine_ok {py : Interpreter} {v : Value} {packet : Bytes}
    (h : encodeLine py v = .ok packet) :
    ∃ data, dumps py false v = .ok data ∧ data.length ≤ maxPacket ∧ packet = data ++ [newline] := by
  rw [encodeLine, encode] at h
  cases hdumps : dumps py false v with
  | error e =>
    rw [hdumps] at h
    cases e <;> cases h
  | ok data =>
    rw [hdumps] at h
    dsimp only at h
    by_cases hlarge : maxPacket < data.length
    · rw [if_pos hlarge] at h
      cases h
    · rw [if_neg hlarge] at h
      exact ⟨data, rfl, Nat.le_of_not_lt hlarge, (Except.ok.inj h).symm⟩

/-- A record that fits comes back, its newline not counted. -/
theorem decode_dumps {py : Interpreter} {m : Dict} {data : Bytes} (hm : (Value.dict m).IsJson py)
    (h : dumps py false (.dict m) = .ok data) (hlen : data.length ≤ maxPacket) :
    decode py data = .ok m := by
  obtain ⟨s, hs, -⟩ := dumps_text h
  have hloads : loads py true data = .ok (.dict m) := by
    rw [loads_dumps hm h, dumpValue_finite hs]
    rfl
  rw [decode, if_neg (dumps_ne_nil hm h), if_neg (Nat.not_lt.mpr hlen), hloads]

/-- `_recv_line` reads the first line, whatever the pieces; a record of `_encode` comes back. -/
theorem recvLine_chunks (py : Interpreter) (wishes : Nat → Nat) :
    (∀ stream, recvLine py wishes stream =
      if (firstLine stream).length ≤ maxPacket then decode py (firstLine stream)
      else .error tooLong) ∧
    ∀ m packet, (Value.dict m).IsJson py → encodeLine py (.dict m) = .ok packet →
      recvLine py wishes packet = .ok m := by
  refine ⟨recvLine_eq py wishes, fun m packet hm hpacket => ?_⟩
  obtain ⟨data, hdata, hlen, rfl⟩ := encodeLine_ok hpacket
  have hnewline : newline ∉ data := fun hmem =>
    absurd (dumps_printable hm hdata newline hmem) (by decide)
  have hline : firstLine (data ++ [newline]) = data := by
    rw [firstLine_append hnewline]
    exact List.append_nil data
  rw [recvLine_eq, hline, if_pos hlen]
  exact decode_dumps hm hdata hlen

theorem recvLine_chunks_eof :
    recvLine plain (fun n => n % 3) (bytes "\x7b\"type\":\"eof\"\x7d\n") = .ok eof :=
  (recvLine_chunks plain fun n => n % 3).2 eof _ ⟨by decide, ⟨_, rfl⟩, trivial, trivial⟩
    (by decide +kernel)

end Msys.Channel
