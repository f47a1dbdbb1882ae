import MsysSdk.Client.Model
import MsysSdk.Python.JsonRoundTrip

/-! The line framing of the public control socket: `_send_line` measures a record without its
newline, `_recv_line` measures what it has read, the newline included. -/

namespace Msys.Client
open Python

inductive LineExc
  | dumps (e : DumpsError)
  | loads (e : LoadsError)
  | valueError (text : Str)
  | eofError (text : Str)
  | osError (text : Str)
deriving DecidableEq

def newline : UInt8 := 10

def packetTooLarge : LineExc := .valueError (str "mIPC packet is too large")

/-- `_send_line`, up to what it hands to `sendall`. -/
def sendLine (py : Interpreter) (message : Value) : Except LineExc Bytes :=
  match dumps py true message with
  | .error e => .error (.dumps e)
  | .ok data => if maxPacket < data.length then .error packetTooLarge else .ok (data ++ [newline])

/-- The loop of `_recv_line`, with what `sock.recv` has still to give; when that is used up the
peer has closed. -/
def recvLoop (data : Bytes) : List Received → Except LineExc Bytes
  | [] => .ok data
  | r :: received =>
    if data.getLast? = some newline then .ok data
    else match r with
      | .osError text => .error (.osError text)
      | .data chunk =>
        if chunk = [] then .ok data
        else if maxPacket < (data ++ chunk).length then .error packetTooLarge
        else recvLoop (data ++ chunk) received

def recvLine (py : Interpreter) (received : List Received) : Except LineExc Value :=
  match recvLoop [] received with
  | .error e => .error e
  | .ok data =>
    if data = [] then .error (.eofError (str "empty mIPC public response"))
    else match loads py false data with
      | .error e => .error (.loads e)
      | .ok v => .ok v

/-! ### Reading one line -/

theorem last_newline {line data rest : Bytes} (hline : newline ∉ line)
    (h : data ++ rest = line ++ [newline]) (hlast : data.getLast? = some newline) : rest = [] := by
  rcases List.eq_nil_or_concat rest with rfl | ⟨front, b, rfl⟩
  · rfl
  -- otherwise the newline that ends `data` stands in the line
  rw [List.concat_eq_append, ← List.append_assoc] at h
  obtain ⟨hfront, -⟩ := List.append_inj' h rfl
  exact absurd (hfront ▸ List.mem_append_left _ (List.mem_of_getLast? hlast)) hline

/-- However a line is cut into chunks, the loop reads all of it or finds it too large. -/
theorem recvLoop_line {line : Bytes} (hline : newline ∉ line) {chunks : List Bytes} {data : Bytes}
    (hne : ∀ c ∈ chunks, c ≠ []) (hdata : data.length ≤ maxPacket)
    (h : data ++ chunks.flatten = line ++ [newline]) :
    recvLoop data (chunks.map .data) =
      if line.length < maxPacket then .ok (line ++ [newline]) else .error packetTooLarge := by
  induction chunks generalizing data with
  | nil =>
    rw [List.flatten_nil, List.append_nil] at h
    have hlen : data.length = line.length + 1 := by rw [h, List.length_append]; rfl
    rw [if_pos (by omega), ← h]
    rfl
  | cons c chunks ih =>
    obtain ⟨hc, hchunks⟩ := List.forall_mem_cons.mp hne
    have hopen : data.getLast? ≠ some newline := by
      intro hlast
      have hrest := last_newline hline h hlast
      rw [List.flatten_cons, List.append_eq_nil_iff] at hrest
      exact hc hrest.1
    rw [List.map_cons, recvLoop, if_neg hopen, if_neg hc]
    rw [List.flatten_cons, ← List.append_assoc] at h
    have hlen : (data ++ c).length + chunks.flatten.length = line.length + 1 := by
      rw [← List.length_append, h, List.length_append]
      rfl
    split_ifs with hlarge hfits
    · omega
    · rfl
    · rw [ih hchunks (Nat.le_of_not_lt hlarge) h, if_pos ‹_›]
    · rw [ih hchunks (Nat.le_of_not_lt hlarge) h, if_neg ‹_›]

theorem sendLine_ok {py : Interpreter} {v : Value} {data packet : Bytes}
    (hdata : dumps py true v = .ok data) (h : sendLine py v = .ok packet) :
    packet = data ++ [newline] := by
  rw [sendLine, hdata] at h
  dsimp only at h
  split_ifs at h
  exact (Except.ok.inj h).symm

theorem newline_not_mem {py : Interpreter} {v : Value} {data : Bytes} (hv : v.IsJson py)
    (h : dumps py true v = .ok data) : newline ∉ data := fun hmem =>
  absurd (dumps_printable hv h newline hmem) (by decide)

/-- A message comes back exactly if its encoding leaves room for the newline. -/
theorem recvLine_sendLine (py : Interpreter) (v : Value) (data packet : Bytes)
    (chunks : List Bytes) (hv : v.IsJson py) (hdata : dumps py true v = .ok data)
    (hsend : sendLine py v = .ok packet) (hne : ∀ c ∈ chunks, c ≠ [])
    (hsplit : chunks.flatten = packet) :
    recvLine py (chunks.map .data) = .ok v ↔ data.length < maxPacket := by
  have hloop : recvLoop [] (chunks.map .data) =
      if data.length < maxPacket then .ok (data ++ [newline]) else .error packetTooLarge :=
    recvLoop_line (newline_not_mem hv hdata) hne (Nat.zero_le _) (hsplit.trans (sendLine_ok hdata hsend))
  have hloads : loads py false (data ++ [newline]) = .ok v := loads_dumps_line hv hdata
  rw [recvLine, hloop]
  split_ifs with hfits
  · dsimp only
    rw [if_neg (by simp), hloads]
    exact iff_of_true rfl hfits
  · exact iff_of_false (by simp) hfits

theorem recvLine_sendLine_eof :
    recvLine plain ([bytes "\x7b\"type\":", bytes "\"eof\"", bytes "\x7d\n"].map .data) =
      .ok (.dict eof) :=
  (recvLine_sendLine plain (.dict eof) (bytes "\x7b\"type\":\"eof\"\x7d") _ _
    ⟨by decide, ⟨_, rfl⟩, trivial, trivial⟩ (by decide +kernel) (by decide +kernel)
    (by decide) rfl).mpr (by decide)

/-! ### The largest record -/

/-- `{"a":"xx…"}` -/
def xs (n : Nat) : Value := .dict [(.str (str "a"), .str (List.replicate n (ch 'x')))]

theorem xs_isJson (py : Interpreter) (n : Nat) : (xs n).IsJson py :=
  ⟨by simp, ⟨_, rfl⟩, trivial, trivial⟩

theorem quoted_xs (n : Nat) : quoted (List.replicate n (ch 'x')) =
    ch '"' :: (List.replicate n (ch 'x') ++ [ch '"']) := by
  have hx : (List.replicate n (ch 'x')).flatMap escapeChar = List.replicate n (ch 'x') := by
    induction n with
    | zero => rfl
    | succ n ih =>
      rw [List.replicate_succ, List.flatMap_cons, ih]
      rfl
  rw [quoted, hx]
  rfl

def xsText (n : Nat) : Str := str "\x7b\"a\":\"" ++ List.replicate n (ch 'x') ++ str "\"\x7d"

theorem dumpValue_xs (py : Interpreter) (n : Nat) :
    dumpValue true py.recursionLimit (xs n) = .ok (xsText n) := by
  obtain ⟨depth, hdepth⟩ : ∃ depth, py.recursionLimit = depth + 1 :=
    ⟨py.recursionLimit - 1, by have := py.recursionLimit_pos; omega⟩
  have hname : quoted (str "a") = str "\"a\"" := by decide
  rw [hdepth]
  show Except.ok (ch '\x7b' :: (quoted (str "a") ++ ch ':' ::
    quoted (List.replicate n (ch 'x'))) ++ [ch '\x7d']) = _
  rw [quoted_xs, hname]
  simp [xsText, str, ch]

theorem xsText_ascii (n : Nat) : ∀ c ∈ xsText n, c.val < 0x80 := by
  have hopen : ∀ c ∈ str "\x7b\"a\":\"", c.val < 0x80 := by
    simpa using (by decide : (str "\x7b\"a\":\"").all (fun c => c.val < 0x80) = true)
  have hclose : ∀ c ∈ str "\"\x7d", c.val < 0x80 := by
    simpa using (by decide : (str "\"\x7d").all (fun c => c.val < 0x80) = true)
  refine List.forall_mem_append.mpr ⟨List.forall_mem_append.mpr ⟨hopen, fun c hc => ?_⟩, hclose⟩
  rw [List.eq_of_mem_replicate hc]
  decide

theorem dumps_xs (py : Interpreter) (n : Nat) :
    ∃ data, dumps py true (xs n) = .ok data ∧ data.length = n + 8 := by
  refine ⟨utf8 (xsText n), ?_, ?_⟩
  · have hencode := encodable_iff.mp (encodable_of_ascii (xsText_ascii n))
    simp only [dumps, dumpValue_xs, bind, Except.bind, hencode]
    rfl
  · rw [length_utf8_ascii (xsText_ascii n)]
    simp [xsText, str]

/-- An encoding of 262144 bytes is sent, and refused with its newline. -/
theorem largest_record_refused :
    ¬∀ py m packet (chunks : List Bytes), (Value.dict m).IsJson py →
      sendLine py (.dict m) = .ok packet → (∀ c ∈ chunks, c ≠ []) → chunks.flatten = packet →
      recvLine py (chunks.map .data) = .ok (.dict m) := by
  intro hall
  obtain ⟨data, hdata, hlen⟩ := dumps_xs plain 262136
  have hpacket : maxPacket = 262144 := rfl
  have hsend : sendLine plain (xs 262136) = .ok (data ++ [newline]) := by
    rw [sendLine, hdata]
    exact if_neg (by omega)
  have hne : ∀ c ∈ [data ++ [newline]], c ≠ [] := by simp
  have hread := hall plain _ _ [data ++ [newline]] (xs_isJson plain 262136) hsend hne (by simp)
  have hloop : recvLoop [] ([data ++ [newline]].map .data) =
      if data.length < maxPacket then .ok (data ++ [newline]) else .error packetTooLarge :=
    recvLoop_line (newline_not_mem (xs_isJson plain 262136) hdata) hne (Nat.zero_le _) (by simp)
  rw [if_neg (by omega)] at hloop
  rw [recvLine, hloop] at hread
  cases hread

end Msys.Client
