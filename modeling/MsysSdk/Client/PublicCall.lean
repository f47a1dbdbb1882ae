import MsysSdk.Client.PublicLine
import MsysSdk.Framing.Exchange

/-! `MsysClient.public_call`: one request on a connection of its own. It checks neither the welcome
nor the answer; any JSON value will do. -/

namespace Msys.Client.Public
open Python Transition Framing

/-- The request; unlike a call on the private channel it says nothing about idempotence. -/
def publicRecord (a : CallArgs) (deadline : Int) : Dict :=
  [(.str (str "type"), .str (str "call")), (.str (str "id"), .int 1),
    (.str (str "target"), .str a.target), (.str (str "method"), .str a.method),
    (.str (str "payload"), .dict (a.payload.getD [])), (.str (str "deadline_ms"), .int deadline)]

/-- `json.loads` of what the loop of `_recv_line` has read. -/
def loadLine (py : Interpreter) (data : Bytes) : Except LineExc Value :=
  match loads py false data with
  | .error e => .error (.loads e)
  | .ok v => .ok v

/-- The loop of `_recv_line` behind a chunk: the size is looked at before the newline. -/
def lineVerdict (data : Bytes) : Option (Except (Except LineExc Value) Bytes) :=
  if maxPacket < data.length then some (.error (.error packetTooLarge))
  else if data.getLast? = some newline then some (.ok data)
  else none

/-- `public_call` on its connection. An OSError ends it, a timeout among them. -/
def exchange (py : Interpreter) (a : CallArgs) (deadline : Int) :
    Exchange UInt8 (Except LineExc Value) where
  size _ := maxPacket + 1
  verdict := lineVerdict
  greet line :=
    match loadLine py line with
    | .error e => some (.error e)
    | .ok _ => none
  request :=
    match sendLine py (.dict (publicRecord a deadline)) with
    | .error e => .error (.error e)
    | .ok packet => .ok packet
  conclude := loadLine py
  breaks
    | .error (.osError _) => true
    | _ => false

/-- What `_recv_line` returns for a line of a server that goes on. -/
def lineValue (py : Interpreter) (line : Bytes) : Except LineExc Value :=
  if line.length < maxPacket then loadLine py (line ++ [newline]) else .error packetTooLarge

/-- What the call comes to, if its connection holds. -/
def publicCall (py : Interpreter) (a : CallArgs) (deadline : Int) (server : Peer UInt8) :
    Except LineExc Value := do
  let _ ← lineValue py server.welcome
  let packet ← sendLine py (.dict (publicRecord a deadline))
  lineValue py (server.answer packet.dropLast)

/-! ### Reading a line -/

def lineResult (line : Bytes) : Except (Except LineExc Value) Bytes :=
  if line.length < maxPacket then .ok (line ++ [newline]) else .error (.error packetTooLarge)

section
variable {py : Interpreter} {a : CallArgs} {deadline : Int} {server : Peer UInt8}

theorem reads_line (hnl : server.newline = newline) {line : Bytes} (hline : newline ∉ line) :
    (exchange py a deadline).Reads server line (lineResult line) := by
  refine ⟨Nat.succ_pos _, fun held chunk rest _ _ hsplit hv => ⟨?_, Nat.succ_pos _⟩,
    fun held chunk rest y _ _ hsplit hv => ?_⟩
  · rintro rfl
    have hlast : (held ++ chunk).getLast? = some newline := by
      rw [List.append_nil, hnl] at hsplit
      rw [hsplit, List.getLast?_concat]
    have hv : lineVerdict (held ++ chunk) = none := hv
    rw [lineVerdict, if_pos hlast] at hv
    split_ifs at hv
  · have hv : lineVerdict (held ++ chunk) = some y := hv
    rw [hnl] at hsplit
    have hlen : (held ++ chunk).length + rest.length = line.length + 1 := by
      rw [← List.length_append, hsplit, List.length_append, List.length_singleton]
    rw [lineVerdict] at hv
    split_ifs at hv with hlarge hlast
    · obtain rfl := Option.some.inj hv
      have hlong : ¬line.length < maxPacket := by omega
      rw [lineResult, if_neg hlong]
      exact ⟨rfl, fun l hl => by cases hl⟩
    · obtain rfl := Option.some.inj hv
      obtain rfl := last_newline hline hsplit hlast
      rw [List.append_nil] at hsplit
      have hfits : line.length < maxPacket := by
        rw [List.length_nil] at hlen
        omega
      rw [lineResult, if_pos hfits, hsplit]
      exact ⟨rfl, fun _ _ => rfl⟩

/-! ### The request -/

theorem publicRecord_isJson (h : (Value.dict (a.payload.getD [])).IsJson py) :
    (Value.dict (publicRecord a deadline)).IsJson py :=
  ⟨by simp [publicRecord]; decide, ⟨_, rfl⟩, trivial, ⟨_, rfl⟩, trivial, ⟨_, rfl⟩, trivial,
    ⟨_, rfl⟩, trivial, ⟨_, rfl⟩, h, ⟨_, rfl⟩, trivial, trivial⟩

/-- The packet is one line. -/
theorem sendLine_line (h : (Value.dict (a.payload.getD [])).IsJson py) {packet : Bytes}
    (hpacket : sendLine py (.dict (publicRecord a deadline)) = .ok packet) :
    ∃ q, packet = q ++ [newline] ∧ newline ∉ q := by
  cases hdata : dumps py true (.dict (publicRecord a deadline)) with
  | error e =>
    rw [sendLine, hdata] at hpacket
    cases hpacket
  | ok data =>
    exact ⟨data, sendLine_ok hdata hpacket, newline_not_mem (publicRecord_isJson h) hdata⟩

/-- The server writes lines, and the payload is JSON. -/
structure Sound (py : Interpreter) (a : CallArgs) (server : Peer UInt8) : Prop where
  newline : server.newline = newline
  welcome : Client.newline ∉ server.welcome
  answer : ∀ line, Client.newline ∉ server.answer line
  payload : (Value.dict (a.payload.getD [])).IsJson py

/-- The request without its newline. -/
def requestLine (py : Interpreter) (a : CallArgs) (deadline : Int) : Bytes :=
  match sendLine py (.dict (publicRecord a deadline)) with
  | .ok packet => packet.dropLast
  | .error _ => []

theorem requests_line (h : Sound py a server) : (exchange py a deadline).Requests server
    (lineResult (server.answer (requestLine py a deadline))) := by
  intro packet hpacket
  simp only [exchange] at hpacket
  split at hpacket
  next => cases hpacket
  next packet' hsend =>
    obtain rfl := Except.ok.inj hpacket
    obtain ⟨q, rfl, hq⟩ := sendLine_line h.payload hsend
    refine ⟨q, by rw [h.newline], by rwa [h.newline], ?_⟩
    rw [requestLine, hsend]
    dsimp only
    rw [List.dropLast_concat]
    exact reads_line h.newline (h.answer q)

/-! ### Every run -/

theorem outcome_publicCall (py : Interpreter) (a : CallArgs) (deadline : Int)
    (server : Peer UInt8) :
    (exchange py a deadline).outcome (lineResult server.welcome)
      (lineResult (server.answer (requestLine py a deadline))) =
        publicCall py a deadline server := by
  unfold Exchange.outcome publicCall lineResult
  by_cases hwelcome : server.welcome.length < maxPacket
  · have hvalue : lineValue py server.welcome = loadLine py (server.welcome ++ [newline]) :=
      if_pos hwelcome
    rw [if_pos hwelcome, hvalue]
    dsimp only [exchange]
    cases loadLine py (server.welcome ++ [newline]) with
    | error e => rfl
    | ok v =>
      unfold requestLine
      cases sendLine py (.dict (publicRecord a deadline)) with
      | error e => rfl
      | ok packet =>
        dsimp only [bind, Except.bind]
        unfold lineValue
        split_ifs <;> rfl
  · have hvalue : lineValue py server.welcome = .error packetTooLarge := if_neg hwelcome
    rw [if_neg hwelcome, hvalue]
    rfl

theorem sendLine_of_request {packet : Bytes}
    (hrequest : (exchange py a deadline).request = .ok packet) :
    sendLine py (.dict (publicRecord a deadline)) = .ok packet := by
  simp only [exchange] at hrequest
  split at hrequest
  next => cases hrequest
  next packet' hsend => rw [hsend, Except.ok.inj hrequest]

/-- However the bytes come and go: the server gets nothing before its welcome line has been read,
and then the one request, of which a connection that breaks may leave a part; a call that is over
has what the server's lines come to, whatever they say, or its connection broke; and a call that is
not over can go on. -/
theorem public_call_ends (h : Sound py a server) {talk : Talk UInt8 (Except LineExc Value)}
    (hr : Reach ((exchange py a deadline).step server) Any (.init server) talk) :
    (talk.got ++ talk.toPeer ≠ [] → (∃ v, lineValue py server.welcome = .ok v) ∧
      ∃ packet, sendLine py (.dict (publicRecord a deadline)) = .ok packet ∧
        talk.got ++ talk.toPeer <+: packet) ∧
    (∀ held, talk.client = .replying held →
      sendLine py (.dict (publicRecord a deadline)) = .ok (talk.got ++ talk.toPeer)) ∧
    (∀ r, talk.client = .done r → (∃ text, r = .error (.osError text)) ∨
      r = publicCall py a deadline server ∧ (talk.got ++ talk.toPeer = [] ∨
        sendLine py (.dict (publicRecord a deadline)) = .ok (talk.got ++ talk.toPeer))) ∧
    ((∀ r, talk.client ≠ .done r) →
      ∃ m, m.keeps = true ∧ ((exchange py a deadline).step server talk m).isSome = true) := by
  have htalk := Exchange.reach_inv (reads_line h.newline h.welcome) (requests_line h) hr
  refine ⟨fun hne => ?_, fun held hheld => sendLine_of_request (htalk.whole hheld),
    fun r hdone => ?_, htalk.goes⟩
  · obtain ⟨⟨line, hline, hgreet⟩, packet, hrequest, hsent⟩ := htalk.begun hne
    refine ⟨?_, packet, sendLine_of_request hrequest, hsent⟩
    rw [lineResult] at hline
    split_ifs at hline with hfits
    obtain rfl := Except.ok.inj hline
    simp only [exchange] at hgreet
    split at hgreet
    next => cases hgreet
    next v hv => exact ⟨v, (if_pos hfits).trans hv⟩
  · rw [Exchange.Inv, hdone] at htalk
    obtain ⟨hbreaks | ⟨houtcome, hasked⟩, -⟩ := htalk
    · simp only [exchange] at hbreaks
      split at hbreaks
      next text => exact .inl ⟨text, rfl⟩
      next => cases hbreaks
    · exact .inr ⟨houtcome.trans (outcome_publicCall py a deadline server),
        hasked.imp_right sendLine_of_request⟩

end

/-! ### A server that answers another call -/

def welcomeLine : Bytes := bytes "\x7b\"type\":\"error\"\x7d"

def answerLine : Bytes := bytes "\x7b\"type\":\"return\",\"id\":2\x7d"

def otherAnswer : Peer UInt8 := ⟨newline, welcomeLine, fun _ => answerLine⟩

def listCall : CallArgs := ⟨str "msys.core", str "list", none, none, false⟩

theorem otherAnswer_sound : Sound plain listCall otherAnswer where
  newline := rfl
  welcome := (by decide +kernel : newline ∉ welcomeLine)
  answer := fun _ => (by decide +kernel : newline ∉ answerLine)
  payload := ⟨List.nodup_nil, trivial⟩

def done? (talk : Talk UInt8 (Except LineExc Value)) : Option (Except LineExc Value) :=
  match talk.client with
  | .done r => some r
  | _ => none

theorem client_of_done {talk : Talk UInt8 (Except LineExc Value)} {r : Except LineExc Value}
    (h : done? talk = some r) : talk.client = .done r := by
  unfold done? at h
  split at h
  next r' hr =>
    obtain rfl := Option.some.inj h
    exact hr
  next => cases h

/-- The request goes in two pieces; the welcome is an error record, and the answer is for another
id. -/
theorem public_call_ends_unchecked : ∃ talk,
    Reach ((exchange plain listCall 0).step otherAnswer) Any (.init otherAnswer) talk ∧
      talk.client = .done (.ok (.dict [(.str (str "type"), .str (str "return")),
        (.str (str "id"), .int 2)])) ∧
      publicCall plain listCall 0 otherAnswer = .ok (.dict [(.str (str "type"),
        .str (str "return")), (.str (str "id"), .int 2)]) := by
  have hrun : ((run ((exchange plain listCall 0).step otherAnswer) (.init otherAnswer)
      [.peerWrite 3, .recv 100, .peerWrite 100, .recv 100, .write 19, .peerRead 1000, .write 1000,
        .peerRead 1000, .peerWrite 1000, .recv 1000]).bind done?) = some (.ok (.dict
          [(.str (str "type"), .str (str "return")), (.str (str "id"), .int 2)])) := by
    decide +kernel
  obtain ⟨talk, htalk, hdone⟩ := Option.bind_eq_some_iff.mp hrun
  have hr := Reach.of_run htalk
  have hclient := client_of_done hdone
  refine ⟨talk, hr, hclient, ?_⟩
  rcases (public_call_ends otherAnswer_sound hr).2.2.1 _ hclient with
    ⟨text, hlost⟩ | ⟨hresult, -⟩
  · cases hlost
  · exact hresult.symm

end Msys.Client.Public
