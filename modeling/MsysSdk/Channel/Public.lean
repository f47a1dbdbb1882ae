import MsysSdk.Channel.PublicLine
import MsysSdk.Framing.Exchange

/-! `PublicMipcClient`: every call has a connection of its own to the control socket, where it is
welcomed, writes one request and reads one reply. The calls share the counter of the ids. -/

namespace Msys.Channel.Public
open Python Transition Framing

/-- `sameNumber` is `==` between a float and an int, `reprOf` is `repr`, and `server` is the peer of
each call's connection. -/
structure Config where
  py : Interpreter
  sameNumber : Float64 → Int → Bool
  reprOf : Value → Str
  defaultTimeout : Rat
  args : Nat → CallArgs
  server : Nat → Peer UInt8

/-- The tests of `call` before its lock. -/
def callCheck (cfg : Config) (a : CallArgs) : Option Exc :=
  if a.target = [] ∨ a.method = [] then
    some (.valueError (str "mIPC target and method are required"))
  else if a.timeout.getD cfg.defaultTimeout ≤ 0 then
    some (.valueError (str "mIPC timeout must be positive"))
  else none

/-- `response.get("id") == request_id`, where True is 1 and 1.0 is 1. -/
def sameId (cfg : Config) (id : Int) : Value → Bool
  | .int i => i = id
  | .bool b => (if b then 1 else 0) = id
  | .float f => cfg.sameNumber f id
  | _ => false

/-- What `call` makes of the response. -/
def responseValue (cfg : Config) (id : Int) (m : Dict) : Except Exc Dict :=
  if sameId cfg id (field m "id") then
    if (field m "type").isKey (str "error") ∨ (field m "type").isKey (str "return") then
      replyValue cfg.py m
    else .error (.mipc (str "Unexpected mIPC response: " ++ cfg.reprOf (field m "type")))
  else .error (.mipc (str "mIPC response id does not match request"))

def notWelcome : Exc := .mipc (str "Public control socket did not send welcome")

/-- What `_recv_line` makes of what it has read, at a look for the newline or for more room. -/
def lineVerdict (data : Bytes) : Option (Except (Except Exc Dict) Bytes) :=
  if newline ∈ data then some (.ok (firstLine data))
  else if maxPacket + 1 - data.length = 0 then some (.error (.error tooLong))
  else none

/-- `_socket_exchange` and the rest of `call`, for a request that has its id. An OSError of the
connection and a timeout end it, and so does a timeout too large for the socket. -/
def exchange (cfg : Config) (c : Nat) (id deadline : Int) : Exchange UInt8 (Except Exc Dict) where
  size n := min 65536 (maxPacket + 1 - n)
  verdict := lineVerdict
  greet line :=
    match decode cfg.py line with
    | .error e => some (.error e)
    | .ok m => if (field m "type").isKey (str "welcome") then none else some (.error notWelcome)
  request :=
    match encodeLine cfg.py (.dict (callRecord id (cfg.args c) deadline)) with
    | .error e => .error (.error e)
    | .ok packet => .ok packet
  conclude line :=
    match decode cfg.py line with
    | .error e => .error e
    | .ok m => responseValue cfg id m
  breaks
    | .error (.unavailable _) | .error .overflowError => true
    | _ => false

inductive CallState
  | refused (e : Exc)
  | talking (id deadline : Int) (talk : Talk UInt8 (Except Exc Dict))

structure State where
  nextId : Int
  call : Nat → Option CallState

def init : State := ⟨1, fun _ => none⟩

def State.setCall (s : State) (c : Nat) (call : CallState) : State :=
  { s with call := Function.update s.call c (some call) }

/-- `deadline` is what the clock and the timeout give, `none` when `int()` raises. -/
inductive Action
  | begin (c : Nat) (deadline : Option Int)
  | talk (c : Nat) (m : Move (Except Exc Dict))

def step (cfg : Config) (s : State) : Action → Option State
  | .begin c deadline =>
    match s.call c with
    | some _ => none
    | none =>
      match callCheck cfg (cfg.args c), deadline with
      | some e, _ => some (s.setCall c (.refused e))
      | none, none => some { s.setCall c (.refused .deadline) with nextId := s.nextId + 1 }
      | none, some d =>
        some { s.setCall c (.talking s.nextId d (.init (cfg.server c))) with
          nextId := s.nextId + 1 }
  | .talk c m =>
    match s.call c with
    | some (.talking id d talk) =>
      ((exchange cfg c id d).step (cfg.server c) talk m).map fun talk =>
        s.setCall c (.talking id d talk)
    | _ => none

/-! ### Reading a line -/

/-- What the client makes of a whole line. -/
def lineResult (line : Bytes) : Except (Except Exc Dict) Bytes :=
  if line.length ≤ maxPacket then .ok line else .error (.error tooLong)

theorem lineVerdict_none {data : Bytes} (h : lineVerdict data = none) :
    newline ∉ data ∧ maxPacket + 1 - data.length ≠ 0 := by
  unfold lineVerdict at h
  split_ifs at h with hmem hfull
  exact ⟨hmem, hfull⟩

theorem reads_line (cfg : Config) (c : Nat) (id deadline : Int) {P : Peer UInt8}
    (hP : P.newline = newline) {line : Bytes} (hline : newline ∉ line) :
    (exchange cfg c id deadline).Reads P line (lineResult line) := by
  have room : ∀ held chunk : Bytes, chunk ≠ [] →
      chunk.length ≤ min 65536 (maxPacket + 1 - held.length) →
      (held ++ chunk).length ≤ maxPacket + 1 := by
    intro held chunk hne hlen
    have hpos := List.length_pos_of_ne_nil hne
    rw [List.length_append]
    omega
  have hfirst : 0 < min 65536 (maxPacket + 1 - 0) := by decide
  refine ⟨hfirst, fun held chunk rest hne hlen hsplit hv => ?_,
    fun held chunk rest y hne hlen hsplit hv => ?_⟩
  · obtain ⟨hmem, hroom⟩ := lineVerdict_none hv
    refine ⟨?_, ?_⟩
    · rintro rfl
      rw [List.append_nil, hP] at hsplit
      exact hmem (hsplit ▸ List.mem_append_right _ (List.mem_singleton_self _))
    · show 0 < min 65536 (maxPacket + 1 - (held ++ chunk).length)
      omega
  · have hroom := room held chunk hne hlen
    rw [hP] at hsplit
    by_cases hmem : newline ∈ held ++ chunk
    · obtain ⟨hwhole, rfl, hfirst⟩ := Exchange.whole_line hsplit hline hmem
      have hy : y = .ok line := by
        have hv : lineVerdict (held ++ chunk) = some y := hv
        rw [lineVerdict, if_pos hmem] at hv
        rw [← Option.some.inj hv, firstLine, hfirst]
      have hfits : line.length ≤ maxPacket := by
        have hlength := congrArg List.length hwhole
        simp only [List.length_append, List.length_singleton] at hlength hroom
        omega
      exact ⟨by rw [hy, lineResult, if_pos hfits], fun _ _ => rfl⟩
    · by_cases hfull : maxPacket + 1 - (held ++ chunk).length = 0
      · have hy : y = .error (.error tooLong) := by
          have hv : lineVerdict (held ++ chunk) = some y := hv
          rw [lineVerdict, if_neg hmem, if_pos hfull] at hv
          exact (Option.some.inj hv).symm
        have hlong : ¬line.length ≤ maxPacket := by
          -- the newline is still to come
          have hrest : rest ≠ [] := by
            rintro rfl
            rw [List.append_nil] at hsplit
            exact hmem (hsplit ▸ List.mem_append_right _ (List.mem_singleton_self _))
          have hpos := List.length_pos_of_ne_nil hrest
          have hlength := congrArg List.length hsplit
          simp only [List.length_append, List.length_singleton] at hlength hfull
          omega
        exact ⟨by rw [hy, lineResult, if_neg hlong], fun l hl => by cases hy.symm.trans hl⟩
      · have hv : lineVerdict (held ++ chunk) = some y := hv
        rw [lineVerdict, if_neg hmem, if_neg hfull] at hv
        cases hv

/-! ### The request -/

/-- The request without its newline. -/
def requestLine (cfg : Config) (c : Nat) (id deadline : Int) : Bytes :=
  match encode cfg.py (.dict (callRecord id (cfg.args c) deadline)) with
  | .ok data => data
  | .error _ => []

/-- What the call comes to, if its connection holds. -/
def result (cfg : Config) (c : Nat) (id deadline : Int) : Except Exc Dict :=
  (exchange cfg c id deadline).outcome (lineResult (cfg.server c).welcome)
    (lineResult ((cfg.server c).answer (requestLine cfg c id deadline)))

/-- The server writes lines, and the payloads are JSON. -/
structure Sound (cfg : Config) : Prop where
  newline : ∀ c, (cfg.server c).newline = newline
  welcome : ∀ c, Channel.newline ∉ (cfg.server c).welcome
  answer : ∀ c line, Channel.newline ∉ (cfg.server c).answer line
  payload : ∀ c, (Value.dict ((cfg.args c).payload.getD [])).IsJson cfg.py

theorem callRecord_isJson {py : Interpreter} {a : CallArgs} (id deadline : Int)
    (h : (Value.dict (a.payload.getD [])).IsJson py) :
    (Value.dict (callRecord id a deadline)).IsJson py :=
  ⟨by simp [callRecord]; decide, ⟨_, rfl⟩, trivial, ⟨_, rfl⟩, trivial, ⟨_, rfl⟩, trivial, ⟨_, rfl⟩,
    trivial, ⟨_, rfl⟩, h, ⟨_, rfl⟩, trivial, ⟨_, rfl⟩, trivial, trivial⟩

theorem requests_line {cfg : Config} (hcfg : Sound cfg) (c : Nat) (id deadline : Int) :
    (exchange cfg c id deadline).Requests (cfg.server c)
      (lineResult ((cfg.server c).answer (requestLine cfg c id deadline))) := by
  intro packet hpacket
  simp only [exchange] at hpacket
  split at hpacket
  next => cases hpacket
  next packet' hline =>
    obtain rfl := Except.ok.inj hpacket
    obtain ⟨data, hdata, hlen, rfl⟩ := encodeLine_ok hline
    have hencode : encode cfg.py (.dict (callRecord id (cfg.args c) deadline)) = .ok data := by
      rw [encode, hdata]
      exact if_neg (Nat.not_lt.mpr hlen)
    have hjson := callRecord_isJson id deadline (hcfg.payload c)
    refine ⟨data, by rw [hcfg.newline], fun hmem => ?_, ?_⟩
    · rw [hcfg.newline] at hmem
      exact absurd (dumps_printable hjson hdata _ hmem) (by decide)
    · rw [requestLine, hencode]
      exact reads_line cfg c id deadline (hcfg.newline c) (hcfg.answer c data)

/-! ### Every run -/

section
variable {cfg : Config} {s s' : State} {a : Action}

structure Inv (cfg : Config) (s : State) : Prop where
  handedOut : ∀ c id d talk, s.call c = some (.talking id d talk) → id < s.nextId
  distinct : ∀ c c' id d d' talk talk', s.call c = some (.talking id d talk) →
    s.call c' = some (.talking id d' talk') → c = c'
  talks : ∀ c id d talk, s.call c = some (.talking id d talk) →
    Reach ((exchange cfg c id d).step (cfg.server c)) Any (.init (cfg.server c)) talk

theorem setCall_of_ne {c c' : Nat} (h : c' ≠ c) (call : CallState) :
    (s.setCall c call).call c' = s.call c' := Function.update_of_ne h ..

theorem setCall_self (c : Nat) (call : CallState) : (s.setCall c call).call c = some call :=
  Function.update_self ..

/-- A call that is refused has no id. -/
theorem Inv.refuse (hi : Inv cfg s) {c : Nat} {e : Exc} {next : Int} (hnext : s.nextId ≤ next) :
    Inv cfg { s.setCall c (.refused e) with nextId := next } := by
  have old : ∀ c' id d talk, (s.setCall c (.refused e)).call c' = some (.talking id d talk) →
      s.call c' = some (.talking id d talk) := by
    intro c' id d talk h
    rcases eq_or_ne c' c with rfl | hne
    · rw [setCall_self] at h
      cases h
    · rwa [setCall_of_ne hne] at h
  exact ⟨fun c' id d talk h => (hi.handedOut c' id d talk (old _ _ _ _ h)).trans_le hnext,
    fun c₁ c₂ id d d' talk talk' h h' =>
      hi.distinct c₁ c₂ id d d' talk talk' (old _ _ _ _ h) (old _ _ _ _ h'),
    fun c' id d talk h => hi.talks c' id d talk (old _ _ _ _ h)⟩

/-- A call takes the next id and opens its connection. -/
theorem Inv.accept (hi : Inv cfg s) (c : Nat) (d : Int) :
    Inv cfg { s.setCall c (.talking s.nextId d (.init (cfg.server c))) with
      nextId := s.nextId + 1 } := by
  have old : ∀ c' id d' talk, (s.setCall c (.talking s.nextId d (.init (cfg.server c)))).call c' =
      some (.talking id d' talk) →
      c' = c ∧ id = s.nextId ∧ d' = d ∧ talk = .init (cfg.server c) ∨
        c' ≠ c ∧ s.call c' = some (.talking id d' talk) := by
    intro c' id d' talk h
    rcases eq_or_ne c' c with rfl | hne
    · rw [setCall_self] at h
      cases h
      exact .inl ⟨rfl, rfl, rfl, rfl⟩
    · exact .inr ⟨hne, by rwa [setCall_of_ne hne] at h⟩
  refine ⟨fun c' id d' talk h => ?_, fun c₁ c₂ id d₁ d₂ talk₁ talk₂ h₁ h₂ => ?_,
    fun c' id d' talk h => ?_⟩
  · show id < s.nextId + 1
    rcases old c' id d' talk h with ⟨-, rfl, -⟩ | ⟨-, h⟩
    · omega
    · have := hi.handedOut c' id d' talk h
      omega
  · rcases old c₁ id d₁ talk₁ h₁ with ⟨hc₁, hid₁, -⟩ | ⟨-, hold₁⟩ <;>
      rcases old c₂ id d₂ talk₂ h₂ with ⟨hc₂, hid₂, -⟩ | ⟨-, hold₂⟩
    · exact hc₁.trans hc₂.symm
    · exact absurd (hi.handedOut _ _ _ _ hold₂) (by omega)
    · exact absurd (hi.handedOut _ _ _ _ hold₁) (by omega)
    · exact hi.distinct _ _ _ _ _ _ _ hold₁ hold₂
  · rcases old c' id d' talk h with ⟨rfl, rfl, rfl, rfl⟩ | ⟨-, h⟩
    · exact .start
    · exact hi.talks c' id d' talk h

/-- A talk goes on. -/
theorem Inv.talk (hi : Inv cfg s) {c : Nat} {id d : Int} {talk talk' : Talk UInt8 (Except Exc Dict)}
    {m : Move (Except Exc Dict)} (hc : s.call c = some (.talking id d talk))
    (h : (exchange cfg c id d).step (cfg.server c) talk m = some talk') :
    Inv cfg (s.setCall c (.talking id d talk')) := by
  have old : ∀ c' id' d' t', (s.setCall c (.talking id d talk')).call c' =
      some (.talking id' d' t') → ∃ t, s.call c' = some (.talking id' d' t) := by
    intro c' id' d' t' h
    rcases eq_or_ne c' c with rfl | hne
    · rw [setCall_self] at h
      cases h
      exact ⟨talk, hc⟩
    · exact ⟨t', by rwa [setCall_of_ne hne] at h⟩
  refine ⟨fun c' id' d' t' h => ?_, fun c₁ c₂ id' d₁ d₂ t₁ t₂ h₁ h₂ => ?_,
    fun c' id' d' t' ht => ?_⟩
  · obtain ⟨t, ht⟩ := old c' id' d' t' h
    exact hi.handedOut c' id' d' t ht
  · obtain ⟨u₁, hu₁⟩ := old c₁ id' d₁ t₁ h₁
    obtain ⟨u₂, hu₂⟩ := old c₂ id' d₂ t₂ h₂
    exact hi.distinct c₁ c₂ id' d₁ d₂ u₁ u₂ hu₁ hu₂
  · rcases eq_or_ne c' c with rfl | hne
    · rw [setCall_self] at ht
      cases ht
      exact (hi.talks _ _ _ _ hc).next trivial h
    · rw [setCall_of_ne hne] at ht
      exact hi.talks c' id' d' t' ht

theorem Inv.step (hi : Inv cfg s) (h : step cfg s a = some s') : Inv cfg s' := by
  cases a with
  | begin c deadline =>
    simp only [Public.step] at h
    split at h
    next => cases h
    next =>
      split at h <;> obtain rfl := Option.some.inj h
      · exact hi.refuse le_rfl
      · exact hi.refuse (by omega)
      · exact hi.accept c _
  | talk c m =>
    simp only [Public.step] at h
    split at h
    next id d talk hc =>
      obtain ⟨talk', htalk, rfl⟩ := Option.map_eq_some_iff.mp h
      exact hi.talk hc htalk
    next => cases h

end

theorem encodeLine_of_request {c : Nat} {id d : Int} {packet : Bytes}
    (h : (exchange cfg c id d).request = .ok packet) :
    encodeLine cfg.py (.dict (callRecord id (cfg.args c) d)) = .ok packet := by
  simp only [exchange] at h
  split at h
  next => cases h
  next packet' hline => rw [hline, Except.ok.inj h]

/-- However many threads share the client and however the bytes come and go: the ids differ, the
server gets nothing before it has welcomed the client and then its one request, of which a
connection that breaks may leave a part; a call that is over has its server's answer or has lost
its connection, and a call that is not over can go on. -/
theorem public_calls (cfg : Config) (hcfg : Sound cfg) (s : State)
    (h : Reach (step cfg) Any init s) :
    (∀ c c' id d d' talk talk', s.call c = some (.talking id d talk) →
      s.call c' = some (.talking id d' talk') → c = c') ∧
    ∀ c id d talk, s.call c = some (.talking id d talk) →
      (talk.got ++ talk.toPeer ≠ [] →
        (exchange cfg c id d).Welcomed (lineResult (cfg.server c).welcome) ∧
        ∃ packet, encodeLine cfg.py (.dict (callRecord id (cfg.args c) d)) = .ok packet ∧
          talk.got ++ talk.toPeer <+: packet) ∧
      (∀ held, talk.client = .replying held →
        encodeLine cfg.py (.dict (callRecord id (cfg.args c) d)) = .ok (talk.got ++ talk.toPeer)) ∧
      (∀ r, talk.client = .done r → (∃ text, r = .error (.unavailable text)) ∨
        r = .error .overflowError ∨
        r = result cfg c id d ∧ (talk.got ++ talk.toPeer = [] ∨
          encodeLine cfg.py (.dict (callRecord id (cfg.args c) d)) =
            .ok (talk.got ++ talk.toPeer))) ∧
      ((∀ r, talk.client ≠ .done r) → ∃ m, m.keeps = true ∧
        (step cfg s (.talk c m)).isSome = true) := by
  have hi : Inv cfg s := h.invariant (P := Inv cfg)
    ⟨by simp [init], by simp [init], by simp [init]⟩ fun _ _ _ hi _ hs => hi.step hs
  refine ⟨hi.distinct, fun c id d talk hc => ?_⟩
  have htalk := Exchange.reach_inv
    (reads_line cfg c id d (hcfg.newline c) (hcfg.welcome c)) (requests_line hcfg c id d)
    (hi.talks c id d talk hc)
  refine ⟨fun hne => ?_, fun held hheld => encodeLine_of_request (htalk.whole hheld),
    fun r hr => ?_, fun hopen => ?_⟩
  · obtain ⟨hwelcomed, packet, hrequest, hsent⟩ := htalk.begun hne
    exact ⟨hwelcomed, packet, encodeLine_of_request hrequest, hsent⟩
  · rw [Exchange.Inv, hr] at htalk
    rcases htalk.1 with hbreaks | ⟨houtcome, hasked⟩
    · simp only [exchange] at hbreaks
      split at hbreaks
      next text => exact .inl ⟨text, rfl⟩
      next => exact .inr (.inl rfl)
      next => cases hbreaks
    · exact .inr (.inr ⟨houtcome, hasked.imp_right encodeLine_of_request⟩)
  · obtain ⟨m, hm, hstep⟩ := htalk.goes hopen
    refine ⟨m, hm, ?_⟩
    simp only [step, hc, Option.isSome_map]
    exact hstep

/-! ### A server that answers the first request -/

def welcomeLine : Bytes := bytes "\x7b\"type\":\"welcome\"\x7d"

def answerLine : Bytes :=
  bytes "\x7b\"type\":\"return\",\"id\":1,\"payload\":\x7b\"a\":2\x7d\x7d"

def oneAnswer : Config where
  py := plain
  sameNumber := fun _ _ => false
  reprOf := fun _ => []
  defaultTimeout := 5
  args := fun _ => ⟨str "msys.core", str "list", none, none, false⟩
  server := fun _ => ⟨newline, welcomeLine, fun _ => answerLine⟩

theorem oneAnswer_sound : Sound oneAnswer where
  newline := fun _ => rfl
  welcome := fun _ => (by decide +kernel : newline ∉ welcomeLine)
  answer := fun _ _ => (by decide +kernel : newline ∉ answerLine)
  payload := fun _ => ⟨List.nodup_nil, trivial⟩

/-- The number, the deadline and the result of a call that is over. -/
def CallState.over : CallState → Option (Int × Int × Except Exc Dict)
  | .talking id d talk =>
    match talk.client with
    | .done r => some (id, d, r)
    | _ => none
  | _ => none

theorem CallState.talking_of_over {c : CallState} {id d : Int} {r : Except Exc Dict}
    (h : c.over = some (id, d, r)) : ∃ talk, c = .talking id d talk ∧ talk.client = .done r := by
  unfold CallState.over at h
  split at h
  next id' d' talk =>
    split at h
    next r' hdone =>
      cases h
      exact ⟨talk, rfl, hdone⟩
    next => cases h
  next => cases h

/-- The welcome comes in two pieces, and the request goes in two. -/
theorem public_calls_return : ∃ s talk, Reach (step oneAnswer) Any init s ∧
    s.call 0 = some (.talking 1 0 talk) ∧
    talk.client = .done (.ok [(.str (str "a"), .int 2)]) ∧
    result oneAnswer 0 1 0 = .ok [(.str (str "a"), .int 2)] := by
  have h : ((run (step oneAnswer) init [.begin 0 (some 0), .talk 0 (.peerWrite 9),
      .talk 0 (.recv 100), .talk 0 (.peerWrite 100), .talk 0 (.recv 100), .talk 0 (.write 19),
      .talk 0 (.peerRead 1000), .talk 0 (.write 1000), .talk 0 (.peerRead 1000),
      .talk 0 (.peerWrite 1000), .talk 0 (.recv 1000)]).bind fun s =>
        (s.call 0).bind CallState.over) = some (1, 0, .ok [(.str (str "a"), .int 2)]) := by
    decide +kernel
  obtain ⟨s, hs, hover⟩ := Option.bind_eq_some_iff.mp h
  obtain ⟨call, hcall, hover⟩ := Option.bind_eq_some_iff.mp hover
  obtain ⟨talk, rfl, hdone⟩ := CallState.talking_of_over hover
  have hr := Reach.of_run hs
  refine ⟨s, talk, hr, hcall, hdone, ?_⟩
  rcases ((public_calls oneAnswer oneAnswer_sound s hr).2 0 1 0 talk hcall).2.2.1 _ hdone with
    ⟨text, hlost⟩ | hlost | ⟨hresult, -⟩
  · cases hlost
  · cases hlost
  · exact hresult.symm

end Msys.Channel.Public
