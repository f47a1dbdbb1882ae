import MsysSdk.Component.Packets

/-! A run of the component: whatever arrives in between and however often the system fails, what it
has put on the socket is its announcement and then one answer for each call, in the order of
arrival. -/

namespace Msys.Component
open Libc Mipc

/-! ### What is to be sent -/

/-- What the component says of itself, in the generation that its hello names. -/
def announcement (getenv : String → Option Bytes) (generation : UInt64) : List Bytes :=
  [recordText (Request.hello (environmentComponent getenv) generation).fields,
    recordText (Request.subscribe tickTopic).fields, text "\x7b\"type\":\"ready\"\x7d",
    recordText (Request.event startedTopic startedPayload).fields]

/-- What is still to be sent at a place before the loop takes another packet. -/
def Place.due (getenv : String → Option Bytes) (generation : UInt64) : Place → List Bytes
  | .hello => announcement getenv generation
  | .welcome | .subscribe => (announcement getenv generation).drop 1
  | .ready => (announcement getenv generation).drop 2
  | .started => (announcement getenv generation).drop 3
  | .replying q => [recordText q.fields]
  | .loop | .ended _ => []

def State.script (getenv : String → Option Bytes) (generation : UInt64) (s : State) : List Bytes :=
  announcement getenv generation ++ s.handled.filterMap answer

/-- At most a part of the next record. -/
def Cut (cut rest : List Bytes) : Prop :=
  cut = [] ∨ ∃ c r more, cut = [c] ∧ rest = r :: more ∧ c <+: r

/-- What has been sent is the script as far as it goes. Once a packet has been handled, only the
answer to the last one can be missing, or cut off after a failure; before that a failure ends the
announcement. -/
def Written (getenv : String → Option Bytes) (generation : UInt64) (s : State) : Prop :=
  ∃ whole cut rest, s.script getenv generation = whole ++ rest ∧ s.sent = whole ++ cut ∧
    Cut cut rest ∧ (s.place ≠ .ended 1 → cut = [] ∧ rest = s.place.due getenv generation) ∧
    ∀ p ∈ s.handled.getLast?, rest = [] ∨ rest = (answer p).toList

/-- The packets that were taken are the first that arrived; after a failure one more may be gone. -/
def Taken (arrived : List Bytes) (s : State) : Prop :=
  ∃ taken, arrived = taken ++ s.queue ∧
    s.welcomed.toList ++ s.handled <+: taken.map content ∧
    (s.place ≠ .ended 1 → taken.map content = s.welcomed.toList ++ s.handled)

/-- Nothing is handled after a shutdown, and a shutdown ends the loop. -/
structure Stopping (s : State) : Prop where
  before : ∀ p ∈ s.handled.dropLast, ¬Stops p
  running : s.place ≠ .ended 0 → ∀ p ∈ s.handled, ¬Stops p

structure Inv (getenv : String → Option Bytes) (arrived : List Bytes) (s : State) : Prop where
  written : ∃ generation, Written getenv generation s
  taken : Taken arrived s
  stopping : Stopping s
  early : s.place = .hello ∨ s.place = .welcome → s.welcomed = none ∧ s.handled = []

/-! ### Senders -/

section
variable {getenv : String → Option Bytes} {generation : UInt64} {arrived : List Bytes} {s : State}

theorem transmit_place (reply : Option SendReply) (next : Place) :
    (s.transmit reply next).place = s.place ∨ (s.transmit reply next).place = next ∨
      (s.transmit reply next).place = .ended 1 := by
  cases reply with
  | none => exact .inl rfl
  | some r =>
    refine .inr ?_
    simp only [State.transmit]
    split_ifs
    · exact .inl rfl
    · exact .inr rfl

@[simp] theorem transmit_queue (reply : Option SendReply) (next : Place) :
    (s.transmit reply next).queue = s.queue := by cases reply <;> rfl

@[simp] theorem transmit_handled (reply : Option SendReply) (next : Place) :
    (s.transmit reply next).handled = s.handled := by cases reply <;> rfl

@[simp] theorem transmit_welcomed (reply : Option SendReply) (next : Place) :
    (s.transmit reply next).welcomed = s.welcomed := by cases reply <;> rfl

@[simp] theorem transmit_script (reply : Option SendReply) (next : Place) :
    (s.transmit reply next).script getenv generation = s.script getenv generation := by
  rw [State.script, State.script, transmit_handled]

/-- A sender whose record is the next one that is due. -/
theorem transmit_written (h : Written getenv generation s) (hplace : s.place ≠ .ended 1)
    {record : Bytes} {next : Place}
    (hdue : s.place.due getenv generation = record :: next.due getenv generation)
    {reply : Option SendReply}
    (hreply : ∀ r, reply = some r → (r.result = .ok → r.record = some record) ∧ Within record r) :
    Written getenv generation (s.transmit reply next) := by
  obtain ⟨whole, cut, rest, hscript, hsent, -, hrunning, hlast⟩ := h
  obtain ⟨rfl, rfl⟩ := hrunning hplace
  rw [List.append_nil] at hsent
  rw [hdue] at hscript hlast
  cases reply with
  | none =>
    exact ⟨whole, [], _, hscript, hsent.trans (List.append_nil _).symm, .inl rfl,
      fun _ => ⟨rfl, hdue.symm⟩, hlast⟩
  | some r =>
    obtain ⟨hok, hwithin⟩ := hreply r rfl
    by_cases hresult : r.result = .ok
    · refine ⟨whole ++ [record], [], next.due getenv generation, by simpa using hscript, ?_, .inl rfl,
        fun _ => ?_, fun p hp => .inl ?_⟩
      · simp [State.transmit, hsent, hok hresult]
      · simp [State.transmit, hresult]
      · rcases hlast p hp with hnil | hanswer
        · cases hnil
        · cases ha : answer p with
          | none =>
            rw [ha] at hanswer
            cases hanswer
          | some a =>
            rw [ha, Option.toList_some] at hanswer
            exact (List.cons.inj hanswer).2
    · have hended : (s.transmit (some r) next).place = .ended 1 := if_neg hresult
      refine ⟨whole, r.record.toList, _, hscript, ?_, ?_, fun h => absurd hended h, hlast⟩
      · simp [State.transmit, hsent]
      · cases hrecord : r.record with
        | none => exact .inl rfl
        | some c => exact .inr ⟨c, record, _, rfl, rfl, hwithin c hrecord⟩

theorem transmit_taken (h : Taken arrived s) (hplace : s.place ≠ .ended 1)
    (reply : Option SendReply) (next : Place) : Taken arrived (s.transmit reply next) := by
  obtain ⟨taken, harrived, hprefix, hall⟩ := h
  refine ⟨taken, by simpa using harrived, by simpa using hprefix, fun _ => ?_⟩
  simpa using hall hplace

theorem transmit_stopping (h : Stopping s) (hplace : s.place ≠ .ended 0)
    (reply : Option SendReply) (next : Place) : Stopping (s.transmit reply next) := by
  obtain ⟨hbefore, hrunning⟩ := h
  exact ⟨by simpa using hbefore, fun _ => by simpa using hrunning hplace⟩

theorem Inv.transmit (h : Inv getenv arrived s) (hplace : ∀ status, s.place ≠ .ended status)
    {reply : Option SendReply} {next : Place}
    (hearly : next = .hello ∨ next = .welcome → s.place = .hello)
    (hwritten : ∃ generation, Written getenv generation (s.transmit reply next)) :
    Inv getenv arrived (s.transmit reply next) where
  written := hwritten
  taken := transmit_taken h.taken (hplace 1) reply next
  stopping := transmit_stopping h.stopping (hplace 0) reply next
  early hplace' := by
    rw [transmit_welcomed, transmit_handled]
    rcases transmit_place (s := s) reply next with heq | heq | heq
    · exact h.early (by rwa [heq] at hplace')
    · exact h.early (.inl (hearly (by rwa [heq] at hplace')))
    · rw [heq] at hplace'
      rcases hplace' with h | h <;> cases h

/-- Before the hello the generation is still open. -/
theorem Written.any (h : Written getenv generation s) (hplace : s.place = .hello)
    (hhandled : s.handled = []) (generation' : UInt64) : Written getenv generation' s := by
  obtain ⟨whole, cut, rest, hscript, hsent, -, hrunning, -⟩ := h
  obtain ⟨rfl, rfl⟩ := hrunning (by simp [hplace])
  have hempty : whole = [] := by
    have hlength := congrArg List.length hscript
    rw [State.script, hhandled, hplace, Place.due] at hlength
    exact List.eq_nil_of_length_eq_zero (by simpa using hlength)
  subst hempty
  refine ⟨[], [], announcement getenv generation', ?_, hsent, .inl rfl, fun _ => ⟨rfl, ?_⟩,
    fun p hp => by simp [hhandled] at hp⟩
  · rw [State.script, hhandled]
    exact List.append_nil _
  · rw [hplace, Place.due]

/-! ### The receiver -/

/-- What a call of the receiver leaves of the queue. -/
theorem receive_queue (s : State) (t : Turn) (timeoutMs : Int) :
    (∃ head, s.queue = head :: (s.receive t timeoutMs).queue) ∨
      (s.receive t timeoutMs).queue = s.queue := by
  have hcontract := recvJson_contract s.queue
    ⟨some s.client, s.packet, recvCapacity, timeoutMs, t.answers⟩
  by_cases h : (s.receive t timeoutMs).result.takes
  · exact .inl (hcontract.takes h)
  · exact .inr (hcontract.keeps h)

/-- A packet that was delivered is the first one, as a C string. -/
theorem receive_ok {t : Turn} {timeoutMs : Int} (h : (s.receive t timeoutMs).result = .ok) :
    ∃ head, s.queue = head :: (s.receive t timeoutMs).queue ∧ head.length < recvCapacity ∧
      (s.receive t timeoutMs).buffer.string recvCapacity = content head := by
  obtain ⟨head, hqueue, -, hread, hnul, hroom⟩ := (recvJson_contract s.queue
    ⟨some s.client, s.packet, recvCapacity, timeoutMs, t.answers⟩).copied h
  exact ⟨head, hqueue, hroom, string_of_holds ⟨hread, hnul⟩ hroom⟩

theorem taken_kept (h : Taken arrived s) {s' : State} (hended : s'.place = .ended 1)
    (hwelcomed : s'.welcomed = s.welcomed) (hhandled : s'.handled = s.handled)
    (hqueue : (∃ head, s.queue = head :: s'.queue) ∨ s'.queue = s.queue) : Taken arrived s' := by
  obtain ⟨taken, harrived, hprefix, -⟩ := h
  rw [Taken, hwelcomed, hhandled]
  rcases hqueue with ⟨head, hhead⟩ | hsame
  · refine ⟨taken ++ [head], ?_, ?_, fun h => absurd hended h⟩
    · rw [harrived, hhead]
      simp
    · rw [List.map_append]
      exact hprefix.trans (List.prefix_append _ _)
  · exact ⟨taken, by rw [harrived, hsame], hprefix, fun h => absurd hended h⟩

/-- Nothing has been sent by the receiver. -/
theorem written_kept (h : Written getenv generation s) (hplace : s.place ≠ .ended 1) {s' : State}
    (hsent : s'.sent = s.sent) (hhandled : s'.handled = s.handled)
    (hdue : s'.place = .ended 1 ∨ s'.place.due getenv generation = s.place.due getenv generation) :
    Written getenv generation s' := by
  obtain ⟨whole, cut, rest, hscript, hwhole, hcut, hrunning, hlast⟩ := h
  refine ⟨whole, cut, rest, ?_, hsent.trans hwhole, hcut, fun hrun => ?_, hhandled ▸ hlast⟩
  · rw [State.script, hhandled]
    exact hscript
  · rw [hdue.resolve_left hrun]
    exact hrunning hplace

theorem failed_inv (h : Inv getenv arrived s) (hplace : ∀ status, s.place ≠ .ended status)
    {t : Turn} {timeoutMs : Int} :
    Inv getenv arrived { s.received (s.receive t timeoutMs) with place := .ended 1 } where
  written := h.written.imp fun _ hw => written_kept hw (hplace 1) rfl rfl (.inl rfl)
  taken := taken_kept h.taken rfl rfl rfl (receive_queue s t timeoutMs)
  stopping := ⟨h.stopping.before, fun _ => h.stopping.running (hplace 0)⟩
  early hplace' := by rcases hplace' with h | h <;> cases h

/-- Whatever the loop does with a packet, it is the first of the queue and its answer is due. -/
theorem branch_inv (h : Inv getenv arrived s) (hplace : s.place = .loop) {t : Turn}
    (hok : (s.receive t (-1)).result = .ok) :
    Inv getenv arrived ((s.received (s.receive t (-1))).branch
      ((s.receive t (-1)).buffer.string recvCapacity)
      (handle t.typeBuffer t.methodBuffer
        ((s.receive t (-1)).buffer.string recvCapacity))) := by
  obtain ⟨head, hqueue, hroom, hstring⟩ := receive_ok hok
  have hsize : (content head).length ≤ sizeMax :=
    (content_length head).trans (hroom.le.trans (by decide))
  have hhandle : handle t.typeBuffer t.methodBuffer (content head) =
      handle zeroed zeroed (content head) :=
    handle_buffers ⟨content head, content_terminated head, hsize⟩ _ _
  rw [hstring, hhandle]
  obtain ⟨⟨generation, whole, cut, rest, hscript, hsent, -, hdue, -⟩, ⟨taken, harrived, -, htaken⟩,
    ⟨hbefore, hnone⟩, -⟩ := h
  obtain ⟨rfl, rfl⟩ := hdue (by simp [hplace])
  have hnone := hnone (by simp [hplace])
  have htaken := htaken (by simp [hplace])
  rw [hplace, Place.due, List.append_nil] at hscript
  refine ⟨⟨generation, whole, [], (answer (content head)).toList, ?_, hsent, .inl rfl,
    fun _ => ⟨rfl, ?_⟩, fun p hp => .inr ?_⟩,
    ⟨taken ++ [head], ?_, ?_, fun _ => ?_⟩, ⟨?_, ?_⟩, fun hearly => ?_⟩
  · rw [← hscript, State.script, State.script, List.append_assoc]
    refine congrArg _ ((List.filterMap_append ..).trans (congrArg _ ?_))
    cases hanswer : answer (content head) <;> simp [hanswer]
  · rw [answer]
    cases handle zeroed zeroed (content head) <;> rfl
  · have hlast : (s.handled ++ [content head]).getLast? = some p := hp
    rw [List.getLast?_concat] at hlast
    rw [Option.some.inj hlast]
  · rw [harrived, hqueue]
    simp [State.branch, State.received]
  · rw [List.map_append, htaken]
    simp [State.branch, State.received]
  · rw [List.map_append, htaken]
    simp [State.branch, State.received]
  · rw [show ((s.received (s.receive t (-1))).branch (content head) _).handled =
      s.handled ++ [content head] from rfl, List.dropLast_concat]
    exact hnone
  · intro hrun p hp
    rcases List.mem_append.mp (show p ∈ s.handled ++ [content head] from hp) with hp | hp
    · exact hnone p hp
    · rw [List.mem_singleton.mp hp]
      intro hstop
      rw [Stops] at hstop
      rw [hstop] at hrun
      exact hrun rfl
  · cases hnext : handle zeroed zeroed (content head) with
    | _ =>
      rw [hnext] at hearly
      rcases hearly with h | h <;> cases h

theorem request_sent {q : Request} {sys : System} {client : Option Client} :
    ∀ r, q.send sys client = some r →
      (r.result = .ok → r.record = some (recordText q.fields)) ∧ Within (recordText q.fields) r :=
  fun _ h => ⟨fun hok => (q.transmitted h hok).1.1, send_within h⟩

theorem turn_inv (h : Inv getenv arrived s) (t : Turn) : Inv getenv arrived (s.turn getenv t) := by
  have hrunning : ∀ {place : Place}, s.place = place → (∀ status, place ≠ .ended status) →
      ∀ status, s.place ≠ .ended status := fun hplace hne status => hplace ▸ hne status
  obtain ⟨generation, hwritten⟩ := h.written
  cases hplace : s.place with
  | hello =>
    have hrun := hrunning hplace (by simp)
    rw [State.turn, hplace]
    refine h.transmit hrun (fun _ => hplace) ?_
    have hhandled := (h.early (.inl hplace)).2
    cases hreply : sendHelloFromEnv t.sys getenv (some s.client) with
    | none => exact ⟨generation, hwritten⟩
    | some r =>
      obtain ⟨n, hok, hwithin⟩ := sendHelloFromEnv_cases hreply
      refine ⟨n, transmit_written (hwritten.any hplace hhandled n) (hrun 1) (by rw [hplace]; rfl)
        fun r' hr => ?_⟩
      cases hr
      exact ⟨fun hr => (hok hr).1.1, hwithin⟩
  | welcome =>
    have hrun := hrunning hplace (by simp)
    rw [State.turn, hplace]
    dsimp only
    split
    next hok =>
      obtain ⟨head, hqueue, -, hstring⟩ := receive_ok hok
      obtain ⟨hwelcomed, hhandled⟩ := h.early (.inr hplace)
      obtain ⟨taken, harrived, -, htaken⟩ := h.taken
      have htaken := htaken (hrun 1)
      rw [hwelcomed, hhandled] at htaken
      have hall : (taken ++ [head]).map content = [content head] := by
        rw [List.map_append, htaken]
        rfl
      refine ⟨⟨generation, written_kept hwritten (hrun 1) rfl rfl (.inr (by rw [hplace]; rfl))⟩,
        ⟨taken ++ [head], ?_, ?_, fun _ => ?_⟩, ⟨h.stopping.before,
          fun _ => h.stopping.running (hrun 0)⟩, fun hearly => ?_⟩
      · rw [harrived, hqueue]
        simp [State.received]
      · rw [hall, hstring]
        simp [State.received, hhandled]
      · rw [hall, hstring]
        simp [State.received, hhandled]
      · rcases hearly with h | h <;> cases h
    next => exact failed_inv h hrun
  | subscribe =>
    rw [State.turn, hplace]
    exact h.transmit (hrunning hplace (by simp)) (by simp)
      ⟨generation, transmit_written hwritten (by simp [hplace]) (by rw [hplace]; rfl)
        (request_sent (q := .subscribe tickTopic))⟩
  | ready =>
    rw [State.turn, hplace]
    refine h.transmit (hrunning hplace (by simp)) (by simp)
      ⟨generation, transmit_written hwritten (by simp [hplace]) (by rw [hplace]; rfl) fun r hr => ?_⟩
    exact ⟨fun hok => (sendJson_ok hr hok).1, sendReady_within hr⟩
  | started =>
    rw [State.turn, hplace]
    exact h.transmit (hrunning hplace (by simp)) (by simp)
      ⟨generation, transmit_written hwritten (by simp [hplace]) (by rw [hplace]; rfl)
        (request_sent (q := .event startedTopic startedPayload))⟩
  | loop =>
    have hrun := hrunning hplace (by simp)
    rw [State.turn, hplace]
    dsimp only
    split
    next heof =>
      have hqueue : (s.receive t (-1)).queue = s.queue := by
        refine (recvJson_contract s.queue
          ⟨some s.client, s.packet, recvCapacity, -1, t.answers⟩).keeps ?_
        rw [show recvJson _ _ = s.receive t (-1) from rfl, heof]
        simp [Result.takes]
      obtain ⟨taken, harrived, hprefix, htaken⟩ := h.taken
      refine ⟨⟨generation, written_kept hwritten (hrun 1) rfl rfl (.inr (by rw [hplace]; rfl))⟩,
        ⟨taken, by rw [harrived, ← hqueue]; rfl, hprefix, fun _ => htaken (hrun 1)⟩,
        ⟨h.stopping.before, fun hne => absurd rfl hne⟩, fun hearly => ?_⟩
      rcases hearly with h | h <;> cases h
    next =>
      split
      next => exact failed_inv h hrun
      next hok => exact branch_inv h hplace (not_not.mp hok)
  | replying q =>
    rw [State.turn, hplace]
    exact h.transmit (hrunning hplace (by simp)) (by simp)
      ⟨generation, transmit_written hwritten (by simp [hplace]) (by rw [hplace]; rfl) request_sent⟩
  | ended status =>
    rw [State.turn, hplace]
    exact h

theorem step_inv (h : Inv getenv arrived s) (e : Event) :
    Inv getenv (arrived ++ arrivals [e]) (s.step getenv e) := by
  cases e with
  | arrive packet =>
    obtain ⟨hwritten, ⟨taken, harrived, hprefix, htaken⟩, hstopping, hearly⟩ := h
    refine ⟨hwritten, ⟨taken, ?_, hprefix, htaken⟩, ⟨hstopping.before, hstopping.running⟩, hearly⟩
    rw [harrived]
    simp [arrivals, State.step]
  | turn t =>
    rw [arrivals, List.filterMap_cons, List.filterMap_nil, List.append_nil]
    exact turn_inv h t

theorem run_inv {events : List Event} (h : Inv getenv arrived s) :
    Inv getenv (arrived ++ arrivals events) (s.run getenv events) := by
  induction events generalizing arrived s with
  | nil => simpa [arrivals, State.run] using h
  | cons e events ih =>
    have hrest := ih (step_inv h e)
    rwa [List.append_assoc, arrivals, arrivals, ← List.filterMap_append] at hrest

theorem start_inv (client : Client) (packet : Buffer) (packets : List Bytes) :
    Inv getenv packets (State.start client packet packets) where
  written := ⟨0, [], [], announcement getenv 0, List.append_nil _, rfl, .inl rfl,
    fun _ => ⟨rfl, rfl⟩, fun _ hp => by cases hp⟩
  taken := ⟨[], rfl, List.nil_prefix, fun _ => rfl⟩
  stopping := ⟨fun _ hp => absurd hp List.not_mem_nil, fun _ _ hp => absurd hp List.not_mem_nil⟩
  early _ := ⟨rfl, rfl⟩

/-- After the end packets may still arrive, but nothing is done. -/
theorem run_ended {status : Nat} (h : s.place = .ended status) (events : List Event) :
    (s.run getenv events).place = .ended status ∧
      (s.run getenv events).handled = s.handled ∧ (s.run getenv events).sent = s.sent := by
  induction events generalizing s with
  | nil => exact ⟨h, rfl, rfl⟩
  | cons e events ih =>
    cases e with
    | arrive packet => exact ih (s := s.step getenv (.arrive packet)) h
    | turn t =>
      have hstep : s.step getenv (.turn t) = s := by
        rw [State.step, State.turn, h]
      rw [State.run, List.foldl_cons, hstep]
      exact ih h

end

/-- In every run: what has been sent is the announcement and the answers to the calls handled, each
once and in order, as far as it goes; what was handled are the packets that arrived, in order, the
first of which was the welcome; none comes after a shutdown, and nothing after the end. -/
theorem component_answers (getenv : String → Option Bytes) (client : Client) (packet : Buffer)
    (packets : List Bytes) (events : List Event) :
    let s := (State.start client packet packets).run getenv events
    (∃ generation, Written getenv generation s) ∧ Taken (packets ++ arrivals events) s ∧
      Stopping s ∧ ∀ status, s.place = .ended status → ∀ more,
        (s.run getenv more).place = .ended status ∧ (s.run getenv more).handled = s.handled ∧
          (s.run getenv more).sent = s.sent :=
  have h : Inv getenv (packets ++ arrivals events) _ := run_inv (start_inv client packet packets)
  ⟨h.written, h.taken, h.stopping, fun _ hended more => run_ended hended more⟩

end Msys.Component
