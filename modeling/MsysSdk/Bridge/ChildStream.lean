import MsysSdk.Bridge.Outbound

/-! The records in the child's output, and that the pump sends these: the lines of the stream
up to the first that is no record, whatever the pieces in which the stream was written. -/

namespace Msys.Bridge
open Python Framing Transition

/-- A line without its carriage return. -/
def recordOf (line : Bytes) : Bytes :=
  if line.getLast? = some carriageReturn then line.dropLast else line

/-- Neither empty nor too long, and `json.loads` reads a JSON object from it. -/
def isRecord (py : Interpreter) (record : Bytes) : Bool :=
  record ≠ [] && record.length ≤ maxPacket &&
    match loads py false record with
    | .ok (.dict _) => true
    | _ => false

def childRecords (py : Interpreter) (stream : Bytes) : List Bytes :=
  ((lines newline stream).map recordOf).takeWhile (isRecord py)

/-! ### What is made of the lines that are read -/

/-- The records of the lines up to the first that is rejected. -/
def accepted (py : Interpreter) : List Bytes → List Bytes
  | [] => []
  | l :: ls =>
    match validatedRecord py l with
    | .ok r => r :: accepted py ls
    | .error _ => []

section
variable {py : Interpreter}

theorem accepted_ok {l r : Bytes} (ls : List Bytes) (h : validatedRecord py l = .ok r) :
    accepted py (l :: ls) = r :: accepted py ls := by
  rw [accepted, h]

theorem accepted_error {l : Bytes} {e : Exc} (ls : List Bytes)
    (h : validatedRecord py l = .error e) : accepted py (l :: ls) = [] := by
  rw [accepted, h]

theorem accepted_append {ls rs : List Bytes} {rest : List (Except Exc Bytes)} (ms : List Bytes)
    (h : ls.map (validatedRecord py) = rs.map .ok ++ rest) :
    ∃ ls', ls'.map (validatedRecord py) = rest ∧
      accepted py (ls ++ ms) = rs ++ accepted py (ls' ++ ms) := by
  induction rs generalizing ls with
  | nil => exact ⟨ls, h, rfl⟩
  | cons r rs ih =>
    cases ls with
    | nil => cases h
    | cons l ls =>
      rw [List.map_cons, List.map_cons, List.cons_append, List.cons.injEq] at h
      obtain ⟨ls', hrest, hls⟩ := ih h.2
      exact ⟨ls', hrest, by rw [List.cons_append, accepted_ok _ h.1, hls, List.cons_append]⟩

theorem unterminated_rejected (py : Interpreter) {line : Bytes} (h : newline ∉ line) :
    ∃ e, validatedRecord py line = .error e :=
  ⟨_, if_pos fun hlast => h (List.mem_of_getLast? hlast)⟩

theorem checkObject_error {record : Bytes} (invalid notObject : Str)
    (h : ∀ d, loads py false record ≠ .ok (.dict d)) :
    ∃ e, checkObject py record invalid notObject = .error e := by
  unfold checkObject
  split
  next d hd => exact absurd hd (h d)
  all_goals exact ⟨_, rfl⟩

theorem isRecord_iff {record : Bytes} : isRecord py record = true ↔
    record ≠ [] ∧ record.length ≤ maxPacket ∧ ∃ d, loads py false record = .ok (.dict d) := by
  have hobject : (match loads py false record with | .ok (.dict _) => true | _ => false) = true ↔
      ∃ d, loads py false record = .ok (.dict d) := by
    split
    next d hd => exact iff_of_true rfl ⟨d, hd⟩
    next hno => exact iff_of_false Bool.false_ne_true fun ⟨d, hd⟩ => hno d hd
  rw [isRecord, Bool.and_eq_true, Bool.and_eq_true, hobject, decide_eq_true_eq, decide_eq_true_eq,
    and_assoc]

theorem validatedRecord_terminated (line : Bytes) : validatedRecord py (line ++ [newline]) =
    if recordOf line = [] then .error (.protocol (str "child emitted an empty mIPC record"))
    else if maxPacket < (recordOf line).length then
      .error (.protocol (str "child mIPC record is too large"))
    else
      match checkObject py (recordOf line) (str "child emitted invalid mIPC JSON: ")
        (str "child mIPC record must be a JSON object") with
      | .ok () => .ok (recordOf line)
      | .error e => .error e := by
  have hlast : (line ++ [newline]).getLast? = some newline := by simp
  rw [validatedRecord, if_neg (not_not.mpr hlast), List.dropLast_concat]
  rfl

/-- A line is taken exactly if what it has before its LF or CRLF is a record. -/
theorem validatedRecord_line (py : Interpreter) (line : Bytes) :
    if isRecord py (recordOf line) then
      validatedRecord py (line ++ [newline]) = .ok (recordOf line)
    else ∃ e, validatedRecord py (line ++ [newline]) = .error e := by
  rw [validatedRecord_terminated]
  by_cases hrecord : isRecord py (recordOf line) = true
  · obtain ⟨hempty, hlen, d, hd⟩ := isRecord_iff.mp hrecord
    rw [if_pos hrecord, if_neg hempty, if_neg (Nat.not_lt.mpr hlen), checkObject, hd]
  · rw [if_neg hrecord]
    split_ifs with hempty hlarge
    · exact ⟨_, rfl⟩
    · exact ⟨_, rfl⟩
    · obtain ⟨e, he⟩ := checkObject_error (str "child emitted invalid mIPC JSON: ")
        (str "child mIPC record must be a JSON object") fun d hd =>
          hrecord (isRecord_iff.mpr ⟨hempty, Nat.le_of_not_lt hlarge, d, hd⟩)
      exact ⟨e, by rw [he]⟩

theorem recordOf_length (line : Bytes) : line.length ≤ (recordOf line).length + 1 := by
  unfold recordOf
  split_ifs
  · rw [List.length_dropLast]
    omega
  · omega

/-- The lines that `readline` gives, its bound included, have the records of the stream. -/
theorem accepted_cut (stream : Bytes) :
    accepted py (cut newline lineLimit stream) = childRecords py stream := by
  induction hn : stream.length using Nat.strongRecOn generalizing stream with
  | ind n ih =>
  subst hn
  unfold childRecords
  cases hl : takeLine newline lineLimit stream with
  | none =>
    rw [lines_eq_nil (takeLine_none hl)]
    rcases eq_or_ne stream [] with rfl | hne
    · rfl
    · obtain ⟨e, he⟩ := unterminated_rejected py (takeLine_none hl)
      rw [cut_none hl hne, accepted_error _ he]
      rfl
  | some p =>
    obtain ⟨l, r⟩ := p
    rw [cut_some hl (by decide)]
    obtain ⟨rfl, ⟨body, rfl, hbody⟩ | ⟨hopen, hlen⟩⟩ := takeLine_some hl
    · have hline := validatedRecord_line py body
      rw [List.append_assoc, List.singleton_append, lines_cons hbody, List.map_cons,
        List.takeWhile_cons]
      split_ifs at hline ⊢
      · rw [accepted_ok _ hline, ih r.length (by simp; omega) r rfl, childRecords]
      · obtain ⟨e, he⟩ := hline
        exact accepted_error _ he
    · obtain ⟨e, he⟩ := unterminated_rejected py hopen
      rw [accepted_error _ he]
      -- the first line of the stream, if it has one, is longer than what was read of it
      by_cases hr : newline ∈ r
      · obtain ⟨body, t, rfl, hbody, -⟩ := exists_lines_cons hr
        have hlong : isRecord py (recordOf (l ++ body)) = false := by
          have hrecord := recordOf_length (l ++ body)
          rw [List.length_append, hlen, lineLimit] at hrecord
          have hnot : ¬(recordOf (l ++ body)).length ≤ maxPacket := by omega
          simp [isRecord, hnot]
        rw [← List.append_assoc, lines_cons (by simp [hopen, hbody]), List.map_cons,
          List.takeWhile_cons, hlong]
        rfl
      · rw [lines_eq_nil (by simp [hopen, hr])]
        rfl

end

/-! ### What the pump has sent at any time -/

/-- What was sent are the records of the first lines that were read. -/
def Behind (py : Interpreter) (s : State) : Prop :=
  ∃ rest, s.read.map (validatedRecord py) = s.sent.map .ok ++ rest

theorem Behind.step {py : Interpreter} {s s' : State} {a : Action} (h : Step py s a s')
    (hp : Pumped py s) (hi : Behind py s) : Behind py s' := by
  have hprogress := hp.progress
  cases h with
  | readLine pc =>
    rw [pc] at hprogress
    exact ⟨[_], by rw [List.map_append, hprogress]; rfl⟩
  | readRest pc =>
    rw [pc] at hprogress
    exact ⟨[_], by rw [List.map_append, hprogress]; rfl⟩
  | sent pc =>
    rw [pc] at hprogress
    exact ⟨[], by simpa [Progress] using hprogress⟩
  | @finish phase o pc => cases phase <;> exact hi
  | _ => exact hi

theorem reach_behind {py : Interpreter} {ok : State → Action → Prop} {s : State}
    (h : Reach (step py) ok init s) : Behind py s :=
  h.invariant_of (fun _ hr => reach_pumped hr) ⟨[], rfl⟩ fun _ _ _ hp hi _ hs =>
    hi.step (step_sound hs) hp

theorem sent_prefix {py : Interpreter} {s : State} (h : Reach (step py) Any init s) {more : Bytes}
    (hmore : s.child.ended = true → more = []) : s.sent <+: childRecords py (s.wrote ++ more) := by
  obtain ⟨rest, hrest⟩ := reach_behind h
  have hfeeds := (reach_pumped h).feeds more hmore
  obtain ⟨ls, -, hls⟩ := accepted_append (cut newline lineLimit (s.pipe ++ more)) hrest
  rw [← accepted_cut, hfeeds, hls]
  exact List.prefix_append _ _

/-! ### What it has sent in the end -/

/-- Every line was sent up to one that is rejected, or up to the end of the stream. -/
def Done (py : Interpreter) (s : State) : Prop :=
  Drained py s ∨ ∃ e, s.read.map (validatedRecord py) = s.sent.map .ok ++ [.error e]

/-- `control.sendall` succeeds. -/
def Delivers (_ : State) : Action → Prop
  | .outputSend (.error _) => False
  | _ => True

structure Relayed (py : Interpreter) (s : State) : Prop where
  closing : s.stop = false → s.shut = false ∧ s.stdoutClosed = false
  leaving : ∀ phase o, s.run = .leaving phase o → phase ≠ .stop → s.stop = true
  unfailed : ∀ e, s.output ≠ .failed e
  absent : s.output = .absent → s.child = .absent
  reporting : ∀ r, s.output = .reporting r → s.stop = false → Done py s
  ended : s.output = .ended → s.stop = false → Done py s

theorem Done.sent {py : Interpreter} {s : State} (hp : Pumped py s) (h : Done py s) :
    s.sent = childRecords py s.wrote := by
  have hfeeds := hp.feeds [] fun _ => rfl
  rw [List.append_nil, List.append_nil] at hfeeds
  rw [← accepted_cut, hfeeds]
  rcases h with ⟨-, hempty, hall⟩ | ⟨e, he⟩
  · obtain ⟨ls, hls, haccepted⟩ := accepted_append (cut newline lineLimit s.pipe)
      (hall.trans (List.append_nil _).symm)
    rw [List.map_eq_nil_iff] at hls
    rw [haccepted, hls, hempty]
    exact (List.append_nil _).symm
  · obtain ⟨ls, hls, haccepted⟩ := accepted_append (cut newline lineLimit s.pipe) he
    obtain ⟨l, rfl, hl⟩ := List.map_eq_singleton_iff.mp hls
    rw [haccepted, List.singleton_append, accepted_error _ hl, List.append_nil]

/-- A pump that has nothing in hand any more reads and sends nothing. -/
theorem Done.step {py : Interpreter} {s s' : State} {a : Action} (h : Step py s a s')
    (hp : Pumped py s) (hpc : s.output = .ended ∨ ∃ r, s.output = .reporting r)
    (hd : Done py s) : Done py s' := by
  refine hd.imp (fun hd => hd.step h hp) fun he => ?_
  cases h with
  | readLine pc => simp [pc] at hpc
  | readRest pc => simp [pc] at hpc
  | sent pc => simp [pc] at hpc
  | @finish phase o pc => cases phase <;> exact he
  | _ => exact he

theorem lineRead_done {py : Interpreter} {read sent : List Bytes} {line : Bytes} {r : PumpResult}
    (h : lineRead py line = .reporting r) (hall : read.map (validatedRecord py) = sent.map .ok) :
    ∃ e, (read ++ [line]).map (validatedRecord py) = sent.map .ok ++ [.error e] := by
  unfold lineRead at h
  split at h
  · cases h
  next e he => exact ⟨e, by rw [List.map_append, hall, List.map_singleton, he]⟩

theorem Relayed.step {py : Interpreter} {s s' : State} {a : Action} (h : Step py s a s')
    (hok : Delivers s a) (hp : Pumped py s) (hi : Relayed py s) : Relayed py s' := by
  obtain ⟨hclosing, hleaving, hsound, habsent, hreporting, hended⟩ := hi
  have hprogress := hp.progress
  have keepReporting : ∀ r, s.output = .reporting r → s.stop = false → Done py s' :=
    fun r hr hs => (hreporting r hr hs).step h hp (.inr ⟨r, hr⟩)
  have keepEnded : s.output = .ended → s.stop = false → Done py s' :=
    fun he hs => (hended he hs).step h hp (.inl he)
  -- the child is up, so the pump is
  have up : ∀ {o}, s.child = .running o → s.output ≠ .absent := by
    intro o hc ho
    cases hc.symm.trans (habsent ho)
  cases h with
  | childWrite pc =>
    exact ⟨hclosing, hleaving, hsound, fun ho => absurd ho (up pc), keepReporting, keepEnded⟩
  | childClose pc =>
    exact ⟨hclosing, hleaving, hsound, fun ho => absurd ho (up pc), keepReporting, keepEnded⟩
  | childExit pc =>
    exact ⟨hclosing, hleaving, hsound, fun ho => absurd ho (up pc), keepReporting, keepEnded⟩
  | notSent pc => exact hok.elim
  | outputFailed pc => exact absurd pc (hsound _)
  | outputTest pc =>
    refine ⟨hclosing, hleaving, fun e => ?_, fun ho => ?_, fun r hr => ?_, fun he hs => ?_⟩
    · dsimp only
      split_ifs <;> simp
    · dsimp only at ho
      split_ifs at ho
    · dsimp only at hr
      split_ifs at hr
    · dsimp only at he
      rw [if_neg (by simpa using hs)] at he
      cases he
  | readClosed pc hc =>
    refine ⟨hclosing, hleaving, by simp, by simp, fun r hr hs => ?_, by simp⟩
    exact absurd ((hclosing hs).2.symm.trans hc) Bool.false_ne_true
  | readLine pc =>
    rw [pc] at hprogress
    exact ⟨hclosing, hleaving, lineRead_going.2.2, fun ho => absurd ho lineRead_going.2.1,
      fun r hr _ => .inr (lineRead_done hr hprogress), fun he => absurd he lineRead_going.1⟩
  | readRest pc =>
    rw [pc] at hprogress
    exact ⟨hclosing, hleaving, lineRead_going.2.2, fun ho => absurd ho lineRead_going.2.1,
      fun r hr _ => .inr (lineRead_done hr hprogress), fun he => absurd he lineRead_going.1⟩
  | readEof pc hc he hempty =>
    rw [pc] at hprogress
    exact ⟨hclosing, hleaving, by simp, by simp, fun r hr _ => .inl ⟨he, hempty, hprogress⟩,
      by simp⟩
  | sent pc => exact ⟨hclosing, hleaving, by simp, by simp, by simp, by simp⟩
  | outputReport pc =>
    exact ⟨hclosing, hleaving, by simp, by simp, by simp, fun _ => keepReporting _ pc⟩
  | started pc => exact ⟨hclosing, by simp, by simp, by simp, by simp, by simp⟩
  | waited pc =>
    refine ⟨hclosing, fun phase o hr hphase => ?_, hsound, habsent, keepReporting, keepEnded⟩
    obtain ⟨rfl, -⟩ := RunPc.leaving.inj hr
    exact absurd rfl hphase
  | gaveUp pc =>
    refine ⟨hclosing, fun phase o hr hphase => ?_, hsound, habsent, keepReporting, keepEnded⟩
    obtain ⟨rfl, -⟩ := RunPc.leaving.inj hr
    exact absurd rfl hphase
  | @finish phase o pc =>
    cases phase with
    | stop =>
      exact ⟨by simp [finish], fun _ _ _ _ => rfl, hsound, habsent, by simp [finish],
        by simp [finish]⟩
    | _ =>
      have hstop := hleaving _ o pc (by simp)
      have hno : s.stop ≠ false := by simp [hstop]
      exact ⟨fun hs => absurd hs hno, fun _ _ _ _ => hstop, hsound, habsent,
        fun _ _ hs => absurd hs hno, fun _ hs => absurd hs hno⟩
  | _ =>
    exact ⟨hclosing, by first | exact hleaving | simp, hsound, habsent, keepReporting, keepEnded⟩

theorem reach_relayed {py : Interpreter} {s : State} (h : Reach (step py) Delivers init s) :
    Relayed py s :=
  h.invariant_of (fun _ hr => reach_pumped hr)
    ⟨fun _ => ⟨rfl, rfl⟩, by simp [init], by simp [init], fun _ => rfl, by simp [init],
      by simp [init]⟩
    fun _ _ _ hp hi hok hs => hi.step (step_sound hs) hok hp

/-! ### That it gets there -/

/-- The pump moves, and `control.sendall` succeeds. -/
def Relays (_ : State) : Action → Prop
  | .outputTest | .outputRead | .outputSend (.ok ()) | .outputReport => True
  | _ => False

theorem Relays.delivers {s : State} {a : Action} (h : Relays s a) : Delivers s a := by
  cases a with
  | outputSend taken => cases taken <;> first | exact h.elim | trivial
  | _ => trivial

/-- The child is through, and the bridge has not begun to stop. -/
structure Flushing (s : State) : Prop where
  ended : s.child.ended = true
  stop : s.stop = false
  shut : s.shut = false
  stdoutClosed : s.stdoutClosed = false

/-- The pump's own steps take it to its end. -/
def Ends (py : Interpreter) (s : State) : Prop :=
  ∃ s', Reach (step py) Relays s s' ∧ s'.output = .ended ∧ s'.stop = false ∧ s'.wrote = s.wrote

theorem Ends.next {py : Interpreter} {s s' : State} {a : Action} (h : Ends py s')
    (hok : Relays s a) (hs : step py s a = some s') (hw : s'.wrote = s.wrote) : Ends py s := by
  obtain ⟨t, hr, he, hstop, hwrote⟩ := h
  exact ⟨t, (Reach.start.next hok hs).trans hr, he, hstop, hwrote.trans hw⟩

theorem ends_reporting {py : Interpreter} {s : State} {r : PumpResult}
    (hpc : s.output = .reporting r) (hf : Flushing s) : Ends py s := by
  have hs : step py s .outputReport =
      some { s with output := .ended, results := s.results ++ [r] } := by
    simp [step, outputReport, hpc]
  have hok : Relays s .outputReport := trivial
  exact ⟨_, Reach.start.next hok hs, rfl, hf.stop, rfl⟩

theorem ends_sending {py : Interpreter} {s : State} {record : Bytes}
    (hpc : s.output = .sending record) (hf : Flushing s)
    (h : ∀ s', s'.output = .test → Flushing s' → s'.pipe = s.pipe → Ends py s') : Ends py s := by
  have hs : step py s (.outputSend (.ok ())) =
      some { s with output := .test, sent := s.sent ++ [record] } := by
    simp [step, outputSend, hpc, hf.shut]
  have hok : Relays s (.outputSend (.ok ())) := trivial
  refine Ends.next ?_ hok hs rfl
  exact h _ rfl ⟨hf.ended, hf.stop, hf.shut, hf.stdoutClosed⟩ rfl

theorem ends_lineRead {py : Interpreter} {s : State} {line : Bytes}
    (hpc : s.output = lineRead py line) (hf : Flushing s)
    (h : ∀ s', s'.output = .test → Flushing s' → s'.pipe = s.pipe → Ends py s') : Ends py s := by
  unfold lineRead at hpc
  split at hpc
  · exact ends_sending hpc hf h
  · exact ends_reporting hpc hf

theorem taken_length {s l r : Bytes} (h : takeLine newline lineLimit s = some (l, r)) :
    r.length < s.length := by
  obtain ⟨rfl, ⟨body, rfl, -⟩ | ⟨-, hlen⟩⟩ := takeLine_some h
  · simp
    omega
  · rw [List.length_append, hlen, lineLimit]
    omega

theorem ends_read {py : Interpreter} {s : State} (hpc : s.output = .read) (hf : Flushing s)
    (h : ∀ s', s'.output = .test → Flushing s' → s'.pipe.length < s.pipe.length → Ends py s') :
    Ends py s := by
  have hok : Relays s .outputRead := trivial
  have hbusy : ∀ pc line rest, Flushing
      { s with pipe := rest, read := s.read ++ [line], output := pc } :=
    fun _ _ _ => ⟨hf.ended, hf.stop, hf.shut, hf.stdoutClosed⟩
  cases hl : takeLine newline lineLimit s.pipe with
  | some p =>
    obtain ⟨line, rest⟩ := p
    have hs : step py s .outputRead = some
        { s with pipe := rest, read := s.read ++ [line], output := lineRead py line } := by
      simp only [step, outputRead, hpc, hf.stdoutClosed, Bool.false_eq_true, if_false]
      rw [← lineLimit, hl]
    refine Ends.next ?_ hok hs rfl
    refine ends_lineRead rfl (hbusy _ line rest) fun s' hpc' hf' hpipe => ?_
    exact h s' hpc' hf' (by rw [hpipe]; exact taken_length hl)
  | none =>
    by_cases hempty : s.pipe = []
    · have hs : step py s .outputRead =
          some { s with output := .reporting ⟨.childEof, none⟩ } := by
        simp only [step, outputRead, hpc, hf.stdoutClosed, Bool.false_eq_true, if_false, hf.ended,
          Bool.not_true]
        rw [← lineLimit, hl]
        exact if_pos hempty
      refine Ends.next ?_ hok hs rfl
      exact ends_reporting rfl ⟨hf.ended, hf.stop, hf.shut, hf.stdoutClosed⟩
    · have hs : step py s .outputRead = some
          { s with pipe := [], read := s.read ++ [s.pipe], output := lineRead py s.pipe } := by
        simp only [step, outputRead, hpc, hf.stdoutClosed, Bool.false_eq_true, if_false, hf.ended,
          Bool.not_true]
        rw [← lineLimit, hl]
        exact if_neg hempty
      refine Ends.next ?_ hok hs rfl
      refine ends_lineRead rfl (hbusy _ s.pipe []) fun s' hpc' hf' hpipe => ?_
      exact h s' hpc' hf' (by rw [hpipe]; exact List.length_pos_iff.mpr hempty)

theorem ends_test {py : Interpreter} (n : Nat) :
    ∀ s : State, s.pipe.length = n → s.output = .test → Flushing s → Ends py s := by
  -- what is left in the pipe becomes less with each line
  induction n using Nat.strongRecOn with
  | ind n ih =>
  rintro s rfl hpc hf
  have hs : step py s .outputTest = some { s with output := .read } := by
    simp [step, outputTest, hpc, hf.stop]
  have hok : Relays s .outputTest := trivial
  refine Ends.next ?_ hok hs rfl
  refine ends_read rfl ⟨hf.ended, hf.stop, hf.shut, hf.stdoutClosed⟩ ?_
  exact fun s' hpc' hf' hlen => ih _ hlen s' rfl hpc' hf'

theorem ends_of_relayed {py : Interpreter} {s : State} (hi : Relayed py s)
    (hstop : s.stop = false) (hended : s.child.ended = true) : Ends py s := by
  obtain ⟨hshut, hclosed⟩ := hi.closing hstop
  have hf : Flushing s := ⟨hended, hstop, hshut, hclosed⟩
  cases hpc : s.output with
  | absent =>
    rw [hi.absent hpc] at hended
    cases hended
  | test => exact ends_test _ s rfl hpc hf
  | read => exact ends_read hpc hf fun s' hpc' hf' _ => ends_test _ s' rfl hpc' hf'
  | sending record => exact ends_sending hpc hf fun s' hpc' hf' _ => ends_test _ s' rfl hpc' hf'
  | failed e => exact absurd hpc (hi.unfailed e)
  | reporting r => exact ends_reporting hpc hf
  | ended => exact ⟨s, Reach.start, hpc, hstop, rfl⟩

theorem ended_sent {py : Interpreter} {s : State} (h : Reach (step py) Delivers init s)
    (hstop : s.stop = false) (hpc : s.output = .ended) : s.sent = childRecords py s.wrote :=
  ((reach_relayed h).ended hpc hstop).sent (reach_pumped h)

/-- A record of any length up to the limit is taken with either ending. -/
theorem childRecords_single {py : Interpreter} {record : Bytes} (h : isRecord py record = true)
    (hn : newline ∉ record) (hcr : record.getLast? ≠ some carriageReturn) :
    childRecords py (record ++ [newline]) = [record] ∧
      childRecords py (record ++ [carriageReturn, newline]) = [record] := by
  have hlf : recordOf record = record := if_neg hcr
  have hcrlf : recordOf (record ++ [carriageReturn]) = record := by simp [recordOf]
  have hnil : lines newline [] = [] := rfl
  constructor
  · rw [childRecords, lines_cons hn, hnil, List.map_singleton, hlf, List.takeWhile_cons, h]
    rfl
  · have hn' : newline ∉ record ++ [carriageReturn] := by
      simp only [List.mem_append, not_or, List.mem_singleton]
      exact ⟨hn, by decide⟩
    rw [List.append_cons, childRecords, lines_cons hn', hnil, List.map_singleton, hcrlf,
      List.takeWhile_cons, h]
    rfl

/-- At no time is anything else sent than the first records of the stream; a pump that neither
is stopped nor fails to send has sent all of them when it ends, and it gets there. -/
theorem child_records_sent (py : Interpreter) :
    (∀ s, Reach (step py) Any init s → ∀ more, (s.child.ended = true → more = []) →
      s.sent <+: childRecords py (s.wrote ++ more)) ∧
    (∀ s, Reach (step py) Delivers init s → s.stop = false →
      (s.output = .ended → s.sent = childRecords py s.wrote) ∧
      (s.child.ended = true → ∃ s', Reach (step py) Relays s s' ∧ s'.output = .ended ∧
        s'.wrote = s.wrote ∧ s'.sent = childRecords py s.wrote)) ∧
    ∀ record, record.length = maxPacket → isRecord py record = true → newline ∉ record →
      record.getLast? ≠ some carriageReturn →
        childRecords py (record ++ [newline]) = [record] ∧
          childRecords py (record ++ [carriageReturn, newline]) = [record] := by
  refine ⟨fun s h more hmore => sent_prefix h hmore, fun s h hstop => ⟨ended_sent h hstop, ?_⟩,
    fun record _ h hn hcr => childRecords_single h hn hcr⟩
  intro hended
  obtain ⟨s', hr, hpc, hstop', hwrote⟩ := ends_of_relayed (reach_relayed h) hstop hended
  have hall := h.trans (hr.mono fun _ _ => Relays.delivers)
  exact ⟨s', hr, hpc, hwrote, by rw [← hwrote, ended_sent hall hstop' hpc]⟩

instance (s : State) (a : Action) : Decidable (Delivers s a) :=
  match a with
  | .outputSend (.error _) => .isFalse id
  | .outputSend (.ok ()) => .isTrue trivial
  | .childWrite _ | .childClose | .childExit _ | .spawn _ | .run | .outputTest | .outputRead
  | .outputFailed | .outputReport | .inputTest | .inputRecv _ | .inputWrite _ | .inputFailed
  | .inputReport => .isTrue trivial

/-- `{}` and a CRLF in two pieces. -/
theorem child_records_sent_empty :
    ∃ s, Reach (step plain) Delivers init s ∧ s.output = .ended ∧
      s.wrote = bytes "\x7b\x7d\r\n" ∧ s.sent = [bytes "\x7b\x7d"] := by
  obtain ⟨s, hrun, hstop, hended, hwrote⟩ :
      ∃ s, runWhere (step plain) Delivers init [.spawn true, .childWrite (bytes "\x7b\x7d\r"),
        .outputTest, .childWrite (bytes "\n"), .childExit 0] = some s ∧ s.stop = false ∧
          s.child.ended = true ∧ s.wrote = bytes "\x7b\x7d\r\n" := ⟨_, rfl, rfl, rfl, rfl⟩
  have hr := Reach.of_runWhere hrun
  obtain ⟨s', hr', hpc, hwrote', hsent⟩ :=
    ((child_records_sent plain).2.1 s hr hstop).2 hended
  refine ⟨s', hr.trans (hr'.mono fun _ _ => Relays.delivers), hpc, hwrote'.trans hwrote, ?_⟩
  rw [hsent, hwrote]
  decide +kernel

end Msys.Bridge
