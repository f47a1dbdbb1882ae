import MsysSdk.Runs.Transition
import Mathlib.Data.List.TakeWhile

/-! One request on a stream connection: the peer writes a welcome line, the client a request line,
and the peer a line that answers it. Both streams come in pieces of any size, and the client
throws away what stands behind the line it has read. -/

namespace Framing
open Transition
variable {α ρ : Type*}

/-- The client. `size` is how much it asks for when it holds so much already, and `verdict` what it
makes of what it holds: a line, a failure, or nothing yet. A welcome line may end the talk, and so
may a connection that breaks. -/
structure Exchange (α ρ : Type*) where
  size : Nat → Nat
  verdict : List α → Option (Except ρ (List α))
  greet : List α → Option ρ
  request : Except ρ (List α)
  conclude : List α → ρ
  breaks : ρ → Bool

structure Peer (α : Type*) where
  newline : α
  welcome : List α
  answer : List α → List α

inductive ClientPc (α ρ : Type*)
  | greeting (held : List α)
  | writing (packet : List α)
  | replying (held : List α)
  | done (r : ρ)

/-- The client, the bytes on their way in both directions, and the peer: what it has still to write,
what it has read, and whether it has answered. -/
structure Talk (α ρ : Type*) where
  client : ClientPc α ρ
  toClient : List α
  toPeer : List α
  pending : List α
  got : List α
  answered : Bool

def Talk.init (P : Peer α) : Talk α ρ := ⟨.greeting [], [], [], P.welcome ++ [P.newline], [], false⟩

/-- One more than the number is how many elements the kernel has at hand, or takes. -/
inductive Move (ρ : Type*)
  | recv (n : Nat)
  | write (n : Nat)
  | lost (r : ρ)
  | peerWrite (n : Nat)
  | peerRead (n : Nat)

/-- The moves that a connection makes without breaking. -/
def Move.keeps : Move ρ → Bool
  | .lost _ => false
  | _ => true

namespace Exchange
variable (E : Exchange α ρ) (P : Peer α)

def greeted : Except ρ (List α) → ClientPc α ρ
  | .error r => .done r
  | .ok line =>
    match E.greet line, E.request with
    | some r, _ => .done r
    | none, .error r => .done r
    | none, .ok packet => .writing packet

/-- The client writes until nothing is left. -/
def wrote : List α → ClientPc α ρ
  | [] => .replying []
  | rest => .writing rest

def concluded : Except ρ (List α) → ClientPc α ρ
  | .error r => .done r
  | .ok line => .done (E.conclude line)

def judged (again : List α → ClientPc α ρ) (ends : Except ρ (List α) → ClientPc α ρ)
    (held : List α) : ClientPc α ρ :=
  match E.verdict held with
  | none => again held
  | some x => ends x

/-- One `recv` of the client, with `held` what it has read of the line. -/
def received (s : Talk α ρ) (n : Nat) (again : List α → ClientPc α ρ)
    (ends : Except ρ (List α) → ClientPc α ρ) (held : List α) : Talk α ρ :=
  let count := min (E.size held.length) (n + 1)
  { s with
    client := E.judged again ends (held ++ s.toClient.take count)
    toClient := s.toClient.drop count }

def step [DecidableEq α] (s : Talk α ρ) : Move ρ → Option (Talk α ρ)
  | .recv n =>
    match s.toClient, s.client with
    | _ :: _, .greeting held => some (E.received s n .greeting E.greeted held)
    | _ :: _, .replying held => some (E.received s n .replying E.concluded held)
    | _, _ => none
  | .write n =>
    match s.client with
    | .writing packet => some { s with
        client := wrote (packet.drop (n + 1))
        toPeer := s.toPeer ++ packet.take (n + 1) }
    | _ => none
  | .lost r =>
    match s.client with
    | .done _ => none
    | _ => if E.breaks r then some { s with client := .done r } else none
  | .peerWrite n =>
    match s.pending with
    | [] => none
    | pending => some { s with
        toClient := s.toClient ++ pending.take (n + 1)
        pending := pending.drop (n + 1) }
  | .peerRead n =>
    match s.toPeer with
    | [] => none
    | toPeer =>
      let got := s.got ++ toPeer.take (n + 1)
      let s := { s with got := got, toPeer := toPeer.drop (n + 1) }
      if s.answered = false ∧ P.newline ∈ got then
        some { s with
          answered := true
          pending := s.pending ++ P.answer (got.takeWhile (· ≠ P.newline)) ++ [P.newline] }
      else some s

/-- Of a line with its newline the client makes `x`, however much of it comes at a time. -/
structure Reads (line : List α) (x : Except ρ (List α)) : Prop where
  first : 0 < E.size 0
  goes : ∀ held chunk rest, chunk ≠ [] → chunk.length ≤ E.size held.length →
    held ++ chunk ++ rest = line ++ [P.newline] → E.verdict (held ++ chunk) = none →
    rest ≠ [] ∧ 0 < E.size (held ++ chunk).length
  ends : ∀ held chunk rest y, chunk ≠ [] → chunk.length ≤ E.size held.length →
    held ++ chunk ++ rest = line ++ [P.newline] → E.verdict (held ++ chunk) = some y →
    y = x ∧ ∀ l, y = .ok l → rest = []

/-- What comes of the talk, from what the client makes of the two lines. -/
def outcome (welcome answer : Except ρ (List α)) : ρ :=
  match welcome with
  | .error r => r
  | .ok line =>
    match E.greet line, E.request, answer with
    | some r, _, _ => r
    | none, .error r, _ => r
    | none, .ok _, .error r => r
    | none, .ok _, .ok line => E.conclude line

/-! ### The invariant -/

variable (welcome answer : Except ρ (List α))

/-- The client goes on behind the welcome line. -/
def Welcomed : Prop := ∃ line, welcome = .ok line ∧ E.greet line = none

/-- What the client holds is the beginning of the line, and the rest is on its way. -/
structure Reading (s : Talk α ρ) (held line : List α) : Prop where
  line : held ++ (s.toClient ++ s.pending) = line ++ [P.newline]
  more : s.toClient ++ s.pending ≠ []
  size : 0 < E.size held.length

/-- The request is on its way, and no other byte; the client has `rest` of it. -/
structure Asking (s : Talk α ρ) (q rest : List α) : Prop where
  request : E.request = .ok (q ++ [P.newline])
  clean : P.newline ∉ q
  sent : s.got ++ s.toPeer ++ rest = q ++ [P.newline]

/-- The peer has got nothing, or from a client that was welcome the beginning of its request. -/
def Begun (s : Talk α ρ) : Prop :=
  s.got ++ s.toPeer ≠ [] →
    E.Welcomed welcome ∧ ∃ packet, E.request = .ok packet ∧ s.got ++ s.toPeer <+: packet

/-- The peer has got nothing, or the request. -/
def Asked (s : Talk α ρ) : Prop :=
  s.got ++ s.toPeer = [] ∨ E.request = .ok (s.got ++ s.toPeer)

/-- A part of the request, or nothing yet, is on its way. -/
structure Writing (s : Talk α ρ) (rest : List α) : Prop where
  welcomed : E.Welcomed welcome
  asking : ∃ q, E.Asking P s q rest
  more : rest ≠ []
  answered : s.answered = false
  toClient : s.toClient = []
  pending : s.pending = []

/-- The client waits for the answer; the peer writes it once it has read the whole request. -/
structure Replying (s : Talk α ρ) (held : List α) : Prop where
  welcomed : E.Welcomed welcome
  asking : ∃ q, E.Asking P s q [] ∧
    (s.answered = false ∧ held = [] ∧ s.toClient = [] ∧ s.pending = [] ∧ P.newline ∉ s.got ∧
        0 < E.size 0 ∨
      s.answered = true ∧ E.Reading P s held (P.answer q))

def Inv (s : Talk α ρ) : Prop :=
  match s.client with
  | .greeting held =>
    s.got = [] ∧ s.toPeer = [] ∧ s.answered = false ∧ E.Reading P s held P.welcome
  | .writing rest => E.Writing P welcome s rest
  | .replying held => E.Replying P welcome s held
  | .done r =>
    (E.breaks r = true ∨ r = E.outcome welcome answer ∧ E.Asked s) ∧ E.Begun welcome s

variable {E P welcome answer} {s : Talk α ρ}

theorem init_inv (hw : E.Reads P P.welcome welcome) : E.Inv P welcome answer (.init P) :=
  ⟨rfl, rfl, rfl, rfl, by simp [Talk.init], hw.first⟩

/-- A `recv` takes at least one element of what is there, and no more than was asked for. -/
theorem Reading.take {held line : List α} (h : E.Reading P s held line) (hne : s.toClient ≠ [])
    (n : Nat) :
    s.toClient.take (min (E.size held.length) (n + 1)) ≠ [] ∧
      (s.toClient.take (min (E.size held.length) (n + 1))).length ≤ E.size held.length ∧
      held ++ s.toClient.take (min (E.size held.length) (n + 1)) ++
        (s.toClient.drop (min (E.size held.length) (n + 1)) ++ s.pending) = line ++ [P.newline] := by
  have hsize := h.size
  refine ⟨fun hnil => ?_, ?_, ?_⟩
  · rcases List.take_eq_nil_iff.mp hnil with hzero | hempty
    · omega
    · exact hne hempty
  · rw [List.length_take]
    omega
  · rw [List.append_assoc, ← List.append_assoc (s.toClient.take _), List.take_append_drop]
    exact h.line

/-- The client has read the line or found it amiss, or reads on. -/
theorem Reading.received {held line : List α} {x : Except ρ (List α)}
    (h : E.Reading P s held line) (hreads : E.Reads P line x) (hne : s.toClient ≠ []) (n : Nat)
    (again : List α → ClientPc α ρ) (ends : Except ρ (List α) → ClientPc α ρ) :
    (∃ held', (E.received s n again ends held).client = again held' ∧
        E.Reading P (E.received s n again ends held) held' line) ∨
      (E.received s n again ends held).client = ends x ∧
        ∀ l, x = .ok l → (E.received s n again ends held).toClient = [] ∧ s.pending = [] := by
  obtain ⟨hchunk, hlen, hsplit⟩ := h.take hne n
  cases hv : E.verdict (held ++ s.toClient.take (min (E.size held.length) (n + 1))) with
  | none =>
    obtain ⟨hmore, hsize⟩ := hreads.goes _ _ _ hchunk hlen hsplit hv
    exact .inl ⟨_, by simp [Exchange.received, judged, hv], hsplit, hmore, hsize⟩
  | some y =>
    obtain ⟨rfl, hrest⟩ := hreads.ends _ _ _ y hchunk hlen hsplit hv
    refine .inr ⟨by simp [Exchange.received, judged, hv], fun l hl => ?_⟩
    exact List.append_eq_nil_iff.mp (hrest l hl)

/-- The peer writes some of what it has to write. -/
theorem Reading.peerWrite {held line : List α} (h : E.Reading P s held line) (n : Nat) :
    E.Reading P { s with
      toClient := s.toClient ++ s.pending.take (n + 1)
      pending := s.pending.drop (n + 1) } held line := by
  have hall : s.toClient ++ s.pending.take (n + 1) ++ s.pending.drop (n + 1) =
      s.toClient ++ s.pending := by rw [List.append_assoc, List.take_append_drop]
  exact ⟨by rw [← h.line, ← hall], by rw [hall]; exact h.more, h.size⟩

/-- What a request needs: it is one line, and of the answer to it the client makes `answer`. -/
def Requests (E : Exchange α ρ) (P : Peer α) (answer : Except ρ (List α)) : Prop :=
  ∀ packet, E.request = .ok packet →
    ∃ q, packet = q ++ [P.newline] ∧ P.newline ∉ q ∧ E.Reads P (P.answer q) answer

/-- The client is through with the welcome line. -/
theorem greeted_inv {s : Talk α ρ} (hq : E.Requests P answer)
    (hclient : s.client = E.greeted welcome) (hgot : s.got = []) (htoPeer : s.toPeer = [])
    (hanswered : s.answered = false)
    (hrest : ∀ l, welcome = .ok l → s.toClient = [] ∧ s.pending = []) :
    E.Inv P welcome answer s := by
  have hnothing : s.got ++ s.toPeer = [] := by rw [hgot, htoPeer, List.append_nil]
  have hbegun : E.Begun welcome s := fun h => absurd hnothing h
  rw [Inv, hclient]
  cases hw : welcome with
  | error r => exact ⟨.inr ⟨rfl, .inl hnothing⟩, hw ▸ hbegun⟩
  | ok line =>
    subst hw
    cases hgreet : E.greet line with
    | some r =>
      simp only [greeted, hgreet]
      exact ⟨.inr ⟨by simp [outcome, hgreet], .inl hnothing⟩, hbegun⟩
    | none =>
      cases hrequest : E.request with
      | error r =>
        simp only [greeted, hgreet, hrequest]
        exact ⟨.inr ⟨by simp [outcome, hgreet, hrequest], .inl hnothing⟩, hbegun⟩
      | ok packet =>
        simp only [greeted, hgreet, hrequest]
        obtain ⟨htoClient, hpending⟩ := hrest line rfl
        obtain ⟨q, rfl, hclean, -⟩ := hq packet hrequest
        have hsent : s.got ++ s.toPeer ++ (q ++ [P.newline]) = q ++ [P.newline] := by
          rw [hnothing, List.nil_append]
        exact ⟨⟨line, rfl, hgreet⟩, ⟨q, hrequest, hclean, hsent⟩, by simp, hanswered, htoClient,
          hpending⟩

/-- What the client has sent is the beginning of its request. -/
theorem Asking.begun {q rest : List α} (h : E.Asking P s q rest) (hwelcomed : E.Welcomed welcome) :
    E.Begun welcome s :=
  fun _ => ⟨hwelcomed, _, h.request, rest, h.sent⟩

/-- It has sent the request once it has nothing left of it. -/
theorem Asking.whole {q : List α} (h : E.Asking P s q []) :
    E.request = .ok (s.got ++ s.toPeer) := by
  have hsent := h.sent
  rw [List.append_nil] at hsent
  rw [hsent, h.request]

/-- The client is through with the answer. -/
theorem concluded_inv {s : Talk α ρ} {q : List α} (hclient : s.client = E.concluded answer)
    (hwelcomed : E.Welcomed welcome) (hasking : E.Asking P s q []) :
    E.Inv P welcome answer s := by
  have hbegun := hasking.begun hwelcomed
  obtain ⟨line, rfl, hgreet⟩ := hwelcomed
  rw [Inv, hclient]
  cases answer with
  | error r => exact ⟨.inr ⟨by simp [outcome, hgreet, hasking.request], .inr hasking.whole⟩, hbegun⟩
  | ok l => exact ⟨.inr ⟨by simp [outcome, hgreet, hasking.request], .inr hasking.whole⟩, hbegun⟩

theorem Inv.begun (hi : E.Inv P welcome answer s) : E.Begun welcome s := by
  cases hclient : s.client with
  | greeting held =>
    rw [Inv, hclient] at hi
    exact fun h => absurd (by rw [hi.1, hi.2.1]; rfl) h
  | writing rest =>
    rw [Inv, hclient] at hi
    obtain ⟨q, hasking⟩ := hi.asking
    exact hasking.begun hi.welcomed
  | replying held =>
    rw [Inv, hclient] at hi
    obtain ⟨hwelcomed, q, hasking, -⟩ := hi
    exact hasking.begun hwelcomed
  | done r =>
    rw [Inv, hclient] at hi
    exact hi.2

/-- A client that waits for the answer has written its request. -/
theorem Inv.whole (hi : E.Inv P welcome answer s) {held : List α}
    (hclient : s.client = .replying held) : E.request = .ok (s.got ++ s.toPeer) := by
  rw [Inv, hclient] at hi
  obtain ⟨-, q, hasking, -⟩ := hi
  exact hasking.whole

section
variable [DecidableEq α] {s' : Talk α ρ}

theorem whole_line {got rest q : List α} {nl : α} (h : got ++ rest = q ++ [nl]) (hq : nl ∉ q)
    (hmem : nl ∈ got) : got = q ++ [nl] ∧ rest = [] ∧ got.takeWhile (· ≠ nl) = q := by
  have hrest : rest = [] := by
    rcases List.eq_nil_or_concat rest with rfl | ⟨front, b, rfl⟩
    · rfl
    · rw [List.concat_eq_append, ← List.append_assoc] at h
      obtain ⟨hfront, -⟩ := List.append_inj' h rfl
      exact absurd (hfront ▸ List.mem_append_left _ hmem) hq
  subst hrest
  rw [List.append_nil] at h
  refine ⟨h, rfl, ?_⟩
  rw [h, List.takeWhile_append_of_pos fun b hb => decide_eq_true (ne_of_mem_of_not_mem hb hq),
    List.takeWhile_cons_of_neg (by simp), List.append_nil]

/-- The newline is the last that the client writes. -/
theorem Asking.unread {q rest : List α} (h : E.Asking P s q rest) (hmore : rest ≠ []) :
    P.newline ∉ s.got := by
  intro hmem
  obtain ⟨-, hnil, -⟩ := whole_line ((List.append_assoc ..).symm.trans h.sent) h.clean hmem
  exact hmore (List.append_eq_nil_iff.mp hnil).2

theorem recv_inv (hi : E.Inv P welcome answer s) (hw : E.Reads P P.welcome welcome)
    (hq : E.Requests P answer) {n : Nat} (h : E.step P s (.recv n) = some s') :
    E.Inv P welcome answer s' := by
  simp only [step] at h
  split at h
  next b rest held hne hclient =>
    obtain rfl := Option.some.inj h
    rw [Inv, hclient] at hi
    obtain ⟨hgot, htoPeer, hanswered, hreading⟩ := hi
    rcases hreading.received hw (by simp [hne]) n .greeting E.greeted with
      ⟨held', hagain, hreading'⟩ | ⟨hends, hrest⟩
    · rw [Inv, hagain]
      exact ⟨hgot, htoPeer, hanswered, hreading'⟩
    · exact greeted_inv hq hends hgot htoPeer hanswered hrest
  next b rest held hne hclient =>
    obtain rfl := Option.some.inj h
    rw [Inv, hclient] at hi
    obtain ⟨hwelcomed, q, hasking, ⟨-, -, hempty, -⟩ | ⟨hanswered, hreading⟩⟩ := hi
    · rw [hempty] at hne
      cases hne
    obtain ⟨q', hpacket, hclean, hreads⟩ := hq _ hasking.request
    obtain rfl : q = q' := (List.append_inj' hpacket rfl).1
    rcases hreading.received hreads (by simp [hne]) n .replying E.concluded with
      ⟨held', hagain, hreading'⟩ | ⟨hends, -⟩
    · rw [Inv, hagain]
      exact ⟨hwelcomed, q, ⟨hasking.request, hclean, hasking.sent⟩, .inr ⟨hanswered, hreading'⟩⟩
    · exact concluded_inv hends hwelcomed ⟨hasking.request, hclean, hasking.sent⟩
  next => cases h

/-- The peer reads, and has the whole request once there is a newline in what it has. -/
theorem peerRead_inv (hi : E.Inv P welcome answer s) {n : Nat}
    (h : E.step P s (.peerRead n) = some s') : E.Inv P welcome answer s' := by
  simp only [step] at h
  split at h
  next => cases h
  next hne =>
    have hsame : s.got ++ s.toPeer.take (n + 1) ++ s.toPeer.drop (n + 1) = s.got ++ s.toPeer := by
      rw [List.append_assoc, List.take_append_drop]
    cases hclient : s.client with
    | greeting held =>
      rw [Inv, hclient] at hi
      exact absurd hi.2.1 hne
    | writing rest =>
      rw [Inv, hclient] at hi
      obtain ⟨hwelcomed, ⟨q, hasking⟩, hmore, hanswered, htoClient, hpending⟩ := hi
      have hsent := hasking.sent
      rw [← hsame] at hsent
      have hread : E.Asking P { s with
          got := s.got ++ s.toPeer.take (n + 1)
          toPeer := s.toPeer.drop (n + 1) } q rest := ⟨hasking.request, hasking.clean, hsent⟩
      rw [if_neg fun hmem => hread.unread hmore hmem.2] at h
      obtain rfl := Option.some.inj h
      rw [Inv, hclient]
      exact ⟨hwelcomed, ⟨q, hread.request, hread.clean, hsent⟩, hmore, hanswered, htoClient,
        hpending⟩
    | done r =>
      rw [Inv, hclient] at hi
      rw [Begun, Asked, ← hsame] at hi
      split_ifs at h
      all_goals
        obtain rfl := Option.some.inj h
        rw [Inv, hclient]
        exact hi
    | replying held =>
      rw [Inv, hclient] at hi
      obtain ⟨hwelcomed, q, hasking, hcase⟩ := hi
      have hsent := hasking.sent
      rw [← hsame] at hsent
      split_ifs at h with hread
      · obtain ⟨hanswered, hmem⟩ := hread
        obtain rfl := Option.some.inj h
        rw [Inv, hclient]
        rcases hcase with ⟨-, rfl, htoClient, hpending, -, hsize⟩ | ⟨hdone, -⟩
        · obtain ⟨-, -, hline⟩ :=
            whole_line ((List.append_assoc ..).symm.trans hsent) hasking.clean hmem
          refine ⟨hwelcomed, q, ⟨hasking.request, hasking.clean, hsent⟩, .inr ⟨rfl, ?_, ?_, hsize⟩⟩
          · simp only [hline, htoClient, hpending, List.nil_append]
          · simp
        · simp [hanswered] at hdone
      · obtain rfl := Option.some.inj h
        rw [Inv, hclient]
        refine ⟨hwelcomed, q, ⟨hasking.request, hasking.clean, hsent⟩, hcase.imp ?_ ?_⟩
        · rintro ⟨hanswered, hheld, htoClient, hpending, -, hsize⟩
          exact ⟨hanswered, hheld, htoClient, hpending, fun hmem => hread ⟨hanswered, hmem⟩, hsize⟩
        · rintro ⟨hanswered, hreading⟩
          exact ⟨hanswered, hreading.line, hreading.more, hreading.size⟩

theorem peerWrite_inv (hi : E.Inv P welcome answer s) {n : Nat}
    (h : E.step P s (.peerWrite n) = some s') : E.Inv P welcome answer s' := by
  simp only [step] at h
  split at h
  next => cases h
  next hne =>
    obtain rfl := Option.some.inj h
    cases hclient : s.client with
    | greeting held =>
      rw [Inv, hclient] at hi
      rw [Inv]
      obtain ⟨hgot, htoPeer, hanswered, hreading⟩ := hi
      exact ⟨hgot, htoPeer, hanswered, hclient ▸ hreading.peerWrite n⟩
    | writing rest =>
      rw [Inv, hclient] at hi
      exact absurd hi.pending hne
    | done r =>
      rw [Inv, hclient] at hi
      rw [Inv]
      exact hi
    | replying held =>
      rw [Inv, hclient] at hi
      rw [Inv]
      obtain ⟨hwelcomed, q, hasking, ⟨-, -, -, hpending, -⟩ | ⟨hanswered, hreading⟩⟩ := hi
      · exact absurd hpending hne
      · exact ⟨hwelcomed, q, ⟨hasking.request, hasking.clean, hasking.sent⟩,
          .inr ⟨hanswered, hclient ▸ hreading.peerWrite n⟩⟩

/-- The client writes some of its request, and then what is left, or waits for the answer. -/
theorem write_inv (hi : E.Inv P welcome answer s) (hq : E.Requests P answer) {n : Nat}
    (h : E.step P s (.write n) = some s') : E.Inv P welcome answer s' := by
  simp only [step] at h
  split at h
  next packet hclient =>
    obtain rfl := Option.some.inj h
    rw [Inv, hclient] at hi
    obtain ⟨hwelcomed, ⟨q, hasking⟩, hmore, hanswered, htoClient, hpending⟩ := hi
    have hsent : s.got ++ (s.toPeer ++ packet.take (n + 1)) ++ packet.drop (n + 1) =
        q ++ [P.newline] := by
      rw [← hasking.sent]
      simp only [List.append_assoc, List.take_append_drop]
    cases hrest : packet.drop (n + 1) with
    | nil =>
      rw [hrest] at hsent
      obtain ⟨q', hpacket, -, hreads⟩ := hq _ hasking.request
      exact ⟨hwelcomed, q, ⟨hasking.request, hasking.clean, hsent⟩,
        .inl ⟨hanswered, rfl, htoClient, hpending, hasking.unread hmore, hreads.first⟩⟩
    | cons b rest =>
      rw [hrest] at hsent
      exact ⟨hwelcomed, ⟨q, hasking.request, hasking.clean, hsent⟩, List.cons_ne_nil b rest,
        hanswered, htoClient, hpending⟩
  next => cases h

theorem lost_inv (hi : E.Inv P welcome answer s) {r : ρ} (h : E.step P s (.lost r) = some s') :
    E.Inv P welcome answer s' := by
  simp only [step] at h
  split at h
  next => cases h
  next =>
    split_ifs at h with hbreaks
    obtain rfl := Option.some.inj h
    exact ⟨.inl hbreaks, hi.begun⟩

theorem step_inv {m : Move ρ} (hi : E.Inv P welcome answer s) (hw : E.Reads P P.welcome welcome)
    (hq : E.Requests P answer) (h : E.step P s m = some s') : E.Inv P welcome answer s' := by
  cases m with
  | recv n => exact recv_inv hi hw hq h
  | write n => exact write_inv hi hq h
  | lost r => exact lost_inv hi h
  | peerWrite n => exact peerWrite_inv hi h
  | peerRead n => exact peerRead_inv hi h

theorem reach_inv (hw : E.Reads P P.welcome welcome) (hq : E.Requests P answer)
    (h : Reach (E.step P) Any (.init P) s) : E.Inv P welcome answer s :=
  h.invariant (init_inv hw) fun _ _ _ hi _ hs => step_inv hi hw hq hs

/-! ### What comes of a talk -/

theorem Reading.goes {held line : List α} (h : E.Reading P s held line)
    (hclient : s.client = .greeting held ∨ s.client = .replying held) :
    ∃ m, m.keeps = true ∧ (E.step P s m).isSome = true := by
  cases htoClient : s.toClient with
  | cons b rest =>
    refine ⟨.recv 0, rfl, ?_⟩
    rcases hclient with hclient | hclient <;> simp [step, htoClient, hclient]
  | nil =>
    have hmore := h.more
    rw [htoClient, List.nil_append] at hmore
    obtain ⟨b, rest, hpending⟩ := List.exists_cons_of_ne_nil hmore
    exact ⟨.peerWrite 0, rfl, by simp [step, hpending]⟩

/-- A talk that is not over can go on. -/
theorem Inv.goes (hi : E.Inv P welcome answer s) (hopen : ∀ r, s.client ≠ .done r) :
    ∃ m, m.keeps = true ∧ (E.step P s m).isSome = true := by
  cases hclient : s.client with
  | done r => exact absurd hclient (hopen r)
  | writing rest => exact ⟨.write 0, rfl, by simp [step, hclient]⟩
  | greeting held =>
    rw [Inv, hclient] at hi
    exact hi.2.2.2.goes (.inl hclient)
  | replying held =>
    rw [Inv, hclient] at hi
    obtain ⟨-, q, hasking, ⟨-, -, -, -, hnone, -⟩ | ⟨-, hreading⟩⟩ := hi
    · -- the peer has still to read the newline
      cases htoPeer : s.toPeer with
      | nil =>
        have hsent := hasking.sent
        rw [htoPeer, List.append_nil, List.append_nil] at hsent
        exact absurd (hsent ▸ List.mem_append_right _ (List.mem_singleton_self _)) hnone
      | cons b rest =>
        refine ⟨.peerRead 0, rfl, ?_⟩
        simp only [step, htoPeer]
        split_ifs <;> rfl
    · exact hreading.goes (.inr hclient)

end

end Exchange

end Framing
