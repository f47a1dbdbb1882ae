import MsysSdk.Mipc.RoundTrip
import MsysSdk.Text.Decimal

/-! The hello of a component that reads its identity from the environment. The sign is looked for
in the first byte only, and `strtoull` skips white space before it looks for one itself. -/

namespace Msys.Mipc
open Libc

def einval : Nat := 22

def unknownComponent : Bytes := text "unknown"

def sendHelloFromEnv (sys : System) (getenv : String → Option Bytes) (client : Option Client) :
    Option SendReply :=
  let componentId := ((getenv "MSYS_COMPONENT_ID").filter (· ≠ [])).getD unknownComponent
  match (getenv "MSYS_GENERATION").filter (· ≠ []) with
  | none => sendHello sys client (some componentId) 0
  | some generationText =>
    if generationText.head? = some (chr '-') then
      some (setResult client .invalidArgument einval none)
    else
      let (parsed, finish, errno) := strtoull generationText
      if errno ≠ 0 || finish = generationText || finish ≠ [] then
        some (setResult client .invalidArgument einval none)
      else sendHello sys client (some componentId) parsed

/-- The component that a hello from this environment names. -/
def environmentComponent (getenv : String → Option Bytes) : Bytes :=
  ((getenv "MSYS_COMPONENT_ID").filter (· ≠ [])).getD unknownComponent

def Refused (client : Option Client) (reply : Option SendReply) : Prop :=
  reply = some (setResult client .invalidArgument einval none)

/-- The call sends the hello of the component in this generation; if it succeeds, that is the
record on the socket. -/
def SendsHello (sys : System) (client : Option Client) (componentId : Bytes) (generation : UInt64)
    (reply : Option SendReply) : Prop :=
  reply = sendHello sys client (some componentId) generation ∧
    ∀ r, reply = some r → r.result = .ok →
      r.Transmitted (Request.hello componentId generation).fields

/-- What a call may do with a value of MSYS_GENERATION. -/
structure Announces (sys : System) (client : Option Client) (componentId value : Bytes)
    (reply : Option SendReply) : Prop where
  sends : Refused client reply ∨ ∃ (t : IntegerText) (n : UInt64), t.text = value ∧
    t.value = n.toNat ∧ SendsHello sys client componentId n reply
  refuses : ∀ t : IntegerText, t.text = value → (t.value < 0 ∨ ullongMax < t.value) →
    Refused client reply

/-- Every call with this value of MSYS_GENERATION does one or the other. -/
def GenerationKept (value : Bytes) : Prop :=
  ∀ (sys : System) (getenv : String → Option Bytes) (client : Option Client),
    getenv "MSYS_GENERATION" = some value →
    Announces sys client (environmentComponent getenv) value (sendHelloFromEnv sys getenv client)

/-- White space hides a minus sign, and the number would fit without it. -/
def HidesMinus (value : Bytes) : Prop :=
  ∃ t : IntegerText, t.text = value ∧ t.space ≠ [] ∧ t.sign = [chr '-'] ∧
    0 < decimalValue t.digits ∧ decimalValue t.digits ≤ ullongMax

/-! ### The answers -/

variable {sys : System} {getenv : String → Option Bytes} {client : Option Client} {value : Bytes}

theorem sendsHello_self (componentId : Bytes) (n : UInt64) :
    SendsHello sys client componentId n (sendHello sys client (some componentId) n) :=
  ⟨rfl, fun _ h hok => hello_transmitted h hok⟩

/-- The checks of the environment's generation, once there is one. -/
theorem sendHelloFromEnv_eq (hvalue : value ≠ []) (h : getenv "MSYS_GENERATION" = some value) :
    sendHelloFromEnv sys getenv client =
      if value.head? = some (chr '-') ∨ (strtoull value).2.2 ≠ 0 ∨ (strtoull value).2.1 ≠ [] then
        some (setResult client .invalidArgument einval none)
      else sendHello sys client (some (environmentComponent getenv)) (strtoull value).1 := by
  have hfilter : (some value).filter (· ≠ []) = some value := by simp [hvalue]
  unfold sendHelloFromEnv
  rw [h, hfilter]
  dsimp only
  by_cases hminus : value.head? = some (chr '-')
  · rw [if_pos hminus, if_pos (.inl hminus)]
  rw [if_neg hminus]
  by_cases hbad : (strtoull value).2.2 ≠ 0 ∨ (strtoull value).2.1 ≠ []
  · have hany : (decide ((strtoull value).2.2 ≠ 0) || decide ((strtoull value).2.1 = value) ||
        decide ((strtoull value).2.1 ≠ [])) = true := by
      rcases hbad with hbad | hbad <;> simp [hbad]
    rw [if_pos hany, if_pos (Or.inr hbad)]
  · obtain ⟨herrno, hwhole⟩ := not_or.mp hbad
    rw [not_not] at herrno hwhole
    have hmoved : ¬([] : Bytes) = value := hvalue.symm
    rw [if_neg (not_or.mpr ⟨hminus, hbad⟩), if_neg]
    · rfl
    · simp [herrno, hwhole, hmoved]

theorem refused_of_not_integer (hvalue : value ≠ []) (h : getenv "MSYS_GENERATION" = some value)
    (hnone : ¬∃ t : IntegerText, t.text = value) :
    Refused client (sendHelloFromEnv sys getenv client) := by
  rw [Refused, sendHelloFromEnv_eq hvalue h, if_pos]
  exact .inr (.inr fun hwhole => hnone (strtoull_whole hvalue hwhole))

/-- An integer is refused for the sign in its first byte or for its size. -/
theorem sendHelloFromEnv_integer (t : IntegerText) (h : getenv "MSYS_GENERATION" = some t.text) :
    sendHelloFromEnv sys getenv client =
      if t.text.head? = some (chr '-') ∨ decimalValue t.digits > ullongMax then
        some (setResult client .invalidArgument einval none)
      else sendHello sys client (some (environmentComponent getenv)) (.ofInt t.value) := by
  rw [sendHelloFromEnv_eq (t.text_ne) h, t.strtoull_text]
  have herange : erange ≠ 0 := by decide
  by_cases hbig : decimalValue t.digits > ullongMax
  · rw [if_pos hbig, if_pos (.inr (.inl herange)), if_pos (.inr hbig)]
  · rw [if_neg hbig]
    simp [hbig]

/-! ### What is announced -/

theorem toNat_ofInt {z : Int} (h0 : 0 ≤ z) (hmax : z ≤ ullongMax) :
    z = (UInt64.ofInt z).toNat := by
  have hmax' : z < 2 ^ 64 := by
    unfold ullongMax at hmax
    omega
  rw [UInt64.ofInt, UInt64.toNat_ofNat']
  omega

/-- A system on which the call fails at its first conversion. -/
def printless : System := ⟨fun _ => true, fun _ => false, []⟩

theorem not_refused (componentId : Bytes) (hsize : (escapedLength 0 componentId).isSome = true)
    (hlength : componentId.length ≤ maxPacket) (n : UInt64) :
    ¬Refused (some ⟨3, 0⟩) (sendHello printless (some ⟨3, 0⟩) (some componentId) n) := by
  obtain ⟨size, hsize⟩ := Option.isSome_iff_exists.mp hsize
  have hescaped : escapedJsonString (printless.allocates 0) (some componentId) =
      .ok (writeEscaped componentId) := by
    rw [escapedJsonString, if_neg (Nat.not_lt.mpr hlength), hsize]
    rfl
  rw [Refused, sendHello, hescaped]
  intro h
  have hresult := congrArg (Option.map SendReply.result) h
  cases hresult

theorem value_fits {t : IntegerText} (hhidden : ¬HidesMinus t.text)
    (hfirst : ¬t.text.head? = some (chr '-')) (hsmall : ¬decimalValue t.digits > ullongMax) :
    0 ≤ t.value ∧ t.value ≤ ullongMax := by
  have hle : decimalValue t.digits ≤ ullongMax := Nat.le_of_not_lt hsmall
  rw [IntegerText.value]
  split_ifs with hminus
  · have hspace : t.space ≠ [] := fun hspace => hfirst (t.head_minus.mpr ⟨hspace, hminus⟩)
    have hzero : decimalValue t.digits = 0 := by
      by_contra hpos
      exact hhidden ⟨t, rfl, hspace, hminus, Nat.pos_of_ne_zero hpos, hle⟩
    simp [hzero]
  · exact ⟨Int.natCast_nonneg _, Int.ofNat_le.mpr hle⟩

theorem not_kept_of_hidden (h : HidesMinus value) : ¬GenerationKept value := by
  rintro hkept
  obtain ⟨t, rfl, hspace, hminus, hpos, hle⟩ := h
  let getenv : String → Option Bytes :=
    fun name => if name = "MSYS_GENERATION" then some t.text else none
  have hnegative : t.value < 0 := by
    rw [IntegerText.value, if_pos hminus]
    omega
  have hrefused := (hkept printless getenv (some ⟨3, 0⟩) rfl).refuses t rfl (.inl hnegative)
  have hfirst : ¬(t.text.head? = some (chr '-') ∨ decimalValue t.digits > ullongMax) := by
    rw [t.head_minus]
    simp [hspace, hle]
  rw [sendHelloFromEnv_integer t rfl, if_neg hfirst] at hrefused
  exact not_refused unknownComponent (by decide) (by decide) _ hrefused

/-- The generation is the one in the environment unless white space hides its minus sign. -/
theorem generation_kept (hvalue : value ≠ []) : GenerationKept value ↔ ¬HidesMinus value := by
  refine ⟨fun hkept hhidden => not_kept_of_hidden hhidden hkept, ?_⟩
  intro hhidden sys getenv client hgetenv
  by_cases hinteger : ∃ t : IntegerText, t.text = value
  swap
  · have hrefused := @refused_of_not_integer sys getenv client value hvalue hgetenv hinteger
    exact ⟨.inl hrefused, fun _ _ _ => hrefused⟩
  obtain ⟨t, rfl⟩ := hinteger
  have hcall := @sendHelloFromEnv_integer sys getenv client t hgetenv
  by_cases hchecks : t.text.head? = some (chr '-') ∨ decimalValue t.digits > ullongMax
  · rw [if_pos hchecks] at hcall
    exact ⟨.inl hcall, fun _ _ _ => hcall⟩
  rw [if_neg hchecks] at hcall
  obtain ⟨hfirst, hsmall⟩ := not_or.mp hchecks
  obtain ⟨h0, hmax⟩ := value_fits hhidden hfirst hsmall
  refine ⟨.inr ⟨t, .ofInt t.value, rfl, toNat_ofInt h0 hmax, ?_⟩, fun u hu hout => ?_⟩
  · rw [hcall]
    exact sendsHello_self _ _
  · rw [IntegerText.value_unique hu] at hout
    omega

theorem generation_kept_plain : GenerationKept (text "42") := by
  apply (generation_kept (by decide)).mpr
  rintro ⟨t, ht, hspace, -⟩
  obtain ⟨b, bs, hb⟩ := List.exists_cons_of_ne_nil hspace
  have hblank := t.spaces b (by simp [hb])
  rw [IntegerText.text, hb] at ht
  obtain ⟨rfl, -⟩ := List.cons.inj ht
  revert hblank
  decide

/-- The environment in which a blank stands before a negative generation. -/
def blankMinus (name : String) : Option Bytes :=
  if name = "MSYS_GENERATION" then some (text " -5") else none

/-- The record of a hello in the generation 2^64 - 5. -/
def wrappedHello : Bytes :=
  text "\x7b\"type\":\"hello\",\"component\":\"unknown\",\"generation\":18446744073709551611\x7d"

theorem negative_generation_announced :
    (sendHelloFromEnv ⟨fun _ => true, fun _ => true, [.bytes wrappedHello.length]⟩ blankMinus
        (some ⟨3, 0⟩)).map (fun r => (r.result, r.record)) = some (.ok, some wrappedHello) ∧
      ¬GenerationKept (text " -5") := by
  refine ⟨by decide +kernel, not_kept_of_hidden ?_⟩
  exact ⟨⟨text " ", text "-", text "5", by decide +kernel, .inr (.inr rfl), by decide,
    by decide +kernel⟩, rfl, by decide, rfl, by decide, by decide⟩

end Msys.Mipc
