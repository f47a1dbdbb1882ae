import MsysSdk.Python.JsonEncoder

/-! The mIPC records that both clients of the SDK read and write. -/

namespace Msys
open Python

def maxPacket : Nat := 256 * 1024

/-- `m.get(name)`. -/
def field (m : Dict) (name : String) : Value := Dict.get m (str name)

def eof : Dict := [(.str (str "type"), .str (str "eof"))]

/-- The arguments of one `call`. A timeout that is not finite fails in `int()`. -/
structure CallArgs where
  target : Str
  method : Str
  payload : Option Dict
  timeout : Option Rat
  idempotent : Bool

/-- Both clients wait five seconds when no timeout is given. -/
def CallArgs.requestTimeout (a : CallArgs) : Rat := a.timeout.getD 5

def callRecord (id : Int) (a : CallArgs) (deadline : Int) : Dict :=
  [(.str (str "type"), .str (str "call")), (.str (str "id"), .int id),
    (.str (str "target"), .str a.target), (.str (str "method"), .str a.method),
    (.str (str "payload"), .dict (a.payload.getD [])),
    (.str (str "deadline_ms"), .int deadline), (.str (str "idempotent"), .bool a.idempotent)]

/-- The integer id of a return or error record; TypeError when `type` has no hash. -/
def replyId (m : Dict) : Except Str (Option Int) :=
  match (field m "type").inStrings [str "return", str "error"] with
  | .error text => .error text
  | .ok false => .ok none
  | .ok true => .ok (field m "id").asInt

/-- The id of the request that a record answers. -/
def answers (m : Dict) : Option Int := (replyId m).toOption.join

theorem answers_iff {m : Dict} {i : Int} : answers m = some i ↔ replyId m = .ok (some i) := by
  unfold answers
  cases h : replyId m <;> simp [Except.toOption]

theorem answers_of_type {m : Dict} {name : String}
    (h : (field m "type").isKey (str name) = true) (hr : str name ≠ str "return")
    (he : str name ≠ str "error") : answers m = none := by
  have hty := Value.isKey_iff.mp h
  simp [answers, replyId, hty, Value.inStrings, hr, he, Except.toOption]

def hashable : Value → Bool
  | .list _ | .dict _ | .cyclic => false
  | _ => true

theorem replyId_of_hashable {m : Dict} {text : Str} (h : hashable (field m "type") = true) :
    replyId m ≠ .error text := by
  unfold replyId
  cases hv : field m "type" <;> grind [hashable, Value.inStrings]

end Msys
