import MsysSdk.Python.Unicode

/-! The Python values that reach or leave the json module. -/

namespace Python

/-- A Python float. A finite one is named by its `repr`, which determines it. -/
inductive Float64
  | finite (repr : Str)
  | infinity (negative : Bool)
  | nan
deriving DecidableEq

/-- `cyclic` is a reference back to a container that encloses it; `object` is any value the
json encoder does not know, named by its type. -/
inductive Value
  | none
  | bool (b : Bool)
  | int (i : Int)
  | float (f : Float64)
  | str (s : Str)
  | list (xs : List Value)
  | dict (entries : List (Value × Value))
  | cyclic
  | object (typeName : String)

mutual
def Value.beq : Value → Value → Bool
  | .none, .none | .cyclic, .cyclic => true
  | .bool a, .bool b => a = b
  | .int a, .int b => a = b
  | .float a, .float b => a = b
  | .str a, .str b => a = b
  | .object a, .object b => a = b
  | .list a, .list b => beqItems a b
  | .dict a, .dict b => beqEntries a b
  | _, _ => false

def beqItems : List Value → List Value → Bool
  | [], [] => true
  | a :: as, b :: bs => a.beq b && beqItems as bs
  | _, _ => false

def beqEntries : List (Value × Value) → List (Value × Value) → Bool
  | [], [] => true
  | (k, v) :: as, (l, w) :: bs => k.beq l && v.beq w && beqEntries as bs
  | _, _ => false
end

mutual
theorem Value.eq_of_beq : ∀ {a b : Value}, a.beq b = true → a = b
  | .list a, b, h => by
    cases b with
    | list b => exact congrArg _ (eq_of_beqItems h)
    | _ => simp [Value.beq] at h
  | .dict a, b, h => by
    cases b with
    | dict b => exact congrArg _ (eq_of_beqEntries h)
    | _ => simp [Value.beq] at h
  | .none, b, h | .cyclic, b, h | .bool _, b, h | .int _, b, h | .float _, b, h | .str _, b, h
  | .object _, b, h => by cases b <;> simp_all [Value.beq]

theorem eq_of_beqItems : ∀ {a b : List Value}, beqItems a b = true → a = b
  | [], b, h => by cases b <;> simp_all [beqItems]
  | a :: as, b, h => by
    cases b with
    | nil => simp [beqItems] at h
    | cons b bs =>
      simp only [beqItems, Bool.and_eq_true] at h
      rw [Value.eq_of_beq h.1, eq_of_beqItems h.2]

theorem eq_of_beqEntries : ∀ {a b : List (Value × Value)}, beqEntries a b = true → a = b
  | [], b, h => by cases b <;> simp_all [beqEntries]
  | (k, v) :: as, b, h => by
    cases b with
    | nil => simp [beqEntries] at h
    | cons e bs =>
      simp only [beqEntries, Bool.and_eq_true] at h
      rw [Value.eq_of_beq h.1.1, Value.eq_of_beq h.1.2, eq_of_beqEntries h.2]
end

mutual
theorem Value.beq_self : ∀ a : Value, a.beq a = true
  | .list a => beqItems_self a
  | .dict a => beqEntries_self a
  | .none | .cyclic | .bool _ | .int _ | .float _ | .str _ | .object _ => by simp [Value.beq]

theorem beqItems_self : ∀ a : List Value, beqItems a a = true
  | [] => rfl
  | a :: as => by simp [beqItems, Value.beq_self a, beqItems_self as]

theorem beqEntries_self : ∀ a : List (Value × Value), beqEntries a a = true
  | [] => rfl
  | (k, v) :: as => by simp [beqEntries, Value.beq_self k, Value.beq_self v, beqEntries_self as]
end

instance : DecidableEq Value := fun a b =>
  decidable_of_iff (a.beq b = true) ⟨Value.eq_of_beq, fun h => h ▸ Value.beq_self a⟩

abbrev Dict := List (Value × Value)

mutual
/-- No mapping in it has a key twice. -/
def Value.distinct : Value → Bool
  | .list xs => distinctItems xs
  | .dict d => decide (d.map Prod.fst).Nodup && distinctEntries d
  | _ => true

def distinctItems : List Value → Bool
  | [] => true
  | x :: xs => x.distinct && distinctItems xs

def distinctEntries : List (Value × Value) → Bool
  | [] => true
  | (_, v) :: d => v.distinct && distinctEntries d
end

theorem distinctEntries_iff {d : Dict} :
    distinctEntries d = true ↔ ∀ e ∈ d, e.2.distinct = true := by
  induction d with
  | nil => simp [distinctEntries]
  | cons e d ih =>
    obtain ⟨k, v⟩ := e
    rw [distinctEntries, Bool.and_eq_true, ih, List.forall_mem_cons]

namespace Value

/-- `==` against a string key: no other kind of key equals a string. -/
def isKey (k : Str) : Value → Bool
  | .str s => s = k
  | _ => false

/-- Membership in a set of string literals; a list or a dict has no hash, which is a TypeError. -/
def inStrings (names : List Str) : Value → Except Str Bool
  | .str s => .ok (names.contains s)
  | .list _ => .error (Python.str "unhashable type: 'list'")
  | .dict _ | .cyclic => .error (Python.str "unhashable type: 'dict'")
  | _ => .ok false

/-- `isinstance(v, int) and not isinstance(v, bool)`. -/
def asInt : Value → Option Int
  | .int i => some i
  | _ => Option.none

/-- `bool(v)`. -/
def truthy : Value → Bool
  | .none => false
  | .bool b => b
  | .int i => i ≠ 0
  | .float (.finite r) => r ≠ Python.str "0.0" && r ≠ Python.str "-0.0"
  | .str s => s ≠ []
  | .list xs => !xs.isEmpty
  | .dict d => !d.isEmpty
  | _ => true

end Value

/-- `d.get(k)` for a string key. -/
def Dict.get (d : Dict) (k : Str) : Value :=
  match d.find? fun e => e.1.isKey k with
  | some e => e.2
  | none => .none

/-- `d[k] = v` for a string key: a key already there keeps its place. -/
def Dict.set : Dict → Str → Value → Dict
  | [], k, v => [(.str k, v)]
  | e :: d, k, v => if e.1.isKey k then (e.1, v) :: d else e :: Dict.set d k v

theorem Dict.get_set (d : Dict) (k : Str) (v : Value) : (d.set k v).get k = v := by
  induction d with
  | nil => simp [Dict.set, Dict.get, Value.isKey]
  | cons e d ih =>
    unfold Dict.set
    split_ifs with h
    · simp [Dict.get, h]
    · simpa [Dict.get, h] using ih

theorem Value.isKey_iff {k : Str} {v : Value} : v.isKey k = true ↔ v = .str k := by
  cases v <;> simp [Value.isKey]

theorem Dict.get_set_of_ne (d : Dict) {k k' : Str} (v : Value) (h : k ≠ k') :
    (d.set k v).get k' = d.get k' := by
  induction d with
  | nil => simp [Dict.set, Dict.get, Value.isKey, h]
  | cons e d ih =>
    unfold Dict.set
    split_ifs with hk
    · rw [Value.isKey_iff] at hk
      simp [Dict.get, hk, Value.isKey, h]
    · by_cases hk' : e.1.isKey k'
      · simp [Dict.get, hk']
      · simpa [Dict.get, hk'] using ih

end Python
