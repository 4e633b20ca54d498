import WsSignalServer.Json.Number

/-!
# `Json::Value`

The value type of the JSON library and the operations the server applies to client-chosen
members: `isMember`, the non-const `operator[]`, `asString` and `asInt`.

* An object is a map ordered by key, kept as the list of its entries in order
  (`ObjectValues`); an array holds indices `0 … n-1`, so it is a list.
* `operator[]` on a missing key inserts a null member and refers to it. `resolveReference`
  therefore returns two values: the one accessed, as it is afterwards, and the member.
* The conversions are partial. `asString_isOk` and `asInt_isOk` say that they return exactly
  on the values `isConvertibleTo` accepts.

Comments and source offsets, which `operator==` ignores, are not kept.
-/

namespace WsSignalServer.Json

/-- `Json::Exception`, by its two subclasses. -/
inductive Exception where
  | runtimeError (msg : String)
  | logicError (msg : String)
  deriving DecidableEq, Repr

inductive Value where
  | null
  | int (n : ℤ)
  | uint (n : ℕ)
  | real (d : Double)
  | string (s : Str)
  | boolean (b : Bool)
  | array (vs : List Value)
  | object (ms : List (Str × Value))
  deriving Repr

/-- `Value::ObjectValues`, in key order. -/
abbrev ObjectValues := List (Str × Value)

/-! ## Equality -/

mutual

/-- `Value::operator==`. -/
def Value.beq : Value → Value → Bool
  | .null, .null => true
  | .int a, .int b => a == b
  | .uint a, .uint b => a == b
  | .real a, .real b => a == b
  | .string a, .string b => a == b
  | .boolean a, .boolean b => a == b
  | .array as, .array bs => Value.beqArray as bs
  | .object as, .object bs => Value.beqObject as bs
  | _, _ => false

def Value.beqArray : List Value → List Value → Bool
  | [], [] => true
  | a :: as, b :: bs => Value.beq a b && Value.beqArray as bs
  | _, _ => false

def Value.beqObject : List (Str × Value) → List (Str × Value) → Bool
  | [], [] => true
  | (j, a) :: as, (k, b) :: bs => j == k && Value.beq a b && Value.beqObject as bs
  | _, _ => false

end

mutual

theorem Value.beq_iff : ∀ a b : Value, a.beq b = true ↔ a = b
  | .array as, b => by cases b <;> simp [Value.beq, Value.beqArray_iff as]
  | .object as, b => by cases b <;> simp [Value.beq, Value.beqObject_iff as]
  | .null, b | .int _, b | .uint _, b | .real _, b | .string _, b | .boolean _, b => by
    cases b <;> simp [Value.beq]

theorem Value.beqArray_iff : ∀ as bs : List Value, Value.beqArray as bs = true ↔ as = bs
  | [], bs => by cases bs <;> simp [Value.beqArray]
  | a :: as, bs => by
    cases bs <;> simp [Value.beqArray, Value.beq_iff a, Value.beqArray_iff as]

theorem Value.beqObject_iff :
    ∀ as bs : List (Str × Value), Value.beqObject as bs = true ↔ as = bs
  | [], bs => by cases bs <;> simp [Value.beqObject]
  | (k, a) :: as, bs => by
    cases bs <;>
      simp [Value.beqObject, Value.beq_iff a, Value.beqObject_iff as, Prod.ext_iff]

end

instance : DecidableEq Value := fun a b => decidable_of_iff _ (Value.beq_iff a b)

/-! ## Object members -/

/-- A key as `CZString` stores it, its length cut to 30 bits. -/
def cZString (key : Str) : Str := key.take (key.length % 2 ^ 30)

theorem cZString_eq {key : Str} (h : key.length < 2 ^ 30) : cZString key = key := by
  rw [cZString, Nat.mod_eq_of_lt h, List.take_length]

/-- `CZString::operator<`: `memcmp` on the common prefix, then the lengths. -/
def keyLess : Str → Str → Bool
  | _, [] => false
  | [], _ :: _ => true
  | a :: as, b :: bs => if a < b then true else if b < a then false else keyLess as bs

namespace ObjectValues

/-- Assign a member, at its place in the key order. -/
def put (key : Str) (v : Value) : ObjectValues → ObjectValues
  | [] => [(key, v)]
  | (k, w) :: ms =>
    if k = key then (key, v) :: ms
    else if keyLess key k then (key, v) :: (k, w) :: ms
    else (k, w) :: put key v ms

/-- Several assignments in turn. -/
def putAll (ms : ObjectValues) (entries : List (Str × Value)) : ObjectValues :=
  entries.foldl (fun ms e => put e.1 e.2 ms) ms

/-- What `operator[]` leaves behind: a missing member is inserted as null. -/
def touch (key : Str) (ms : ObjectValues) : ObjectValues :=
  if (ms.lookup key).isSome then ms else put key .null ms

theorem lookup_put (key key' : Str) (v : Value) (ms : ObjectValues) :
    (put key v ms).lookup key' = if key' = key then some v else ms.lookup key' := by
  induction ms with
  | nil =>
    by_cases h : key' = key
    · rw [if_pos h, h, put, List.lookup_cons_self]
    · rw [if_neg h, put, List.lookup_cons, beq_false_of_ne h]
  | cons m ms ih =>
    obtain ⟨k, w⟩ := m
    unfold put
    split_ifs with hk <;> simp only [List.lookup_cons, *] <;> grind

/-- Accessing a member changes no lookup that succeeds, and answers null for the rest. -/
theorem lookup_touch (key key' : Str) (ms : ObjectValues) :
    (touch key ms).lookup key' =
      if key' = key then some ((ms.lookup key).getD .null) else ms.lookup key' := by
  unfold touch
  split_ifs with hsome hk hk
  · obtain ⟨v, hv⟩ := Option.isSome_iff_exists.1 hsome
    rw [hk, hv, Option.getD_some]
  · rfl
  · rw [lookup_put, if_pos hk, Option.not_isSome_iff_eq_none.1 hsome, Option.getD_none]
  · rw [lookup_put, if_neg hk]

theorem touch_eq_self {key : Str} {ms : ObjectValues} :
    touch key ms = ms ↔ (ms.lookup key).isSome := by
  constructor
  · intro h
    rw [← h, lookup_touch, if_pos rfl]
    rfl
  · intro h
    rw [touch, if_pos h]

end ObjectValues

namespace Value

/-! ## Access -/

def find : Value → Str → Except Exception (Option Value)
  | .null, _ => .ok none
  | .object ms, key => .ok (ms.lookup (cZString key))
  | _, _ => .error (.logicError
      "in Json::Value::find(begin, end): requires objectValue or nullValue")

def isMember (v : Value) (key : Str) : Except Exception Bool := (v.find key).map Option.isSome

/-- The non-const `operator[]`: the value accessed, as it is afterwards, and the member. -/
def resolveReference : Value → Str → Except Exception (Value × Value)
  | .null, key => .ok (.object (ObjectValues.touch (cZString key) []), .null)
  | .object ms, key =>
    .ok (.object (ObjectValues.touch (cZString key) ms), (ms.lookup (cZString key)).getD .null)
  | _, _ => .error (.logicError
      "in Json::Value::resolveReference(key, end): requires objectValue")

theorem isMember_object (key : Str) (h : key.length < 2 ^ 30) (ms : ObjectValues) :
    (object ms).isMember key = .ok (ms.lookup key).isSome := by
  rw [isMember, find, cZString_eq h]
  rfl

theorem resolveReference_object (key : Str) (h : key.length < 2 ^ 30) (ms : ObjectValues) :
    (object ms).resolveReference key =
      .ok (.object (ObjectValues.touch key ms), (ms.lookup key).getD .null) := by
  rw [resolveReference, cZString_eq h]

/-! ## Conversions -/

def asString : Value → Except Exception Str
  | .null => .ok []
  | .string s => .ok s
  | .boolean b => .ok (if b then "true".toList else "false".toList)
  | .int n => .ok (intToString n)
  | .uint n => .ok (uintToString n)
  | .real d => .ok (realToString d)
  | .array _ | .object _ => .error (.logicError "Type is not convertible to string")

def isInt : Value → Bool
  | .int n => minInt ≤ n && n ≤ maxInt
  | .uint n => (n : ℤ) ≤ maxInt
  | .real d => d.InRange minInt maxInt && d.num % Double.unit = 0
  | _ => false

def asInt (v : Value) : Except Exception ℤ :=
  match v with
  | .int n => if v.isInt then .ok n else .error (.logicError "LargestInt out of Int range")
  | .uint n => if v.isInt then .ok n else .error (.logicError "LargestUInt out of Int range")
  | .real d =>
    if d.InRange minInt maxInt then .ok d.trunc
    else .error (.logicError "double out of Int range")
  | .null => .ok 0
  | .boolean b => .ok (if b then 1 else 0)
  | .string _ | .array _ | .object _ => .error (.logicError "Value is not convertible to Int.")

/-- `isConvertibleTo(stringValue)`. -/
def isConvertibleToString : Value → Bool
  | .array _ | .object _ => false
  | _ => true

/-- `isConvertibleTo(intValue)`. -/
def isConvertibleToInt (v : Value) : Bool :=
  v.isInt || match v with
    | .real d => d.InRange minInt maxInt
    | .boolean _ | .null => true
    | _ => false

/-- The string a convertible value is converted to. -/
theorem asString_isOk (v : Value) :
    (∃ s, v.asString = .ok s) ↔ v.isConvertibleToString = true := by
  cases v <;> simp [asString, isConvertibleToString]

theorem asInt_isOk (v : Value) : (∃ i, v.asInt = .ok i) ↔ v.isConvertibleToInt = true := by
  cases v with
  | int n => by_cases h : isInt (.int n) <;> simp [asInt, isConvertibleToInt, h]
  | uint n => by_cases h : isInt (.uint n) <;> simp [asInt, isConvertibleToInt, h]
  | real d =>
    by_cases h : d.InRange minInt maxInt <;> simp [asInt, isConvertibleToInt, isInt, h]
  | _ => simp [asInt, isConvertibleToInt, isInt]

/-- Whatever `asInt` returns fits an `int`. -/
theorem asInt_mem {v : Value} {i : ℤ} (h : v.asInt = .ok i) : minInt ≤ i ∧ i ≤ maxInt := by
  cases v with
  | int n =>
    simp only [asInt, isInt, Bool.and_eq_true, decide_eq_true_eq] at h
    split_ifs at h with hn
    exact Except.ok.inj h ▸ hn
  | uint n =>
    simp only [asInt, isInt, decide_eq_true_eq] at h
    split_ifs at h with hn
    obtain rfl := Except.ok.inj h
    exact ⟨by unfold minInt; omega, hn⟩
  | real d =>
    simp only [asInt] at h
    split_ifs at h with hd
    exact Except.ok.inj h ▸ Double.trunc_mem hd
  | null => exact Except.ok.inj h ▸ by decide
  | boolean b => cases b <;> exact Except.ok.inj h ▸ by decide
  | string | array | object => cases h

/-- The number written as an integer, if the value is one. -/
def integer? : Value → Option ℤ
  | .int n => some n
  | .uint n => some n
  | _ => none

/-- On an integer, `asInt` is the integer itself. -/
theorem asInt_of_integer {v : Value} {i j : ℤ} (h : v.asInt = .ok i) (hj : v.integer? = some j) :
    i = j := by
  cases v with
  | int n =>
    simp only [asInt] at h
    split_ifs at h
    exact (Except.ok.inj h).symm.trans (Option.some.inj hj)
  | uint n =>
    simp only [asInt] at h
    split_ifs at h
    exact (Except.ok.inj h).symm.trans (Option.some.inj hj)
  | _ => cases hj

theorem asInt_of_integer_mem {v : Value} {j : ℤ} (hj : v.integer? = some j) (hmin : minInt ≤ j)
    (hmax : j ≤ maxInt) : v.asInt = .ok j := by
  cases v with
  | int n =>
    obtain rfl := Option.some.inj hj
    simp [asInt, isInt, hmin, hmax]
  | uint n =>
    obtain rfl := Option.some.inj hj
    simp [asInt, isInt, hmax]
  | _ => cases hj

end Value

end WsSignalServer.Json
