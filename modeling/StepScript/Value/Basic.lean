import StepScript.Json.Writer

/-!
# Value — what flows through variables, properties and results

A `Value` is plain data with two additions: an array may carry base variables, which are merged
into the scope before its items run as steps, and a value may be lazy, computed only when an
expression or a step needs it.

* `Value.toJson` and `Value.ofJson` relate values to plain data;
* `Value.resolved` looks through outer lazies, `Value.plain` through all of them;
* `Value.isTruthy` and `Value.text` are the truth and the text of a value.
-/

namespace StepScript

/-- A value produced or consumed by steps. -/
inductive Value where
  | null
  | bool (value : Bool)
  | number (value : Number)
  | string (value : String)
  /-- Items, and the base variables to merge before the items run as steps. -/
  | array (items : List Value) (bindings : Option (List (String × Value)))
  | object (fields : List (String × Value))
  /-- A value computed on demand, standing for what it yields. -/
  | lazy (yields : Value)

instance : Inhabited Value := ⟨.null⟩

/-- Named values: the fields of an object, the variables of a scope, base variables. -/
abbrev Variables := Table Value

namespace Value

def list (items : List Value) : Value :=
  .array items none

/-- An integer that is certainly in range, such as an index or a count. -/
def ofNat (n : Nat) : Value :=
  match Number.ofInt? n with
  | some k => .number k
  | none => .null

/-- A floating-point number; infinities and NaNs become null. -/
def ofBinary64 (x : Binary64) : Value :=
  match Number.ofBinary64? x with
  | some k => .number k
  | none => .null

/-! ## Views -/

def isNull : Value → Bool
  | .null => true
  | _ => false

/-- The text of a string; a lazy string is none. -/
def string? : Value → Option String
  | .string s => some s
  | _ => none

def bool? : Value → Option Bool
  | .bool b => some b
  | _ => none

def items? : Value → Option (List Value)
  | .array items _ => some items
  | _ => none

def fields? : Value → Option Variables
  | .object fields => some fields
  | _ => none

/-- Look through the outer lazies. -/
def resolved : Value → Value
  | .lazy v => v.resolved
  | v => v

theorem resolved_ne_lazy (v w : Value) : v.resolved ≠ .lazy w := by
  induction v using resolved.induct with
  | case1 v ih => simpa only [resolved] using ih
  | case2 v hv =>
    rw [resolved.eq_2 v hv]
    exact hv w

/-! ## Plain data -/

mutual

def ofJson : Json → Value
  | .null => .null
  | .bool b => .bool b
  | .number n => .number n
  | .string s => .string s
  | .array items => .array (ofJsonItems items) none
  | .object fields => .object (ofJsonFields fields)

def ofJsonItems : List Json → List Value
  | [] => []
  | j :: rest => ofJson j :: ofJsonItems rest

def ofJsonFields : List (String × Json) → List (String × Value)
  | [] => []
  | (k, j) :: rest => (k, ofJson j) :: ofJsonFields rest

end

mutual

/-- The plain data of a value: lazies are resolved and base variables dropped. -/
def toJson : Value → Json
  | .null => .null
  | .bool b => .bool b
  | .number n => .number n
  | .string s => .string s
  | .array items _ => .array (toJsonItems items)
  | .object fields => .object (toJsonFields fields)
  | .lazy v => v.toJson

def toJsonItems : List Value → List Json
  | [] => []
  | v :: rest => v.toJson :: toJsonItems rest

def toJsonFields : List (String × Value) → List (String × Json)
  | [] => []
  | (k, v) :: rest => (k, v.toJson) :: toJsonFields rest

end

mutual

/-- The value without its lazies and base variables, at every depth. -/
def plain : Value → Value
  | .array items _ => .array (plainItems items) none
  | .object fields => .object (plainFields fields)
  | .lazy v => v.plain
  | .null => .null
  | .bool b => .bool b
  | .number n => .number n
  | .string s => .string s

def plainItems : List Value → List Value
  | [] => []
  | v :: rest => v.plain :: plainItems rest

def plainFields : List (String × Value) → List (String × Value)
  | [] => []
  | (k, v) :: rest => (k, v.plain) :: plainFields rest

end

/-! ## Truth, text and equality -/

/-- Null, false, zero and the empty string are falsy; every array and object is truthy. -/
def isTruthy : Value → Bool
  | .null => false
  | .bool b => b
  | .number n => n.isTruthy
  | .string s => !s.isEmpty
  | .array _ _ => true
  | .object _ => true
  | .lazy v => v.isTruthy

/-- The text of a value inside other text: strings stand for themselves, everything else is
written as compact JSON. -/
def text : Value → String
  | .string s => s
  | .lazy v => v.text
  | v => v.toJson.compact

mutual

/-- Equality of values.  Object keys may come in any order; base variables count; a lazy value is
a computation and equals no other value, whatever it yields. -/
def equals : Value → Value → Bool
  | .null, .null => true
  | .bool a, .bool b => a == b
  | .number a, .number b => a.equals b
  | .string a, .string b => a == b
  | .array a none, .array b none => equalItems a b
  | .array a (some v), .array b (some w) =>
    equalItems a b && v.length == w.length && equalFields v w
  | .object a, .object b => a.length == b.length && equalFields a b
  | _, _ => false

def equalItems : List Value → List Value → Bool
  | [], [] => true
  | a :: as, b :: bs => a.equals b && equalItems as bs
  | _, _ => false

def equalFields : List (String × Value) → Variables → Bool
  | [], _ => true
  | (k, v) :: rest, other =>
    (match other.find? k with
      | some w => v.equals w
      | none => false) && equalFields rest other

end

end Value

end StepScript
