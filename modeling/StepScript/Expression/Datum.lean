import StepScript.Calendar.Timestamp
import StepScript.Expression.Literal
import StepScript.Text.Base64
import StepScript.Value.Basic

/-!
# Datum — what expressions compute with

Expressions have more kinds of values than test files: signed and unsigned integers, byte strings,
durations, points in time and optional values, and maps may have keys that are not strings.

* `Datum.ofValue` takes a value into an expression, lazies resolved and base variables dropped;
* `Datum.toJson` takes the result out again;
* `Datum.equals` and `Datum.compare?` are equality and order, across the kinds of numbers;
* `Datum.listing` is the text of a value inside an error.
-/

namespace StepScript

inductive MapKey where
  | int (value : Int)
  | uint (value : Nat)
  | bool (value : Bool)
  | string (value : String)
  deriving DecidableEq

/-- A value inside an expression. -/
inductive Datum where
  | null
  | bool (value : Bool)
  | int (value : Int)
  | uint (value : Nat)
  | double (value : Binary64)
  | string (value : String)
  | bytes (value : List UInt8)
  | list (items : List Datum)
  | map (entries : List (MapKey × Datum))
  | duration (value : Duration)
  | timestamp (value : Timestamp)
  | optional (value : Option Datum)

instance : Inhabited Datum := ⟨.null⟩

namespace MapKey

def text : MapKey → String
  | .int n => toString n
  | .uint n => toString n
  | .bool b => if b then "true" else "false"
  | .string s => s

def listing : MapKey → String
  | .int n => "Int(" ++ toString n ++ ")"
  | .uint n => "Uint(" ++ toString n ++ ")"
  | .bool b => "Bool(" ++ (if b then "true" else "false") ++ ")"
  | .string s => "String(" ++ Listing.quote s ++ ")"

def datum : MapKey → Datum
  | .int n => .int n
  | .uint n => .uint n
  | .bool b => .bool b
  | .string s => .string s

end MapKey

namespace Datum

/-- The largest signed integer and the bound of the unsigned ones. -/
def maxInt : Int := twoPow 63 - 1

def minInt : Int := -twoPow 63

/-! ## Values -/

def ofNumber : Number → Datum
  | .integer n _ _ => if n ≤ maxInt then .int n else .uint n.toNat
  | .float x _ => .double x

mutual

def ofValue : Value → Datum
  | .null => .null
  | .bool b => .bool b
  | .number n => ofNumber n
  | .string s => .string s
  | .array items _ => .list (ofValues items)
  | .object fields => .map (ofFields fields)
  | .lazy v => ofValue v

def ofValues : List Value → List Datum
  | [] => []
  | v :: rest => ofValue v :: ofValues rest

def ofFields : List (String × Value) → List (MapKey × Datum)
  | [] => []
  | (k, v) :: rest => (.string k, ofValue v) :: ofFields rest

end

def ofLiteral : Literal → Datum
  | .null => .null
  | .bool b => .bool b
  | .int n => .int n
  | .uint n => .uint n
  | .double x => .double x
  | .string s => .string s
  | .bytes b => .bytes b

/-- A duration too long to leave an expression. -/
structure TooLong where
  duration : Duration

def integerJson (n : Int) : Json :=
  match Number.ofInt? n with
  | some k => .number k
  | none => .null

/-- A number; infinities and NaNs become null. -/
def doubleJson (x : Binary64) : Json :=
  match Number.ofBinary64? x with
  | some k => .number k
  | none => .null

mutual

def toJson : Datum → Except TooLong Json
  | .null => .ok .null
  | .bool b => .ok (.bool b)
  | .int n => .ok (integerJson n)
  | .uint n => .ok (integerJson n)
  | .double x => .ok (doubleJson x)
  | .string s => .ok (.string s)
  | .bytes b => .ok (.string (Base64.encode b))
  | .list items => do return .array (← toJsonItems items)
  | .map entries => do return .object (Table.ofEntries (← toJsonEntries entries))
  | .duration d =>
    if minInt ≤ d.nanos && d.nanos ≤ maxInt then .ok (integerJson d.nanos) else .error ⟨d⟩
  | .timestamp t => .ok (.string t.text)
  | .optional _ => .ok .null

def toJsonItems : List Datum → Except TooLong (List Json)
  | [] => .ok []
  | d :: rest => do return (← toJson d) :: (← toJsonItems rest)

def toJsonEntries : List (MapKey × Datum) → Except TooLong (List (String × Json))
  | [] => .ok []
  | (k, d) :: rest => do return (k.text, ← toJson d) :: (← toJsonEntries rest)

end

/-! ## Listings -/

mutual

def listing : Datum → String
  | .null => "Null"
  | .bool b => "Bool(" ++ (if b then "true" else "false") ++ ")"
  | .int n => "Int(" ++ toString n ++ ")"
  | .uint n => "UInt(" ++ toString n ++ ")"
  | .double x => "Float(" ++ Layout.listing.render x ++ ")"
  | .string s => "String(" ++ Listing.quote s ++ ")"
  | .bytes b => "Bytes([" ++ ", ".intercalate (b.map fun x => toString x.toNat) ++ "])"
  | .list items => "List([" ++ listItems items ++ "])"
  | .map entries => "Map(Map \x7b map: \x7b" ++ listEntries entries ++ "\x7d \x7d)"
  | .duration d => "Duration(" ++ d.listing ++ ")"
  | .timestamp t => "Timestamp(" ++ t.text ++ ")"
  | .optional none => "Opaque<optional_type>(OptionalValue \x7b value: None \x7d)"
  | .optional (some d) =>
    "Opaque<optional_type>(OptionalValue \x7b value: Some(" ++ listing d ++ ") \x7d)"

def listItems : List Datum → String
  | [] => ""
  | [d] => listing d
  | d :: rest => listing d ++ ", " ++ listItems rest

def listEntries : List (MapKey × Datum) → String
  | [] => ""
  | [(k, d)] => k.listing ++ ": " ++ listing d
  | (k, d) :: rest => k.listing ++ ": " ++ listing d ++ ", " ++ listEntries rest

end

/-! ## Equality and order -/

/-- The order of two numbers of any kind.  An integer meets a float as a float. -/
def compareNumbers? : Datum → Datum → Option Ordering
  | .int a, .int b => some (compare a b)
  | .uint a, .uint b => some (compare a b)
  | .int a, .uint b => some (compare a (b : Int))
  | .uint a, .int b => some (compare (a : Int) b)
  | .double a, .double b => a.compare? b
  | .int a, .double b => (Binary64.ofInt a).compare? b
  | .double a, .int b => a.compare? (Binary64.ofInt b)
  | .uint a, .double b => (Binary64.ofInt a).compare? b
  | .double a, .uint b => a.compare? (Binary64.ofInt b)
  | _, _ => none

def compare? : Datum → Datum → Option Ordering
  | .string a, .string b => some (compare a b)
  | .bool a, .bool b => some (compare a.toNat b.toNat)
  | .null, .null => some .eq
  | .duration a, .duration b => some (compare a.nanos b.nanos)
  | .timestamp a, .timestamp b => some (a.compareTime b)
  | a, b => compareNumbers? a b

def findEntry? : List (MapKey × Datum) → MapKey → Option Datum
  | [], _ => none
  | (k, d) :: rest, key => if k = key then some d else findEntry? rest key

def insertEntry : List (MapKey × Datum) → MapKey → Datum → List (MapKey × Datum)
  | [], key, value => [(key, value)]
  | (k, d) :: rest, key, value =>
    if k = key then (k, value) :: rest else (k, d) :: insertEntry rest key value

mutual

/-- Equality.  Numbers of different kinds are equal when they are as numbers; other values of
different kinds differ. -/
def equals : Datum → Datum → Bool
  | .null, .null => true
  | .bool a, .bool b => a == b
  | .string a, .string b => a == b
  | .bytes a, .bytes b => a == b
  | .list a, .list b => equalItems a b
  | .map a, .map b => a.length == b.length && equalEntries a b
  | .duration a, .duration b => a == b
  | .timestamp a, .timestamp b => a.compareTime b == .eq
  | .optional none, .optional none => true
  | .optional (some a), .optional (some b) => a.equals b
  | a, b => compareNumbers? a b == some .eq

def equalItems : List Datum → List Datum → Bool
  | [], [] => true
  | a :: as, b :: bs => a.equals b && equalItems as bs
  | _, _ => false

def equalEntries : List (MapKey × Datum) → List (MapKey × Datum) → Bool
  | [], _ => true
  | (k, d) :: rest, other =>
    (match findEntry? other k with
      | some e => d.equals e
      | none => false) && equalEntries rest other

end

/-! ## Kinds -/

def kindName : Datum → String
  | .null => "null"
  | .bool _ => "bool"
  | .int _ => "int"
  | .uint _ => "uint"
  | .double _ => "float"
  | .string _ => "string"
  | .bytes _ => "bytes"
  | .list _ => "list"
  | .map _ => "map"
  | .duration _ => "duration"
  | .timestamp _ => "timestamp"
  | .optional _ => "optional_type"

def key? : Datum → Option MapKey
  | .int n => some (.int n)
  | .uint n => some (.uint n)
  | .bool b => some (.bool b)
  | .string s => some (.string s)
  | _ => none

def isZero : Datum → Bool
  | .null => true
  | .bool b => !b
  | .int n => n == 0
  | .uint n => n == 0
  | .double x => x.isZero
  | .string s => s.isEmpty
  | .bytes b => b.isEmpty
  | .list items => items.isEmpty
  | .map entries => entries.isEmpty
  | .duration d => d.nanos == 0
  | .timestamp _ => false
  | .optional _ => false

end Datum

end StepScript
