import StepScript.Expression.Operator
import StepScript.Pattern.Match
import StepScript.Pattern.Reader
import StepScript.Text.FormEncoding
import StepScript.Text.Utf8

/-!
# Functions of expressions

A function sees a `Call`: the target, if it was called as a method, and the outcomes of its
arguments.  An argument that failed only matters to a function that asks for it.  Most functions
take their subject from the target or else from the first argument.
-/

namespace StepScript

structure Call where
  /-- The name the function was called by. -/
  function : String
  target : Option Datum
  args : List (Except EvalError Datum)

namespace Call

abbrev Result := Except EvalError Datum

def fail {α : Type} (c : Call) (reason : String) : Except EvalError α :=
  .error (.function c.function reason)

def arg (c : Call) (i : Nat) : Result :=
  match c.args[i]? with
  | some outcome => outcome
  | none => .error (.argumentCount (i + 1) c.args.length)

/-- The subject of the call and the place of the first argument after it. -/
def subject (c : Call) : Except EvalError (Datum × Nat) :=
  match c.target with
  | some d => .ok (d, 0)
  | none =>
    match c.arg 0 with
    | .ok d => .ok (d, 1)
    | .error .crash => .error .crash
    | .error _ => .error .missingTarget

def string : Datum → Except EvalError String
  | .string s => .ok s
  | d => .error (.unexpectedType d.listing "Arc<String>")

def timestamp : Datum → Except EvalError Timestamp
  | .timestamp t => .ok t
  | d => .error (.unexpectedType d.listing "chrono::DateTime<chrono::FixedOffset>")

def optional : Datum → Except EvalError (Option Datum)
  | .optional v => .ok v
  | d => .error (.unexpectedType d.kindName "optional_type")

/-! ## Texts and collections -/

/-- Whether one list of bytes occurs in another; looking for no bytes at all has no answer. -/
def bytesOccurIn (part : List UInt8) : List UInt8 → Bool
  | [] => false
  | b :: rest => part.isPrefixOf (b :: rest) || bytesOccurIn part rest

def contains (c : Call) : Result := do
  let (subject, next) ← c.subject
  let d ← c.arg next
  match subject with
  | .list items => return .bool (items.any fun i => i.equals d)
  | .map entries =>
    match d.key? with
    | some k => return .bool (Datum.findEntry? entries k).isSome
    | none => throw (.badKey d)
  | .string s =>
    match d with
    | .string part => return .bool (Operator.occursIn part.toList s.toList)
    | _ => return .bool false
  | .bytes b =>
    match d with
    | .bytes [] => throw .crash
    | .bytes part => return .bool (bytesOccurIn part b)
    | _ => return .bool false
  | _ => return .bool false

def size (c : Call) : Result := do
  let (subject, _) ← c.subject
  match subject with
  | .list items => return .int items.length
  | .map entries => return .int entries.length
  | .string s => return .int s.utf8ByteSize
  | .bytes b => return .int b.length
  | d => c.fail ("cannot determine the size of " ++ d.listing)

def keep (accept : Ordering → Bool) (best d : Datum) : Result :=
  match best.compare? d with
  | some o => .ok (if accept o then best else d)
  | none => .error (.notComparable best d)

/-- The best of all arguments, or of the items of a single list. -/
def best (accept : Ordering → Bool) (c : Call) : Result := do
  let args ← c.args.mapM id
  let choose (items : List Datum) : Result :=
    match items with
    | [] => .ok .null
    | first :: rest => rest.foldlM (keep accept) first
  match args with
  | [.list items] => choose items
  | [d] => return d
  | args => choose args

def startsWith (c : Call) : Result := do
  let (subject, next) ← c.subject
  let s ← string subject
  let start ← string (← c.arg next)
  return .bool (start.toList.isPrefixOf s.toList)

def endsWith (c : Call) : Result := do
  let (subject, next) ← c.subject
  let s ← string subject
  let ending ← string (← c.arg next)
  return .bool (ending.toList.reverse.isPrefixOf s.toList.reverse)

def isMatch (c : Call) : Result := do
  let (subject, next) ← c.subject
  let s ← string subject
  let pattern ← string (← c.arg next)
  match Pattern.read pattern with
  | .ok p => return .bool (p.isIn s)
  | .error refusal =>
    c.fail ("'" ++ pattern ++ "' not a valid regex:\n" ++ refusal.message pattern)

def urlEncode (c : Call) : Result := do
  return .string (FormEncoding.encode (← string (← c.arg 0)))

/-! ## Conversions -/

def toText (c : Call) : Result := do
  let (subject, _) ← c.subject
  match subject with
  | .string s => return .string s
  | .timestamp t => return .string t.text
  | .duration d => return .string d.text
  | .int n => return .string (toString n)
  | .uint n => return .string (toString n)
  | .double x => return .string (Layout.plain.render x)
  | .bytes b => return .string (Utf8.decode b)
  | d => c.fail ("cannot convert " ++ d.listing ++ " to string")

def toBytes (c : Call) : Result := do
  return .bytes (Utf8.encode (← string (← c.arg 0)))

def parsed {α : Type} (c : Call) (result : Except Reading.ReadError α) : Except EvalError α :=
  match result with
  | .ok n => .ok n
  | .error e => c.fail ("string parse error: " ++ e.message)

/-- Whether a float lies beyond the floats nearest to the ends of a range. -/
def isBeyond (x : Binary64) (low high : Int) : Bool :=
  x.compare? (Binary64.ofInt high) == some .gt || x.compare? (Binary64.ofInt low) == some .lt

def toInt (c : Call) : Result := do
  let (subject, _) ← c.subject
  match subject with
  | .string s => return .int (← c.parsed (Reading.signed64 10 s.toList))
  | .double x =>
    if isBeyond x Datum.minInt Datum.maxInt then c.fail "integer overflow"
    else return .int (x.clamp Datum.minInt Datum.maxInt)
  | .int n => return .int n
  | .uint n => if n ≤ Datum.maxInt then return .int n else c.fail "integer overflow"
  | d => c.fail ("cannot convert " ++ d.listing ++ " to int")

def toUint (c : Call) : Result := do
  let (subject, _) ← c.subject
  match subject with
  | .string s => return .uint (← c.parsed (Reading.unsigned64 10 s.toList)).toNat
  | .double x =>
    if isBeyond x 0 (twoPow 64 - 1) then c.fail "unsigned integer overflow"
    else return .uint (x.clamp 0 (twoPow 64 - 1)).toNat
  | .int n => if n ≥ 0 then return .uint n.toNat else c.fail "unsigned integer overflow"
  | .uint n => return .uint n
  | d => c.fail ("cannot convert " ++ d.listing ++ " to uint")

def toDouble (c : Call) : Result := do
  let (subject, _) ← c.subject
  match subject with
  | .string s => return .double (← c.parsed (Reading.float s.toList))
  | .double x => return .double x
  | .int n => return .double (Binary64.ofInt n)
  | .uint n => return .double (Binary64.ofInt n)
  | d => c.fail ("cannot convert " ++ d.listing ++ " to double")

def typeName (c : Call) : Result := do
  match ← c.arg 0 with
  | .int _ => return .string "int"
  | .uint _ => return .string "uint"
  | .double _ => return .string "double"
  | .string _ => return .string "string"
  | .bool _ => return .string "bool"
  | .list _ => return .string "list"
  | .map _ => return .string "map"
  | .null => return .string "null"
  | .bytes _ => return .string "bytes"
  | _ => return .string "unknown"

def isEqual (c : Call) : Result := do
  let a ← c.arg 0
  let b ← c.arg 1
  return .bool (a.equals b)

/-! ## Times -/

def toDuration (c : Call) : Result := do
  match Duration.read (← string (← c.arg 0)) with
  | .ok d => return .duration d
  | .error e => throw (.function "duration" e.message)

def toTimestamp (c : Call) : Result := do
  match Timestamp.read (← string (← c.arg 0)) with
  | .ok t => return .timestamp t
  | .error e => throw (.function "timestamp" e.message)

def dateField (field : Timestamp → Int) (c : Call) : Result := do
  let (subject, _) ← c.subject
  return .int (field (← timestamp subject))

def word32 (n : Int) : Int :=
  n.bmod (twoPow 32)

def timeField (field : Timestamp → Nat) (unit : Int) (c : Call) : Result := do
  let (subject, _) ← c.subject
  match subject with
  | .timestamp t => return .int (field t)
  | .duration d => return .int (word32 (d.whole unit))
  | _ => c.fail "expected timestamp or duration"

/-! ## Optional values -/

def optionalNone (c : Call) : Result :=
  if c.args.isEmpty then .ok (.optional none) else c.fail "unsupported function"

def optionalOf (c : Call) : Result := do
  return .optional (some (← c.arg 0))

def optionalOfNonZero (c : Call) : Result := do
  let d ← c.arg 0
  return .optional (if d.isZero then none else some d)

def optionalValue (c : Call) : Result := do
  let (subject, _) ← c.subject
  match ← optional subject with
  | some d => return d
  | none => c.fail "optional.none() dereference"

def optionalHasValue (c : Call) : Result := do
  let (subject, _) ← c.subject
  return .bool (← optional subject).isSome

def optionalOr (c : Call) : Result := do
  let (subject, next) ← c.subject
  let other ← c.arg next
  match ← optional subject with
  | some d => return .optional (some d)
  | none => return .optional (← optional other)

def optionalOrValue (c : Call) : Result := do
  let (subject, next) ← c.subject
  let other ← c.arg next
  match ← optional subject with
  | some d => return d
  | none => return other

/-! ## Names -/

def functions : List (String × (Call → Result)) :=
  [("contains", contains), ("size", size),
   ("max", best (· == .gt)), ("min", best (· == .lt)),
   ("startsWith", startsWith), ("endsWith", endsWith), ("matches", isMatch),
   ("string", toText), ("bytes", toBytes), ("double", toDouble), ("int", toInt), ("uint", toUint),
   ("duration", toDuration), ("timestamp", toTimestamp),
   ("getFullYear", dateField fun t => t.date.year),
   ("getMonth", dateField fun t => t.date.month - 1),
   ("getDayOfYear", dateField fun t => t.date.dayOfYear),
   ("getDayOfMonth", dateField fun t => t.date.day - 1),
   ("getDate", dateField fun t => t.date.day),
   ("getDayOfWeek", dateField fun t => Date.dayOfWeek t.days),
   ("getHours", timeField Timestamp.hour (3600 * tenPow 9)),
   ("getMinutes", timeField Timestamp.minute (60 * tenPow 9)),
   ("getSeconds", timeField Timestamp.second (tenPow 9)),
   ("getMilliseconds", timeField (fun t => t.nanos / tenPow 6) (tenPow 6)),
   ("optional.none", optionalNone), ("optional.of", optionalOf),
   ("optional.ofNonZeroValue", optionalOfNonZero),
   ("value", optionalValue), ("hasValue", optionalHasValue),
   ("or", optionalOr), ("orValue", optionalOrValue),
   ("compare", isEqual), ("type_of", typeName), ("urlencode", urlEncode)]

def function? (name : String) : Option (Call → Result) :=
  (functions.find? fun f => f.1 == name).map Prod.snd

end Call

end StepScript
