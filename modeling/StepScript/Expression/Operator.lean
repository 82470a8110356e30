import StepScript.Expression.Error
import StepScript.Expression.Tree

/-!
# Operators on values

Arithmetic is between values of one kind and checked: an integer that does not fit is an error.
Equality and order reach across the kinds of numbers.
-/

namespace StepScript

namespace Operator

abbrev Result := Except EvalError Datum

def truth : Datum → Except EvalError Bool
  | .bool b => .ok b
  | _ => .error .noSuchOverload

def int? (n : Int) : Option Datum :=
  if Datum.minInt ≤ n && n ≤ Datum.maxInt then some (.int n) else none

def uint? (n : Int) : Option Datum :=
  if 0 ≤ n && n < twoPow 64 then some (.uint n.toNat) else none

def checked (operator : String) (left right : Datum) (result : Option Datum) : Result :=
  match result with
  | some d => .ok d
  | none => .error (.overflow operator left right)

def add : Datum → Datum → Result
  | .int a, .int b => checked "add" (.int a) (.int b) (int? (a + b))
  | .uint a, .uint b => checked "add" (.uint a) (.uint b) (uint? (a + b))
  | .double a, .double b => .ok (.double (a.add b))
  | .list a, .list b => .ok (.list (a ++ b))
  | .string a, .string b => .ok (.string (a ++ b))
  | .duration a, .duration b =>
    checked "add" (.duration a) (.duration b)
      ((Duration.ofNanos? (a.nanos + b.nanos)).map .duration)
  | .timestamp a, .duration b =>
    checked "add" (.timestamp a) (.duration b) ((a.add? b).map .timestamp)
  | .duration a, .timestamp b => .ok (.timestamp (b.later a))
  | l, r => .error (.unsupportedBinary "add" l r)

def subtract : Datum → Datum → Result
  | .int a, .int b => checked "sub" (.int a) (.int b) (int? (a - b))
  | .uint a, .uint b => checked "sub" (.uint a) (.uint b) (uint? ((a : Int) - b))
  | .double a, .double b => .ok (.double (a.sub b))
  | .duration a, .duration b =>
    checked "sub" (.duration a) (.duration b)
      ((Duration.ofNanos? (a.nanos - b.nanos)).map .duration)
  | .timestamp a, .duration b =>
    checked "sub" (.timestamp a) (.duration b) ((a.add? ⟨-b.nanos⟩).map .timestamp)
  | .timestamp a, .timestamp b => .ok (.duration (a.since b))
  | l, r => .error (.unsupportedBinary "sub" l r)

def multiply : Datum → Datum → Result
  | .int a, .int b => checked "mul" (.int a) (.int b) (int? (a * b))
  | .uint a, .uint b => checked "mul" (.uint a) (.uint b) (uint? (a * b))
  | .double a, .double b => .ok (.double (a.mul b))
  | l, r => .error (.unsupportedBinary "mul" l r)

/-- Quotients of integers are cut toward zero. -/
def divide : Datum → Datum → Result
  | .int a, .int b =>
    if b = 0 then .error (.divisionByZero (.int a))
    else checked "div" (.int a) (.int b) (int? (a.tdiv b))
  | .uint a, .uint b =>
    if b = 0 then .error (.divisionByZero (.uint a)) else .ok (.uint (a / b))
  | .double a, .double b => .ok (.double (a.div b))
  | l, r => .error (.unsupportedBinary "div" l r)

def remainder : Datum → Datum → Result
  | .int a, .int b =>
    if b = 0 then .error (.remainderByZero (.int a))
    else checked "rem" (.int a) (.int b) ((int? (a.tdiv b)).map fun _ => .int (a.tmod b))
  | .uint a, .uint b =>
    if b = 0 then .error (.remainderByZero (.uint a)) else .ok (.uint (a % b))
  | l, r => .error (.unsupportedBinary "rem" l r)

def ordered (accept : Ordering → Bool) (l r : Datum) : Result :=
  match l.compare? r with
  | some o => .ok (.bool (accept o))
  | none => .error (.notComparable l r)

def occursIn (part : List Char) : List Char → Bool
  | [] => part.isEmpty
  | c :: rest => part.isPrefixOf (c :: rest) || occursIn part rest

/-- Membership: a part of a string, an item of a list, a key of a map. -/
def within : Datum → Datum → Result
  | .string a, .string b => .ok (.bool (occursIn a.toList b.toList))
  | d, .list items => .ok (.bool (items.any fun i => i.equals d))
  | d, .map entries =>
    match d.key? with
    | some k => .ok (.bool (Datum.findEntry? entries k).isSome)
    | none => .ok (.bool false)
  | l, r => .error (.notComparable l r)

/-- The entry of a map under an integer, which may have been written with or without a sign. -/
def entryAt (entries : List (MapKey × Datum)) (n : Int) : Result :=
  let signed := if n ≤ Datum.maxInt then Datum.findEntry? entries (.int n) else none
  let unsigned := if n ≥ 0 then Datum.findEntry? entries (.uint n.toNat) else none
  match signed <|> unsigned with
  | some d => .ok d
  | none => .error (.noSuchKey (toString n))

def entryUnder (entries : List (MapKey × Datum)) (key : MapKey) : Result :=
  match Datum.findEntry? entries key with
  | some d => .ok d
  | none => .error (.noSuchKey key.text)

def itemAt (items : List Datum) (index : Datum) (n : Int) : Result :=
  if n < 0 then .error (.indexOutOfBounds index)
  else
    match items[n.toNat]? with
    | some d => .ok d
    | none => .error (.indexOutOfBounds index)

def indexed : Datum → Datum → Result
  | .list items, .int n => itemAt items (.int n) n
  | .list items, .uint n => itemAt items (.uint n) n
  | .list _, i => .error (.badListIndex i)
  | .map entries, .string s => entryUnder entries (.string s)
  | .map entries, .bool b => entryUnder entries (.bool b)
  | .map entries, .int n => entryAt entries n
  | .map entries, .uint n => entryAt entries n
  | .map _, i => .error (.badMapIndex i)
  | .string _, .int n => .error (.noSuchKey (toString n))
  | v, i => .error (.badIndex v i)

/-- Indexing.  Into an optional value it yields an optional value and does not fail. -/
def index : Datum → Datum → Result
  | .optional none, _ => .ok (.optional none)
  | .optional (some v), i =>
    match indexed v i with
    | .ok d => .ok (.optional (some d))
    | .error _ => .ok (.optional none)
  | v, i => indexed v i

def binary : BinaryOp → Datum → Datum → Result
  | .add => add
  | .subtract => subtract
  | .multiply => multiply
  | .divide => divide
  | .remainder => remainder
  | .equal => fun l r => .ok (.bool (l.equals r))
  | .notEqual => fun l r => .ok (.bool !(l.equals r))
  | .less => ordered (· == .lt)
  | .lessEqual => ordered (· != .gt)
  | .greater => ordered (· == .gt)
  | .greaterEqual => ordered (· != .lt)
  | .within => within
  | .index => index

def unary : UnaryOp → Datum → Result
  | .not, d => do return .bool !(← truth d)
  | .minus, .int n => .ok ((int? (-n)).getD (.int n))
  | .minus, .double x => .ok (.double x.neg)
  | .minus, d => .error (.unsupportedUnary "minus" d)

def select (v : Datum) (field : String) : Result :=
  match v with
  | .map entries =>
    match Datum.findEntry? entries (.string field) with
    | some d => .ok d
    | none => .error (.noSuchKey field)
  | _ => .error (.noSuchKey field)

def has (v : Datum) (field : String) : Bool :=
  match v with
  | .map entries => entries.any fun e => e.1.text == field
  | _ => false

end Operator

end StepScript
