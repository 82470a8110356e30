import StepScript.Expression.Function
import StepScript.Expression.Reader

/-!
# Evaluation of expressions

`Expr.evaluate` computes the value of a tree in an environment; it is structural on the tree, so
every expression has a value or an error.  `Expression.evaluate` does the same for a text and the
variables of a scope: only the variables that the expression mentions are looked at.
-/

namespace StepScript

abbrev Environment := String → Option Datum

def Environment.bind (env : Environment) (name : String) (value : Datum) : Environment :=
  fun other => if other = name then some value else env other

namespace Expr

/-- The function that a method call with a plain name in front of the dot may spell as a whole. -/
def qualified? (target : Expr) (function : String) : Option (Call → Call.Result) :=
  match target with
  | .reference name => Call.function? (name ++ "." ++ function)
  | _ => none

/-- The items that a macro runs over.  Anything but a list or a map has no answer. -/
def range : Datum → Except EvalError (List Datum)
  | .list items => .ok items
  | .map entries => .ok (entries.map fun e => e.1.datum)
  | _ => .error .crash

/-- Whether all items pass; the first that does not ends the search. -/
def allOf (test : Datum → Except EvalError Datum) : List Datum → Except EvalError Datum
  | [] => .ok (.bool true)
  | d :: rest => do
    if ← Operator.truth (← test d) then allOf test rest else return .bool false

/-- Whether some item passes.  What the test yields for the last item looked at is the result as it
is; if another item follows, it has to be a truth value. -/
def anyOf (test : Datum → Except EvalError Datum) (last : Datum) :
    List Datum → Except EvalError Datum
  | [] => .ok last
  | d :: rest => do
    if ← Operator.truth last then return last else anyOf test (← test d) rest

def countOf (test : Datum → Except EvalError Datum) : List Datum → Except EvalError Nat
  | [] => .ok 0
  | d :: rest => do
    let passes ← Operator.truth (← test d)
    let more ← countOf test rest
    return if passes then more + 1 else more

def collect (keep : Datum → Except EvalError Bool) (body : Datum → Except EvalError Datum) :
    List Datum → Except EvalError (List Datum)
  | [] => .ok []
  | d :: rest => do
    if ← keep d then
      let v ← body d
      return v :: (← collect keep body rest)
    else collect keep body rest

mutual

def evaluate (env : Environment) : Expr → Except EvalError Datum
  | .literal v => .ok (Datum.ofLiteral v)
  | .reference name =>
    match env name with
    | some d => .ok d
    | none => .error (.undeclared name)
  | .select operand field => do Operator.select (← evaluate env operand) field
  | .has operand field => do return .bool (Operator.has (← evaluate env operand) field)
  | .unary op operand => do Operator.unary op (← evaluate env operand)
  | .binary op left right => do
    let l ← evaluate env left
    let r ← evaluate env right
    Operator.binary op l r
  | .logical .or left right => do
    let l ← evaluate env left
    if ← Operator.truth l then return l else evaluate env right
  | .logical .and left right => do
    if ← Operator.truth (← evaluate env left) then
      return .bool (← Operator.truth (← evaluate env right))
    else return .bool false
  | .conditional test yes no => do
    if ← Operator.truth (← evaluate env test) then evaluate env yes else evaluate env no
  | .call function args =>
    match Call.function? function with
    | some run => run ⟨function, none, outcomes env args⟩
    | none => .error (.undeclared function)
  | .method target function args =>
    match qualified? target function with
    | some run => run ⟨function, none, outcomes env args⟩
    | none =>
      match Call.function? function with
      -- the target is evaluated only if there is such a function
      | some run => do
        let subject ← evaluate env target
        run ⟨function, some subject, outcomes env args⟩
      | none => .error (.undeclared function)
  | .list items => do return .list (← values env items)
  | .map entries => do return .map (← fields env entries [])
  | .message _ => .error .crash
  | .fold kind source item keep body => do
    let items ← range (← evaluate env source)
    let value (d : Datum) := evaluate (env.bind item d) body
    match kind with
    | .all => allOf value items
    | .any => anyOf value (.bool false) items
    | .exactlyOne => return .bool ((← countOf value items) == 1)
    | .filter => return .list (← collect (fun d => do Operator.truth (← value d)) .ok items)
    | .map =>
      match keep with
      | none => return .list (← collect (fun _ => .ok true) value items)
      | some k =>
        let passes (d : Datum) : Except EvalError Bool := do
          Operator.truth (← evaluate (env.bind item d) k)
        return .list (← collect passes value items)

def outcomes (env : Environment) : List Expr → List (Except EvalError Datum)
  | [] => []
  | e :: rest => evaluate env e :: outcomes env rest

def values (env : Environment) : List Expr → Except EvalError (List Datum)
  | [] => .ok []
  | e :: rest => do return (← evaluate env e) :: (← values env rest)

def fields (env : Environment) :
    List (Expr × Expr) → List (MapKey × Datum) → Except EvalError (List (MapKey × Datum))
  | [], done => .ok done
  | (k, v) :: rest, done => do
    let key ← evaluate env k
    match key.key? with
    | some key => fields env rest (Datum.insertEntry done key (← evaluate env v))
    | none => throw (.badKey key)

end

end Expr

/-! ## Expressions of test files -/

inductive ExpressionError where
  /-- The text is no expression; it is shown with its aliases written out. -/
  | unreadable (text : String) (cause : Token.SyntaxError)
  | failed (code : String) (cause : EvalError)
  | tooLong (duration : Duration)

namespace ExpressionError

/-- The wording of an error.  What is wrong with an unreadable text is not told. -/
def message : ExpressionError → String
  | .unreadable text _ => "CEL compile error for '" ++ text ++ "': <parse error>"
  | .failed code cause => "CEL execution error in '" ++ code ++ "': " ++ cause.message
  | .tooLong d =>
    "Failed to convert CEL value to JSON: duration too large to convert to nanoseconds: " ++ d.period

/-- Whether there is no answer at all. -/
def isCrash : ExpressionError → Bool
  | .failed _ .crash => true
  | _ => false

end ExpressionError

namespace Expression

/-- The variables that an expression mentions, as it sees them. -/
def environment (e : Expr) (bindings : Variables) : Environment := fun name =>
  if e.mentions name then (bindings.find? name).map Datum.ofValue else none

def read (code : String) : Except ExpressionError Expr :=
  let text := Alias.expand code
  match Expr.ofText text with
  | .ok e => .ok e
  | .error cause => .error (.unreadable text cause)

def evaluate (code : String) (bindings : Variables) : Except ExpressionError Value := do
  let e ← read code
  match e.evaluate (environment e bindings) with
  | .error cause => throw (.failed code cause)
  | .ok d =>
    match d.toJson with
    | .ok j => return Value.ofJson j
    | .error e => throw (.tooLong e.duration)

end Expression

end StepScript
