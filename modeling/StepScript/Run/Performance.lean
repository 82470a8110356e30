import StepScript.Action.Basic
import StepScript.Run.Properties
import StepScript.Text.Blank

/-!
# Performance — running an action

Leaf actions work on the scope; control-flow actions run nested lists through the `Engine`, numbered
after the step that they belong to.  An action from outside has its way with the scope and the engine.
-/

namespace StepScript

namespace Performance

/-- Equality as checks see it: numbers at the top compare across their kinds, and lazies and base
variables do not count. -/
def same (a b : Value) : Bool :=
  match a.toJson, b.toJson with
  | .number m, .number n => m.toBinary64.eqv n.toBinary64
  | x, y => x.equals y

def holds (value : Value) (expected : Option Value) : Bool :=
  match expected with
  | some e => same value e
  | none => value.isTruthy

def complaint (value : Value) (expected : Option Value) (message : Option String) : ActionError :=
  match message, expected with
  | some m, _ => .message m
  | none, some e => .notEqual e.text value.text
  | none, none => .notTruthy value.text

def failText (message : Value) : String :=
  match message with
  | .null => "Step failed"
  | m => m.text

/-- Whether a branch is taken.  A string is evaluated as an expression, unless it is blank. -/
def verdict (condition : Value) : Attempt Bool :=
  match condition with
  | .string code =>
    if (Blank.trim code.toList).isEmpty then return false
    else do
      let v ← Attempt.during (.condition code) (Attempt.expression fun s => s.evaluate code)
      return v.isTruthy
  | v => return v.isTruthy

/-- Run one step of a list by itself; a step that is skipped has no result. -/
def single (engine : Engine) (number : String) (bindings : Option Variables) (index : Nat)
    (step : Value) : Attempt (Option Value) := do
  let results ← engine.runSteps ⟨[step], bindings⟩ fun _ => number ++ "." ++ toString index
  return results.getLast?

def rounds (engine : Engine) (number : String) (kind : LoopKind) (steps : StepList) :
    Nat → List (Value × Value) → Attempt (List Value)
  | _, [] => return []
  | round, (a, b) :: rest => do
    engine.store kind.names.1 a
    engine.store kind.names.2 b
    let results ← Attempt.during (.iteration round) (engine.runSteps steps fun i =>
      number ++ "-" ++ toString round ++ "." ++ toString i)
    return Value.list results :: (← rounds engine number kind steps (round + 1) rest)

def flow (engine : Engine) (number name : String) (bindings : Option Variables) :
    Nat → List Value → Value → Attempt Value
  | _, [], current => return current
  | index, step :: rest, current => do
    engine.store name current
    let result ← single engine number bindings index step
    flow engine number name bindings (index + 1) rest (result.getD current)

def decide (engine : Engine) (number : String) (deciding : Bool) (bindings : Option Variables) :
    Nat → List Value → Attempt Bool
  | _, [] => return !deciding
  | index, step :: rest => do
    match ← single engine number bindings index step with
    | some v =>
      if v.isTruthy == deciding then return deciding
      else decide engine number deciding bindings (index + 1) rest
    | none => decide engine number deciding bindings (index + 1) rest

def perform (engine : Engine) (number : String) : Action → Attempt Value
  | .setVariable name v => do
    engine.store name v
    return v
  | .getVariable path => Attempt.expression fun s => s.lookup path
  | .echo v => return v
  | .check v expected message =>
    if holds v expected then return v else throw (.action (complaint v expected message))
  | .fail message => throw (.action (.message (failText message)))
  | .log _ message => return message
  | .sleep milliseconds => do
    Attempt.ofTask (Task.sleep milliseconds)
    return .null
  | .branch condition yes no => do
    let taken ← verdict condition
    let (steps, word) := if taken then (yes, "then") else (no, "else")
    let results ← engine.runSteps steps fun i => number ++ "-" ++ word ++ "-" ++ toString i
    return Value.list results
  | .loop kind entries steps => do
    return Value.list (← rounds engine number kind steps 0 entries)
  | .runSteps steps => do
    return Value.list (← engine.runSteps steps fun i => number ++ "." ++ toString i)
  | .pipe steps name input => flow engine number name steps.bindings 0 steps.steps input
  | .junction deciding steps => do
    return .bool (← decide engine number deciding steps.bindings 0 steps.steps)
  | .leaf result => Attempt.ofExcept result

end Performance

/-- Run what an action from outside does. -/
def Outside.perform (engine : Engine) : Outside → Attempt Value
  | .done result => Attempt.ofExcept result
  | .crash => Attempt.ofTask (Task.halt .crashed)
  | .look next => do
    let s ← Attempt.ofTask Task.state
    (next s.scope).perform engine
  | .change f next => do
    Attempt.ofTask (Task.updateScope f)
    next.perform engine
  | .sleep milliseconds next => do
    Attempt.ofTask (Task.sleep milliseconds)
    next.perform engine
  | .evaluate schema recursive v next => do
    let found ← Attempt.ofTask (PropertyEvaluation.properties engine schema recursive v).run
    (next found).perform engine
  | .runSteps steps numbering next => do
    let outcome ← Attempt.ofTask (engine.runList steps numbering)
    (next outcome).perform engine
  | .apart own work next => do
    let found ← Attempt.ofTask (Task.apart own (work.perform engine).run)
    (next found.1 found.2).perform engine
  | .beside left right next => do
    let found ← Attempt.ofTask (Task.together [(left.perform engine).run,
      (right.perform engine).run])
    (next found).perform engine

def AnyAction.perform (engine : Engine) (number : String) (step : Step) : AnyAction → Attempt Value
  | .known action => Performance.perform engine number action
  | .outside work => (work step number).perform engine

end StepScript
