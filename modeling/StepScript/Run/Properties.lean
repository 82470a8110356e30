import StepScript.Marker
import StepScript.Property.KeyPlan
import StepScript.Property.Schema
import StepScript.Run.Task
import StepScript.Step.List

/-!
# Evaluation of properties

Strings are filled in, arrays and objects are walked, and every field of an object is treated as the
marks of its key ask for.  Work on values that are not part of the value at hand, such as the result
of a marker, goes through the `Engine`, and so do steps that are run for a property and the order in
which the markers of one string move.

* the markers of one string are evaluated side by side and filled in by their place in the text;
* a string that is one marker has the value of its expression, whatever its kind;
* the trail holds the expressions whose results are being evaluated; a result of one of them is left
  as it is.
-/

namespace StepScript

/-- The expressions whose results are being evaluated, the outermost first. -/
abbrev Trail := List String

/-- The ways back into the run. -/
structure Engine where
  /-- Evaluate the result of a marker, whose expression is the last one on the trail. -/
  expand : Trail → Value → Attempt Value
  /-- Evaluate what the marks of a key have yielded. -/
  restart : Bool → Trail → Value → Attempt Value
  /-- Run a list of steps. -/
  runList : StepList → Numbering → Task (Except RunFailure (List Value))
  /-- Run the list of steps that the mark of a key asks for. -/
  runMarked : StepList → Numbering → Task (Except RunFailure (List Value)) := runList
  /-- Evaluate the markers of one string side by side. -/
  together : List (Task (Except Failure Value)) → Task (Except Failure (List Value))
  /-- Store a variable for a step. -/
  store : String → Value → Attempt Unit

namespace Engine

/-- No way back: whatever is asked for ends the run. -/
def none : Engine where
  expand _ _ := Attempt.ofTask (Task.halt .exhausted)
  restart _ _ _ := Attempt.ofTask (Task.halt .exhausted)
  runList _ _ := Task.halt .exhausted
  together := Task.together
  store := Attempt.put

def marked (engine : Engine) : Engine :=
  { engine with runList := engine.runMarked }

def restore (name : String) (saved : Option Value) : Task Unit :=
  match saved with
  | some v => Task.updateScope fun s => s.put name v
  | Option.none => Task.update id

/-- Run a list inside the step under way, whose number is put back when the list has ended. -/
def runNested (engine : Engine) (steps : StepList) (numbering : Numbering) :
    Task (Except RunFailure (List Value)) := do
  let before ← Task.state
  let result ← engine.runList steps numbering
  restore Scope.stepNumberName (before.scope.get? Scope.stepNumberName)
  return result

/-- Run a list inside the step under way; a failure of the list is one of the step. -/
def runSteps (engine : Engine) (steps : StepList) (numbering : Numbering) : Attempt (List Value) :=
  ExceptT.mk (do
    match ← engine.runNested steps numbering with
    | .ok results => return .ok results
    | .error e => return .error (.run e))

end Engine

namespace PropertyEvaluation

/-! ## Strings -/

def marker (engine : Engine) (recursive : Bool) (trail : Trail) (code : String) :
    Attempt Value := do
  let v ← Attempt.expression fun s => s.evaluate code
  if recursive && !trail.contains code then engine.expand (trail ++ [code]) v
  else return v

def assemble (pieces : List Marker.Piece) (values : List Value) : Value :=
  match pieces, values with
  | [.marker _], [v] => v
  | pieces, values => .string (String.ofList (Marker.fill pieces (values.map Value.text)))

def text (engine : Engine) (recursive : Bool) (trail : Trail) (s : String) : Attempt Value := do
  let pieces := Marker.pieces s
  match Marker.codes pieces with
  | [] => return .string s
  | codes =>
    let values ← ExceptT.mk (engine.together (codes.map fun code =>
      (marker engine recursive trail code).run))
    return assemble pieces values

/-! ## The marks of a key -/

def kept (collect : Collect) (results : List Value) : Value :=
  match collect with
  | .last => results.getLast?.getD .null
  | .all => Value.list results

/-- Run a value as steps, numbered after the step under way and the key. -/
def runAsSteps (engine : Engine) (key : String) (collect : Collect) (v : Value) :
    Attempt Value := do
  let s ← Attempt.ofTask Task.state
  let base := s.scope.stepNumber.getD ""
  let results ← engine.marked.runSteps (StepList.oneOrMany v) fun i =>
    base ++ "-" ++ key ++ "-" ++ toString i
  return kept collect results

def workOnce (engine : Engine) (work : KeyWork) (v : Value) : Attempt Value :=
  match work with
  | .runSteps key collect => runAsSteps engine key collect v
  | .script =>
    match v with
    | .string code => Attempt.expression fun s => s.evaluate code
    | v => return v

def workAll (engine : Engine) : List KeyWork → Value → Attempt Value
  | [], v => return v
  | work :: rest, v => do workAll engine rest (← workOnce engine work v)

def stepsValue (engine : Engine) (trail : Trail) (v : Value) : Attempt Value :=
  match v with
  | .string s => text engine false trail s
  | v => return v

/-! ## Values -/

mutual

def evaluate (engine : Engine) (recursive : Bool) (trail : Trail) : Value → Attempt Value
  | .string s => text engine recursive trail s
  | .array items bindings => do
    return .array (← evaluateItems engine recursive trail items) bindings
  | .object fields => do
    return .object (← evaluateFields engine (fun _ => .none) recursive trail fields [])
  | .null => return .null
  | .bool b => return .bool b
  | .number n => return .number n
  | .lazy v => return .lazy v

def evaluateItems (engine : Engine) (recursive : Bool) (trail : Trail) :
    List Value → Attempt (List Value)
  | [] => return []
  | v :: rest => do
    let v ← evaluate engine recursive trail v
    return v :: (← evaluateItems engine recursive trail rest)

/-- The values of fields, one after the other, written behind those that are done. -/
def evaluateFields (engine : Engine) (flags : String → PropertyFlags) (recursive : Bool)
    (trail : Trail) : List (String × Value) → Variables → Attempt Variables
  | [], done => return done
  | (key, v) :: rest, done => do
    let (name, v) ← (
      -- the flags of the schema come before the marks of the key
      if (flags key).skip then return (key, v)
      else if (flags key).nonRecursive then do
        return (key, ← evaluate engine false trail v)
      else
        let plan := KeyPlan.ofKey key
        match plan.treatment, plan.work with
        | .raw, work => do return (plan.name, ← workAll engine work v)
        | .steps, work => do
          return (plan.name, ← stepsValue engine trail (← workAll engine work v))
        | .evaluated, [] => do return (plan.name, ← evaluate engine recursive trail v)
        | .evaluated, work => do
          -- what the marks yield is no part of the value at hand any more
          let v ← workAll engine work v
          return (plan.name, ← engine.restart recursive trail v) : Attempt (String × Value))
    evaluateFields engine flags recursive trail rest (done.insert name v)

end

def properties (engine : Engine) (schema : Schema) (recursive : Bool) (v : Value) :
    Attempt Value :=
  match v with
  | .object fields => do
    return .object (← evaluateFields engine schema.flags recursive [] fields [])
  | v => evaluate engine recursive [] v

end PropertyEvaluation

end StepScript
