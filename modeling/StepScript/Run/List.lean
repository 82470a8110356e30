import StepScript.Run.Performance
import StepScript.Step.Shorthand

/-!
# Running a list of steps

The steps of a list are run in order.  Before each of them the base variables of the list are merged
into the scope and the number of the step is stored.  A failure does not end the list: later steps
are skipped unless they are to run on failure, and all failures are raised at the end.  A step of
unknown type and one that cannot be read end the list at once.

`ListRun.engine` ties the knot: a list runs actions and evaluates properties, and both run lists.
Its argument is the number of times that work may be nested in each other.
-/

namespace StepScript

/-- What a run is set up with. -/
structure Setup (A : Type := Action) where
  registry : Registry A
  /-- May replace or refuse a raw step, given its number, after its short form is expanded. -/
  review : String → Value → Except Failure Value

namespace Setup

/-- A run over a registry in which raw steps stay as they are. -/
def plain {A : Type} (registry : Registry A) : Setup A := ⟨registry, fun _ raw => .ok raw⟩

end Setup

namespace ListRun

variable {A : Type} [ActionType A]

def topLevel : Numbering := fun i => toString (i + 1)

def reportEnd (number : String) (step : Step) (status : StepStatus) : Task Unit := do
  let s ← Task.state
  Task.report (.after number step status s.scope.stepNumber s.clock)

def read (setup : Setup A) (number : String) (raw : Value) : Except RunFailure Step :=
  match setup.review number raw with
  | .error e => .error (.invalid number e)
  | .ok raw =>
    match Step.ofValue raw with
    | .error e => .error (.invalid number (.step e))
    | .ok step => .ok step

def prepare (setup : Setup A) (number : String) (raw : Value) : Task (Except RunFailure Step) :=
  match Shorthand.expand setup.registry raw with
  | .error e => return .error (.invalid number (.step e))
  | .ok raw => do
    let s ← Task.state
    Task.report (.before number raw s.clock)
    return read setup number raw

def conditionHolds (step : Step) : Attempt Bool :=
  match step.condition with
  | none => return true
  | some code => do
    let v ← Attempt.during (.condition code) (Attempt.expression fun s => s.evaluate code)
    return v.isTruthy

/-- Evaluate the condition and the properties of a step, build its action and run it.  There is no
value if the condition does not hold. -/
def invoke (engine : Engine) (number : String) (step : Step) (descriptor : Descriptor A) :
    Attempt (Option Value) := do
  if ← conditionHolds step then
    let values ← Attempt.during .properties
      (PropertyEvaluation.properties engine descriptor.schema true step.values)
    match Properties.ofValue values with
    | .error e => throw (.property e)
    | .ok p =>
      let action ← Attempt.ofExcept (descriptor.build p)
      return some (← (ActionType.any action).perform engine number step)
  else return none

def statusOf (step : Step) : Except Failure (Option Value) → StepStatus
  | .ok (some v) => .passed v
  | .ok none => .skipped .condition
  | .error e => .failed e step.ignoreError

def execute (setup : Setup A) (engine : Engine) (number : String) (failed : Bool) (step : Step) :
    Task (Except RunFailure StepStatus) :=
  if step.disabled then return .ok (.skipped .disabled)
  else if failed && !step.runOnFailure then return .ok (.skipped .priorFailure)
  else
    match setup.registry.find? step.type with
    | none => return .error (.unknownType step.type number)
    | some descriptor => do
      let outcome ← (invoke engine number step descriptor).run
      return .ok (statusOf step outcome)

/-- What becomes of a step that its list has reached. -/
inductive Verdict where
  /-- The step came to an end, and the list goes on. -/
  | ended (step : Step) (status : StepStatus)
  /-- The step has no known type or could not be read, which ends the list. -/
  | aborted (step : Step) (cause : RunFailure)

namespace Verdict

def step : Verdict → Step
  | .ended step _ => step
  | .aborted step _ => step

def status : Verdict → StepStatus
  | .ended _ status => status
  | .aborted _ cause => .failed (.action (.message cause.message)) false

end Verdict

def conclude (setup : Setup A) (engine : Engine) (number : String) (failed : Bool) (raw : Value) :
    Except RunFailure Step → Task Verdict
  | .error e =>
    -- a disabled step need not be readable
    let step := Step.placeholder raw
    if step.disabled then return .ended step (.skipped .disabled)
    else return .aborted step e
  | .ok step => do
    match ← execute setup engine number failed step with
    | .error e => return .aborted step e
    | .ok status => return .ended step status

def handle (setup : Setup A) (engine : Engine) (number : String) (failed : Bool) (raw : Value) :
    Task Verdict := do
  conclude setup engine number failed raw (← prepare setup number raw)

def enter (bindings : Option Variables) (number : String) : Task Unit :=
  Task.updateScope fun s =>
    (s.extend (bindings.getD [])).put Scope.stepNumberName (.string number)

def visit (setup : Setup A) (engine : Engine) (bindings : Option Variables) (number : String)
    (failed : Bool) (raw : Value) : Task Verdict := do
  enter bindings number
  let verdict ← handle setup engine number failed raw
  reportEnd number verdict.step verdict.status
  return verdict

def outcome (results : List Value) (failures : List RunFailure) :
    Except RunFailure (List Value) :=
  if failures.isEmpty then .ok results else .error (RunFailure.collect failures)

/-- Run the steps of a list from `index` on, given the results and failures so far. -/
def runFrom (setup : Setup A) (engine : Engine) (bindings : Option Variables)
    (numbering : Numbering) :
    Nat → List Value → List Value → List RunFailure → Task (Except RunFailure (List Value))
  | _, [], results, failures => return outcome results failures
  | index, raw :: rest, results, failures => do
    let number := numbering index
    let next := runFrom setup engine bindings numbering (index + 1) rest
    match ← visit setup engine bindings number (!failures.isEmpty) raw with
    | .aborted _ e => return .error (RunFailure.collect (failures ++ [e]))
    | .ended _ (.passed v) => next (results ++ [v]) failures
    | .ended _ (.skipped _) => next results failures
    | .ended _ (.failed _ true) => next results failures
    | .ended step (.failed e false) =>
      next results (failures ++ [.failed number step.displayName e])

def run (setup : Setup A) (engine : Engine) (steps : StepList) (numbering : Numbering) :
    Task (Except RunFailure (List Value)) :=
  runFrom setup engine steps.bindings numbering 0 steps.steps [] []

/-- The engine that allows work to be nested `depth` times. -/
def engine (setup : Setup A) : Nat → Engine
  | 0 => Engine.none
  | depth + 1 =>
    let inner := engine setup depth
    { expand := PropertyEvaluation.evaluate inner true
      restart := PropertyEvaluation.evaluate inner
      runList := run setup inner
      together := Task.together
      store := Attempt.put }

/-- How often work may be nested where nothing else is said. -/
def maxDepth : Nat := 2000

def engineOf (setup : Setup A) : Engine := engine setup maxDepth

end ListRun

end StepScript
