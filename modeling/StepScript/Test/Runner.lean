import StepScript.Run.List
import StepScript.Test.Definition
import StepScript.Test.Record

/-!
# Running a test

Every test runs in a scope of its own: the environment if it is asked for, what is known about the
agent, the variables of the test, and variables that override them.  The result says whether all
steps passed, lists the failures of the top-level steps, and has the records of all steps.
-/

namespace StepScript

/-- How tests are run. -/
structure TestRunner (A : Type := Action) where
  registry : Registry A
  /-- The environment to copy into every scope, if any. -/
  environment : Option (List (String × String))
  agent : Agent
  /-- Variables that override those of the tests. -/
  overrides : Variables

structure TestResult where
  name : String
  success : Bool
  errors : List String
  steps : List StepRecord
  duration : Nat

namespace TestRunner

variable {A : Type}

/-- The scope that a test starts in. -/
def buildScope (r : TestRunner A) (test : TestDefinition) : Scope :=
  let seeded := Scope.empty.seedEnvironment (r.environment.getD [])
  let known := seeded.seedAgent r.agent
  let own := known.extend (test.bindings.map fun e => (e.1, Value.ofJson e.2))
  own.extend r.overrides

def stepsOf (test : TestDefinition) : StepList :=
  ⟨test.steps.map Value.ofJson, none⟩

def errorsOf : Except RunFailure (List Value) → List String
  | .ok _ => []
  | .error e => e.messages

/-- Run a test in a scope by an engine; the state of the run at its end goes with the result. -/
def runBy (engine : Engine) (test : TestDefinition) (scope : Scope) :
    Except Halt (TestResult × RunState) := do
  let work := engine.runList (stepsOf test) ListRun.topLevel
  let (outcome, state) ← Task.run work (RunState.start scope)
  let errors := errorsOf outcome
  let recorder := Recorder.ofEvents state.events
  return (⟨test.name, errors.isEmpty, errors, recorder.records, state.clock⟩, state)

def runIn [ActionType A] (r : TestRunner A) (test : TestDefinition) (scope : Scope) :
    Except Halt (TestResult × RunState) :=
  runBy (ListRun.engineOf (Setup.plain r.registry)) test scope

def run [ActionType A] (r : TestRunner A) (test : TestDefinition) : Except Halt TestResult := do
  let (result, _) ← r.runIn test (r.buildScope test)
  return result

end TestRunner

end StepScript
