import StepScript.Run.Event

/-!
# Record — what is kept of the steps of a run

A recorder listens to the events of a run and keeps one record for every step that came to an end, in
the order in which they did.
-/

namespace StepScript

inductive StepState where
  | passed
  | failed
  /-- Failed, but its failure is ignored. -/
  | ignored
  | skipped
  deriving DecidableEq

def StepState.text : StepState → String
  | .passed => "passed"
  | .failed => "failed"
  | .ignored => "ignored"
  | .skipped => "skipped"

/-- What is kept of one step. -/
structure StepRecord where
  number : String
  name : String
  type : String
  state : StepState
  error : Option String
  skipReason : Option String
  /-- Milliseconds from the beginning of the step to its end. -/
  duration : Nat

def StepRecord.ofStatus (number : String) (step : Step) (status : StepStatus) (duration : Nat) :
    StepRecord :=
  let (state, error, skipReason) : StepState × Option String × Option String :=
    match status with
    | .passed _ => (.passed, none, none)
    | .skipped reason => (.skipped, none, some reason.text)
    | .failed cause ignored => (if ignored then .ignored else .failed, some cause.chain, none)
  ⟨number, step.displayName, step.type, state, error, skipReason, duration⟩

/-- The records so far, and when the steps under way began. -/
structure Recorder where
  started : Table Nat
  records : List StepRecord

namespace Recorder

def empty : Recorder := ⟨[], []⟩

def observe (r : Recorder) : Event → Recorder
  | .before number _ time => { r with started := r.started.insert number time }
  | .after number step status _ time =>
    let duration := match r.started.find? number with
      | some start => time - start
      | none => 0
    ⟨r.started.erase number,
      r.records ++ [StepRecord.ofStatus number step status duration]⟩

def take (r : Recorder) : List StepRecord × Recorder :=
  (r.records, empty)

def ofEvents (events : List Event) : Recorder :=
  events.foldl observe empty

end Recorder

end StepScript
