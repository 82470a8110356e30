import StepScript.Run.Failure

/-!
# Events — what a run reports

Every step is reported before it is read, with its short form expanded, and after it came to an end:
it passed with a value, was skipped for a reason, or failed.
-/

namespace StepScript

inductive SkipReason where
  | disabled
  | priorFailure
  | condition
  deriving DecidableEq

def SkipReason.text : SkipReason → String
  | .disabled => "disabled"
  | .priorFailure => "a previous step failed"
  | .condition => "condition is false"

inductive StepStatus where
  | passed (value : Value)
  | skipped (reason : SkipReason)
  /-- An ignored failure does not fail the list of the step. -/
  | failed (cause : Failure) (ignored : Bool)

namespace StepStatus

/-- Only failures, ignored ones too, are no success. -/
def isSuccess : StepStatus → Bool
  | .failed _ _ => false
  | _ => true

def cause? : StepStatus → Option Failure
  | .failed cause _ => some cause
  | _ => none

end StepStatus

/-- What a run reports. -/
inductive Event where
  /-- A raw step is about to be read, at some time. -/
  | before (number : String) (raw : Value) (time : Nat)
  /-- A step came to an end, at some time.  `scopeNumber` is the step number that the scope held
  then. -/
  | after (number : String) (step : Step) (status : StepStatus) (scopeNumber : Option String)
    (time : Nat)

end StepScript
