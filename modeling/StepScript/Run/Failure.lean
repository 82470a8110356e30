import StepScript.Expression.Evaluate
import StepScript.Property.Accessor
import StepScript.Step.Basic

/-!
# Failures

A failure is a cause with the circumstances it happened under, the outermost first.  The failure of
a step list tells which step it was: a step of unknown type and one that cannot be read are fatal,
they end the list; a step that failed is not.

* `Failure.message` is the outermost text, `Failure.chain` all texts down to the cause;
* `RunFailure.collect` is the failure of a list with several failed steps;
* `RunFailure.messages` has one text for each of them.
-/

namespace StepScript

inductive ActionError where
  | notTruthy (value : String)
  | notEqual (expected found : String)
  | message (text : String)
  | unknownLevel (level : String)
  | badDuration (found : String)
  | sourceNotObject (source found : String)
  | sourceNotArray (source found : String)
  | variablesNotObject (found : String)
  deriving DecidableEq

def ActionError.text : ActionError → String
  | .notTruthy value => "Assertion failed: " ++ value ++ " is not truthy"
  | .notEqual expected found => "Assertion failed: expected " ++ expected ++ ", got " ++ found
  | .message text => text
  | .unknownLevel level => "Unknown log level '" ++ level ++ "'"
  | .badDuration found => "'ms' must be a non-negative integer, got " ++ found
  | .sourceNotObject source found => "'" ++ source ++ "' must be an object, got " ++ found
  | .sourceNotArray source found => "'" ++ source ++ "' must be an array, got " ++ found
  | .variablesNotObject found => "'variables' must be an object, got " ++ found

/-- What was going on when something failed. -/
inductive Circumstance where
  | condition (code : String)
  | properties
  | stepsProperty (key : String)
  | iteration (index : Nat)
  | other (text : String)
  deriving DecidableEq

def Circumstance.message : Circumstance → String
  | .condition code => "Failed to evaluate condition '" ++ code ++ "'"
  | .properties => "Failed to evaluate properties"
  | .stepsProperty key => "Invalid '" ++ key ++ "' property"
  | .iteration index => "Iteration " ++ toString index ++ " failed"
  | .other text => text

mutual

/-- Why something failed. -/
inductive Failure where
  | expression (cause : ExpressionError)
  | property (cause : PropertyError)
  | step (cause : StepError)
  | action (cause : ActionError)
  | run (cause : RunFailure)
  | during (circumstance : Circumstance) (cause : Failure)

/-- Why a step list failed. -/
inductive RunFailure where
  /-- No action has the type of the step. -/
  | unknownType (type number : String)
  /-- The raw step could not be read. -/
  | invalid (number : String) (cause : Failure)
  | failed (number name : String) (cause : Failure)
  | several (members : List RunFailure)

end

mutual

def Failure.message : Failure → String
  | .expression e => e.message
  | .property e => e.message
  | .step e => e.message
  | .action e => e.text
  | .run e => e.message
  | .during circumstance _ => circumstance.message

def RunFailure.message : RunFailure → String
  | .unknownType type number => "Unknown step type '" ++ type ++ "' at step " ++ number
  | .invalid number cause => "Invalid step at " ++ number ++ ": " ++ cause.message
  | .failed number name cause =>
    "Step " ++ number ++ " (" ++ name ++ ") failed: " ++ cause.message
  | .several members =>
    toString members.length ++ " steps failed: " ++ "; ".intercalate (memberMessages members)

def memberMessages : List RunFailure → List String
  | [] => []
  | e :: rest => e.message :: memberMessages rest

end

mutual

/-- The texts of a failure, from the outermost down to the cause. -/
def Failure.texts : Failure → List String
  | .expression e => [e.message]
  | .property e => [e.message]
  | .step e => [e.message]
  | .action e => [e.text]
  | .run e => e.texts
  | .during circumstance cause => circumstance.message :: cause.texts

/-- The texts of the failure of a step list, from the outermost down to the cause. -/
def RunFailure.texts : RunFailure → List String
  | .unknownType type number => [(RunFailure.unknownType type number).message]
  | .invalid number cause => (RunFailure.invalid number cause).message :: cause.texts
  | .failed number name cause => (RunFailure.failed number name cause).message :: cause.texts
  | .several members => [(RunFailure.several members).message]

end

namespace Failure

def chain (f : Failure) : String :=
  ": ".intercalate f.texts

end Failure

namespace RunFailure

def chain (f : RunFailure) : String :=
  ": ".intercalate f.texts

/-- The failure of a list: the single failure of its steps, or all of them. -/
def collect : List RunFailure → RunFailure
  | [e] => e
  | members => .several members

mutual

def isFatal : RunFailure → Bool
  | .unknownType _ _ => true
  | .invalid _ _ => true
  | .failed _ _ _ => false
  | .several members => someFatal members

def someFatal : List RunFailure → Bool
  | [] => false
  | e :: rest => e.isFatal || someFatal rest

end

mutual

def messages : RunFailure → List String
  | .several members => messagesOfAll members
  | e => [e.message]

def messagesOfAll : List RunFailure → List String
  | [] => []
  | e :: rest => e.messages ++ messagesOfAll rest

end

end RunFailure

end StepScript
