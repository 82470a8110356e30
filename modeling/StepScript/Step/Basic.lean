import StepScript.Value.Basic

/-!
# Step — one instruction of a test

A step names the type of an action and its properties, and says when it runs and what its failure
means.  `Step.ofValue` reads the full form; `Step.placeholder` describes a raw step that could not be
read, as well as it can.
-/

namespace StepScript

inductive StepError where
  | notObject
  | unexpectedKey (key : String)
  | badType
  | noType
  | valuesNotObject (type : String)
  | badCondition (type : String)
  | badFlag (key found : String)
  | shortNoType
  | shortAmbiguous (keys : List String)
  | shortNotObject (type found : String)
  | listVariablesNotObject
  | listStepsNotArray
  | notList (found : String)
  deriving DecidableEq

def StepError.message : StepError → String
  | .notObject => "a step must be an object"
  | .unexpectedKey key => "unexpected key '" ++ key ++ "' in step"
  | .badType => "step 'type' must be a non-empty string"
  | .noType => "step has no 'type'"
  | .valuesNotObject type => "values of step '" ++ type ++ "' must be an object"
  | .badCondition type => "condition of step '" ++ type ++ "' must be an expression string"
  | .badFlag key found => "'" ++ key ++ "' must be a boolean, got " ++ found
  | .shortNoType => "step has no type"
  | .shortAmbiguous keys =>
    "ambiguous step, expected one action key but found " ++ ", ".intercalate keys
  | .shortNotObject type found =>
    "step '" ++ type ++ "' takes an object of properties, got " ++ found
  | .listVariablesNotObject => "step list 'variables' must be an object"
  | .listStepsNotArray => "step list 'steps' must be an array"
  | .notList found => "expected a list of steps, got " ++ found

/-- One instruction: the type of an action, its properties, and how it runs. -/
structure Step where
  type : String
  name : Option String
  values : Value
  disabled : Bool
  runOnFailure : Bool
  ignoreError : Bool
  condition : Option String

namespace Step

def metaKeys : List String :=
  ["name", "disabled", "runOnFailure", "ignoreError", "condition"]

def keys : List String :=
  ["type", "name", "values", "disabled", "runOnFailure", "ignoreError", "condition"]

def ofType (type : String) (values : Value) : Step :=
  ⟨type, none, values, false, false, false, none⟩

/-- The name of a step in reports: the one it was given, or its type. -/
def displayName (s : Step) : String :=
  s.name.getD s.type

/-- The type of the full form: a string that is not empty. -/
def typeOf (fields : Variables) : Except StepError String :=
  match fields.find? "type" with
  | some (.string t) => if t.isEmpty then .error .badType else .ok t
  | some _ => .error .badType
  | none => .error .noType

def valuesOf (type : String) (fields : Variables) : Except StepError Value :=
  match fields.find? "values" with
  | none => .ok (.object [])
  | some .null => .ok (.object [])
  | some (.object values) => .ok (.object values)
  | some _ => .error (.valuesNotObject type)

/-- The condition of the full form; a truth value is an expression too. -/
def conditionOf (type : String) (fields : Variables) : Except StepError (Option String) :=
  match fields.find? "condition" with
  | none => .ok none
  | some .null => .ok none
  | some (.string code) => .ok (some code)
  | some (.bool b) => .ok (some (if b then "true" else "false"))
  | some _ => .error (.badCondition type)

def flagOf (key : String) (fields : Variables) : Except StepError Bool :=
  match fields.find? key with
  | none => .ok false
  | some .null => .ok false
  | some (.bool b) => .ok b
  | some other => .error (.badFlag key other.text)

def ofFields (fields : Variables) : Except StepError Step := do
  match fields.names.find? fun k => !keys.contains k with
  | some key => throw (.unexpectedKey key)
  | none =>
    let type ← typeOf fields
    let values ← valuesOf type fields
    let condition ← conditionOf type fields
    let disabled ← flagOf "disabled" fields
    let runOnFailure ← flagOf "runOnFailure" fields
    let ignoreError ← flagOf "ignoreError" fields
    return {
      type := type
      name := (fields.find? "name").map Value.text
      values := values
      disabled := disabled
      runOnFailure := runOnFailure
      ignoreError := ignoreError
      condition := condition }

def ofValue (v : Value) : Except StepError Step :=
  match v.resolved with
  | .object fields => ofFields fields
  | _ => .error .notObject

/-- The type of a raw step as far as it can be told: its `type`, or its first key that is not a
meta key. -/
def guessType (fields : Variables) : Option String :=
  match fields.find? "type" with
  | some (.string t) => some t
  | _ => fields.names.find? fun k => !metaKeys.contains k && k != "type"

/-- Describe a raw step that could not be read. -/
def placeholder (raw : Value) : Step :=
  match raw.resolved with
  | .string type => ofType type .null
  | .object fields =>
    { ofType ((guessType fields).getD "unknown") .null with
      name := (Table.find? fields "name").map Value.text
      disabled := match Table.find? fields "disabled" with
        | some (.bool b) => b
        | _ => false }
  | _ => ofType "unknown" .null

end Step

end StepScript
