import StepScript.Step.Basic

/-!
# Step lists

A step list holds raw steps in order and, if it has any, base variables, which are merged into the
scope before each of its steps.  It is written as an array, which may carry base variables, or as an
object with `steps` and `variables`.
-/

namespace StepScript

/-- Numbers for the steps of a list. -/
abbrev Numbering := Nat → String

/-- Raw steps in order, and base variables. -/
structure StepList where
  steps : List Value
  bindings : Option Variables

namespace StepList

def empty : StepList := ⟨[], none⟩

def variablesOf (fields : Variables) : Except StepError (Option Variables) :=
  match fields.find? "variables" with
  | none => .ok none
  | some .null => .ok none
  | some (.object vs) => .ok (some vs)
  | some _ => .error .listVariablesNotObject

def stepsOf (fields : Variables) : Except StepError (List Value) :=
  match fields.find? "steps" with
  | some (.array items _) => .ok items
  | _ => .error .listStepsNotArray

/-- Read a list: an array, the object form, or null for no steps. -/
def ofValue (v : Value) : Except StepError StepList :=
  match v.resolved with
  | .array items bindings => .ok ⟨items, bindings⟩
  | .object fields =>
    if Table.contains fields "steps" then do
      let bindings ← variablesOf fields
      let steps ← stepsOf fields
      return ⟨steps, bindings⟩
    else .error (.notList (Value.object fields).text)
  | .null => .ok empty
  | other => .error (.notList other.text)

/-- Read an array as a list, and anything else as a single step. -/
def oneOrMany (v : Value) : StepList :=
  match v.resolved with
  | .array items bindings => ⟨items, bindings⟩
  | single => ⟨[single], none⟩

def toValue (l : StepList) : Value :=
  .array l.steps l.bindings

end StepList

end StepScript
