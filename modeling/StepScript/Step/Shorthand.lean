import StepScript.Action.Basic

/-!
# Shorthand — the short forms of a step

A step may be written as the type alone, or as an object whose key is the type:

* `log` is `{type: log}`;
* `{echo: hi}` is `{type: echo, values: {value: hi}}`, since `value` is the property that the short
  form of `echo` gives;
* `{set-variable: {variable: x}}` is `{type: set-variable, values: {variable: x}}`, since no
  property is given by the short form of `set-variable`.

Meta keys may stand beside the type.  Objects with a `type` and everything else stay as they are.
-/

namespace StepScript

namespace Shorthand

variable {A : Type}

def candidates (fields : Variables) : List String :=
  fields.names.filter fun k => !Step.metaKeys.contains k

/-- The type of a short form: its one key that is not a meta key. -/
def typeOf (fields : Variables) : Except StepError String :=
  match candidates fields with
  | [type] => .ok type
  | [] => .error .shortNoType
  | many => .error (.shortAmbiguous many)

/-- The properties that the value of a short form stands for. -/
def values (registry : Registry A) (type : String) (v : Value) : Except StepError Value :=
  match registry.find? type with
  | some descriptor =>
    match descriptor.schema.bindingProperty, v with
    | some key, v => .ok (.object [(key, v)])
    | none, .null => .ok (.object [])
    | none, .object fields => .ok (.object fields)
    | none, other => .error (.shortNotObject type other.text)
  | none =>
    -- the step is reported when its type is looked up
    match v with
    | .object fields => .ok (.object fields)
    | _ => .ok (.object [])

def expandFields (registry : Registry A) (fields : Variables) : Except StepError Variables := do
  let type ← typeOf fields
  let values ← values registry type ((fields.find? type).getD .null).resolved
  return ((fields.erase type).insert "type" (.string type)).insert "values" values

def expand (registry : Registry A) (raw : Value) : Except StepError Value :=
  match raw.resolved with
  | .string type => .ok (.object [("type", .string type)])
  | .object fields =>
    if Table.contains fields "type" then .ok (.object fields)
    else do return .object (← expandFields registry fields)
  | other => .ok other

end Shorthand

end StepScript
