import StepScript.Action.Basic
import StepScript.Number.Reading
import StepScript.Text.Blank

/-!
# Catalogue — the built-in actions

Each action takes its properties in a fixed order; the first one that is missing or of the wrong kind
refuses the step.
-/

namespace StepScript

namespace Catalogue

/-- Building takes properties one after the other. -/
abbrev Builder (α : Type) := StateT Properties (Except Failure) α

def take (key : String) : Builder (Option Value) := fun p => .ok (p.take key)

def takeOrNull (key : String) : Builder Value := do
  return (← take key).getD .null

def takeBy {α : Type} (find : Properties → String → Except PropertyError α) (key : String) :
    Builder α := fun p =>
  match find p key with
  | .ok a => .ok (a, p.erase key)
  | .error e => .error (.property e)

def refuse {α : Type} (e : ActionError) : Builder α := fun _ => .error (.action e)

def takeSteps (key : String) : Builder StepList := do
  let raw ← takeOrNull key
  match StepList.ofValue raw with
  | .ok steps => return steps
  | .error e => throw (.during (.stepsProperty key) (.step e))

/-! ## Leaf actions -/

def setVariable : Builder Action := do
  let name ← takeBy Properties.requiredString "variable"
  return .setVariable name (← takeOrNull "value")

def getVariable : Builder Action := do
  return .getVariable (← takeBy Properties.requiredString "variable")

def echo : Builder Action := do
  return .echo (← takeOrNull "value")

def check : Builder Action := do
  let value ← takeBy Properties.required "value"
  let expected ← take "equals"
  return .check value expected (← takeBy Properties.optionalString "message")

def fail : Builder Action := do
  return .fail (← takeOrNull "message")

/-- The level of a word, in any case, or of a number from one to five. -/
def level? (text : String) : Option LogLevel :=
  match Reading.unsigned64 10 text.toList with
  | .ok 1 => some .error
  | .ok 2 => some .warn
  | .ok 3 => some .info
  | .ok 4 => some .debug
  | .ok 5 => some .trace
  | _ =>
    let word := String.ofList (text.toList.map Char.toLower)
    if word == "error" then some .error
    else if word == "warn" then some .warn
    else if word == "info" then some .info
    else if word == "debug" then some .debug
    else if word == "trace" then some .trace
    else none

def log : Builder Action := do
  let level ← match ← takeBy Properties.optionalString "level" with
    | none => pure LogLevel.info
    | some text =>
      match level? text with
      | some level => pure level
      | none => refuse (.unknownLevel text)
  return .log level (← takeOrNull "message")

def sleep : Builder Action := do
  match ← takeBy Properties.required "ms" with
  | .number n =>
    match n.natural? with
    | some ms => return .sleep ms
    | none => refuse (.badDuration n.text)
  | .string s =>
    match Reading.unsigned64 10 (Blank.trim s.toList) with
    | .ok ms => return .sleep ms.toNat
    | .error _ => refuse (.badDuration ("'" ++ s ++ "'"))
  | other => refuse (.badDuration other.text)

/-! ## Control flow -/

def branch : Builder Action := do
  let condition ← takeBy Properties.required "condition"
  let yes ← takeSteps "then"
  return .branch condition yes (← takeSteps "else")

def indexed : Nat → List Value → List (Value × Value)
  | _, [] => []
  | i, v :: rest => (v, Value.ofNat i) :: indexed (i + 1) rest

def entries (kind : LoopKind) (source : Value) : Except ActionError (List (Value × Value)) :=
  match kind, source.resolved with
  | .property, .object fields => .ok (fields.map fun f => (.string f.1, f.2))
  | .property, .null => .ok []
  | .property, other => .error (.sourceNotObject kind.source other.text)
  | _, .array items _ => .ok (indexed 0 items)
  | _, .null => .ok []
  | _, other => .error (.sourceNotArray kind.source other.text)

def loop (kind : LoopKind) : Builder Action := do
  let source ← takeBy Properties.required kind.source
  match entries kind source with
  | .ok found => return .loop kind found (← takeSteps "steps")
  | .error e => refuse e

/-- The list of the steps; its own base variables give way to those of the action. -/
def runSteps : Builder Action := do
  let steps ← takeSteps "steps"
  match (← take "variables").map Value.resolved with
  | none => return .runSteps steps
  | some .null => return .runSteps steps
  | some (.object extra) =>
    return .runSteps { steps with bindings := some (Table.merge (steps.bindings.getD []) extra) }
  | some other => refuse (.variablesNotObject other.text)

def pipe : Builder Action := do
  let steps ← takeSteps "steps"
  let name ← takeBy Properties.optionalString "variable"
  return .pipe steps (name.getD "PIPE") (← takeOrNull "input")

def junction (deciding : Bool) : Builder Action := do
  return .junction deciding (← takeSteps "steps")

/-! ## The registry -/

def descriptor (builder : Builder Action) (schema : Schema) : Descriptor :=
  ⟨schema, fun p => (builder p).map Prod.fst⟩

def entriesOf : List (List String × Descriptor) :=
  let bound (key : String) := Schema.empty.binding key
  [(["if"], descriptor branch ((Schema.empty.skip "then").skip "else")),
   (["for-each-item", "for-each"], descriptor (loop .item) Schema.empty),
   (["for-each-property"], descriptor (loop .property) Schema.empty),
   (["for-each-element"], descriptor (loop .element) Schema.empty),
   (["run-steps"], descriptor runSteps (bound "steps")),
   (["pipe"], descriptor pipe (bound "steps")),
   (["all"], descriptor (junction false) (bound "steps")),
   (["or"], descriptor (junction true) (bound "steps")),
   (["set-variable"], descriptor setVariable Schema.empty),
   (["get-variable"], descriptor getVariable (bound "variable")),
   (["echo"], descriptor echo (bound "value")),
   (["assert", "check"], descriptor check (bound "value")),
   (["fail"], descriptor fail (bound "message")),
   (["log"], descriptor log (bound "message")),
   (["sleep", "wait"], descriptor sleep (bound "ms"))]

end Catalogue

namespace Registry

def builtIn : Registry :=
  Catalogue.entriesOf.foldl (fun r e => r.register e.1 e.2) empty

end Registry

end StepScript
