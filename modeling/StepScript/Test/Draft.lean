import StepScript.Test.Definition

/-!
# Draft — the fields of a definition as they are read

A field may be given once only.  A definition has to have a name and steps; the other fields may be
left out.
-/

namespace StepScript

inductive DefinitionError where
  /-- A field that every definition has is not there. -/
  | missing (field : String)
  /-- The text is no document of its format, or a field is not of its kind. -/
  | malformed
  deriving DecidableEq

/-- What an error says about the fields; nothing when the text itself is wrong. -/
def DefinitionError.message : DefinitionError → String
  | .missing field => "missing field " ++ quoted field
  | .malformed => ""
where
  /-- A name between accents. -/
  quoted (s : String) : String :=
    let accent := String.singleton (Char.ofNat 96)
    accent ++ s ++ accent

structure Draft where
  name : Option String
  description : Option (Option String)
  tags : Option (List String)
  bindings : Option (Table Json)
  steps : Option (List Json)

inductive DraftField where
  | name (value : String)
  | description (value : Option String)
  | tags (value : List String)
  | bindings (value : Table Json)
  | steps (value : List Json)

namespace Draft

def empty : Draft := ⟨none, none, none, none, none⟩

def has (d : Draft) (field : String) : Bool :=
  match field with
  | "name" => d.name.isSome
  | "description" => d.description.isSome
  | "tags" => d.tags.isSome
  | "variables" => d.bindings.isSome
  | "steps" => d.steps.isSome
  | _ => false

def fieldNames : List String :=
  ["name", "description", "tags", "variables", "steps"]

def add (d : Draft) : DraftField → Draft
  | .name v => { d with name := some v }
  | .description v => { d with description := some v }
  | .tags v => { d with tags := some v }
  | .bindings v => { d with bindings := some v }
  | .steps v => { d with steps := some v }

def finish (d : Draft) : Except DefinitionError TestDefinition :=
  match d.name, d.steps with
  | none, _ => .error (.missing "name")
  | some _, none => .error (.missing "steps")
  | some name, some steps =>
    .ok ⟨name, d.description.getD none, d.tags.getD [], d.bindings.getD [], steps⟩

end Draft

end StepScript
