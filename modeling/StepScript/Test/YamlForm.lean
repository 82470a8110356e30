import StepScript.Test.Draft
import StepScript.Yaml.Decode
import StepScript.Yaml.Writer

/-!
# Definitions in YAML

A definition is a mapping of its fields.  Fields of other names are passed over.  A definition that is
written out can be read again.
-/

namespace StepScript

namespace YamlForm

open Yaml

/-- What is left of the levels that fields, and the items of fields, may be nested. -/
def itemDepth : Nat := Yaml.maxDepth - 2

def field (doc : Document) (name : String) (node : Node) : Decode (Option DraftField) := do
  match name with
  | "name" => return some (.name (← doc.text node))
  | "description" => return some (.description (← doc.optionalText node))
  | "tags" => return some (.tags (← (← doc.items node).mapM doc.text))
  | "variables" => do
    let fields ← (← doc.entries node).mapM fun e => do
      return (e.1, ← doc.json itemDepth e.2)
    return some (.bindings (Table.ofEntries fields))
  | "steps" => return some (.steps (← (← doc.items node).mapM (doc.json itemDepth)))
  | _ => return none

def draft (doc : Document) : List (String × Node) → Draft → Decode Draft
  | [], d => return d
  | (name, node) :: rest, d =>
    if d.has name then throw .wrongKind
    else do
      match ← field doc name node with
      | some f => draft doc rest (d.add f)
      | none => draft doc rest d

end YamlForm

namespace TestDefinition

/-- Read a definition in YAML.  A missing field is noticed before anything behind the document. -/
def ofYaml (text : String) : Except DefinitionError TestDefinition :=
  match Yaml.Document.ofText text with
  | .error _ => .error .malformed
  | .ok doc => do
    let draft ← match doc.root with
      | none => pure Draft.empty
      | some root =>
        let reading := do YamlForm.draft doc (← doc.entries root) Draft.empty
        match doc.decode reading with
        | .ok draft => pure draft
        | .error _ => throw .malformed
    let d ← draft.finish
    if doc.clean then return d else throw .malformed

def toJson (d : TestDefinition) : Json :=
  .object [
    ("name", .string d.name),
    ("description", match d.description with
      | some s => .string s
      | none => .null),
    ("tags", .array (d.tags.map .string)),
    ("variables", .object d.bindings),
    ("steps", .array d.steps)]

def toYaml (d : TestDefinition) : String :=
  Yaml.write d.toJson

end TestDefinition

end StepScript
