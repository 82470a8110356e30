import StepScript.Json.Skip
import StepScript.Test.Draft

/-!
# Definitions in JSON

A definition is an object of its fields, or an array of all five in order.  Fields of other names are
passed over.
-/

namespace StepScript

namespace JsonForm

def text? : Json → Option String
  | .string s => some s
  | _ => none

def field? (name : String) (j : Json) : Option DraftField :=
  match name, j with
  | "name", .string s => some (.name s)
  | "description", .string s => some (.description (some s))
  | "description", .null => some (.description none)
  | "tags", .array items => (items.mapM text?).map .tags
  | "variables", .object fields => some (.bindings fields)
  | "steps", .array items => some (.steps items)
  | _, _ => none

/-- What is left of the levels that fields may be nested. -/
def fieldDepth : Nat := Json.maxDepth - 1

def readField (name : String) (d : Draft) (cs : List Char) :
    Except DefinitionError (Draft × List Char) :=
  let fuel := 2 * cs.length + 2
  if d.has name then .error .malformed
  else if Draft.fieldNames.contains name then
    match Json.value fuel fieldDepth cs with
    | .error _ => .error .malformed
    | .ok (j, rest) =>
      match field? name j.distinctKeys with
      | some f => .ok (d.add f, rest)
      | none => .error .malformed
  else
    match Json.skip fuel cs with
    | .ok rest => .ok (d, rest)
    | .error _ => .error .malformed

/-- Read the fields of an object up to its closing brace.  Every round takes a character, so their
number is enough `fuel`. -/
def readFields : Nat → Draft → List Char → Except DefinitionError (Draft × List Char)
  | 0, _, _ => .error .malformed
  | fuel + 1, d, cs =>
    match Json.skipBlanks cs with
    | '"' :: rest =>
      match Json.stringBody (rest.length + 1) rest [] with
      | .error _ => .error .malformed
      | .ok (name, rest) =>
        match Json.skipBlanks rest with
        | ':' :: rest => do
          let (d, rest) ← readField name d rest
          match Json.skipBlanks rest with
          | '\x7d' :: rest => return (d, rest)
          | ',' :: rest => readFields fuel d rest
          | _ => throw .malformed
        | _ => .error .malformed
    | _ => .error .malformed

def readArray (cs : List Char) : Except DefinitionError (Draft × List Char) :=
  match Json.value (2 * cs.length + 2) Json.maxDepth cs with
  | .ok (.array items, rest) =>
    if items.length != Draft.fieldNames.length then .error .malformed
    else
      match (Draft.fieldNames.zip items).mapM fun e => field? e.1 e.2.distinctKeys with
      | some fields => .ok (fields.foldl Draft.add Draft.empty, rest)
      | none => .error .malformed
  | _ => .error .malformed

def readDraft (cs : List Char) : Except DefinitionError (Draft × List Char) :=
  match Json.skipBlanks cs with
  | '[' :: _ => readArray cs
  | '\x7b' :: rest =>
    match Json.skipBlanks rest with
    | '\x7d' :: rest => .ok (Draft.empty, rest)
    | rest => readFields (rest.length + 1) Draft.empty rest
  | _ => .error .malformed

end JsonForm

/-- Read a definition in JSON.  A missing field is noticed before anything behind the definition. -/
def TestDefinition.ofJson (text : String) : Except DefinitionError TestDefinition := do
  let (draft, rest) ← JsonForm.readDraft text.toList
  let d ← draft.finish
  if Json.atEnd rest then return d else throw .malformed

end StepScript
