import StepScript.Json.Basic

/-!
# Test definition — a test as its author wrote it
-/

namespace StepScript

/-- A test: a name, what it is about, variables to begin with, and raw steps. -/
structure TestDefinition where
  name : String
  description : Option String
  /-- Words to choose tests by. -/
  tags : List String
  bindings : Table Json
  steps : List Json

namespace TestDefinition

def hasTag (d : TestDefinition) (tag : String) : Bool :=
  d.tags.contains tag

/-- Equality of definitions, whatever the order of variables and object keys. -/
def equals (a b : TestDefinition) : Bool :=
  a.name == b.name && a.description == b.description && a.tags == b.tags &&
    (Json.object a.bindings).equals (.object b.bindings) &&
    (Json.array a.steps).equals (.array b.steps)

end TestDefinition

end StepScript
