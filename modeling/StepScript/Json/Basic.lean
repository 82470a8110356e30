import StepScript.Number.Basic
import StepScript.Table

/-!
# Json — plain data

`Json` is the data a test file can hold: it has neither lazy values nor base variables.  Objects
keep the order of their keys; equality ignores it.
-/

namespace StepScript

/-- Plain data, as JSON and YAML files hold it. -/
inductive Json where
  | null
  | bool (value : Bool)
  | number (value : Number)
  | string (value : String)
  | array (items : List Json)
  | object (fields : List (String × Json))

namespace Json

instance : Inhabited Json := ⟨.null⟩

mutual

/-- Equality of plain data, whatever the order of object keys. -/
def equals : Json → Json → Bool
  | .null, .null => true
  | .bool a, .bool b => a == b
  | .number a, .number b => a.equals b
  | .string a, .string b => a == b
  | .array a, .array b => equalItems a b
  | .object a, .object b => a.length == b.length && equalFields a b
  | _, _ => false

def equalItems : List Json → List Json → Bool
  | [], [] => true
  | a :: as, b :: bs => a.equals b && equalItems as bs
  | _, _ => false

/-- Every field has an equal one of its name in the other object. -/
def equalFields : List (String × Json) → Table Json → Bool
  | [], _ => true
  | (k, v) :: rest, other =>
    (match other.find? k with
      | some w => v.equals w
      | none => false) && equalFields rest other

end

end Json

end StepScript
