import StepScript.Value.Basic

/-!
# Properties — evaluated properties as an action takes them

An action takes the properties it knows one after the other; what is left is what it does not know.
-/

namespace StepScript

inductive PropertyError where
  | missing (key : String)
  | notString (key : String)
  | notObject (found : String)
  deriving DecidableEq

def PropertyError.message : PropertyError → String
  | .missing key => "Missing required property '" ++ key ++ "'"
  | .notString key => "Property '" ++ key ++ "' must be a string"
  | .notObject found => "Properties must be an object, got " ++ found

/-- The properties that have not been taken yet. -/
structure Properties where
  fields : Variables

namespace Properties

def ofValue (v : Value) : Except PropertyError Properties :=
  match v.resolved with
  | .object fields => .ok ⟨fields⟩
  | .null => .ok ⟨[]⟩
  | other => .error (.notObject other.text)

def get? (p : Properties) (key : String) : Option Value :=
  p.fields.find? key

def erase (p : Properties) (key : String) : Properties :=
  ⟨p.fields.erase key⟩

def take (p : Properties) (key : String) : Option Value × Properties :=
  (p.get? key, p.erase key)

def required (p : Properties) (key : String) : Except PropertyError Value :=
  match p.get? key with
  | some v => .ok v
  | none => .error (.missing key)

def requiredString (p : Properties) (key : String) : Except PropertyError String :=
  match p.get? key with
  | some (.string s) => .ok s
  | some _ => .error (.notString key)
  | none => .error (.missing key)

def optionalString (p : Properties) (key : String) : Except PropertyError (Option String) :=
  match p.get? key with
  | none => .ok none
  | some .null => .ok none
  | some (.string s) => .ok (some s)
  | some _ => .error (.notString key)

end Properties

end StepScript
