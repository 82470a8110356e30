import StepScript.Table

/-!
# Schema — how the properties of an action are evaluated

An action can ask for a property as it is written, or evaluated only once, and can declare the property
that the short form of a step stands for.  If it declares several, it is open which one is meant.
-/

namespace StepScript

/-- How one property is treated. -/
structure PropertyFlags where
  /-- The property is handed over as it is written. -/
  skip : Bool
  /-- The results of its markers are not evaluated again. -/
  nonRecursive : Bool
  /-- The short form of a step gives this property. -/
  binding : Bool
  deriving DecidableEq

def PropertyFlags.none : PropertyFlags := ⟨false, false, false⟩

/-- The flags of the properties of an action. -/
structure Schema where
  /-- The order of the entries is that of a search through them, and any order is possible: what
  follows from a schema should hold for each. -/
  properties : Table PropertyFlags

namespace Schema

def empty : Schema := ⟨[]⟩

def flags (s : Schema) (key : String) : PropertyFlags :=
  (s.properties.find? key).getD PropertyFlags.none

def update (s : Schema) (key : String) (change : PropertyFlags → PropertyFlags) : Schema :=
  ⟨s.properties.insert key (change (s.flags key))⟩

def skip (s : Schema) (key : String) : Schema :=
  s.update key fun f => { f with skip := true }

def nonRecursive (s : Schema) (key : String) : Schema :=
  s.update key fun f => { f with nonRecursive := true }

def binding (s : Schema) (key : String) : Schema :=
  s.update key fun f => { f with binding := true }

/-- The property that the short form of a step gives: of several that are declared for it, the first
one that a search comes to. -/
def bindingProperty (s : Schema) : Option String :=
  (List.find? (fun e => e.2.binding) s.properties).map Prod.fst

end Schema

end StepScript
